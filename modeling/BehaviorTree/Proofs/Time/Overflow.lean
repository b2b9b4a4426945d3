import BehaviorTree.Proofs.Time.Advance
import BehaviorTree.Proofs.Lifecycle.OneActiveChild

namespace BehaviorTree

variable {A : Type}

namespace Tree

mutual

/-- The tree has no leaf that the host wrote, and its waits have no variance. -/
def Unvaried : Tree A → Prop
  | .action _ _ => True
  | .wait _ variance => variance = 0
  | .leaf _ => False
  | .sequence children => UnvariedList children
  | .selector children => UnvariedList children
  | .condition _ _ child => UnvariedOption child
  | .service _ _ _ child => UnvariedOption child

def UnvariedList : List (Tree A) → Prop
  | [] => True
  | tree :: trees => tree.Unvaried ∧ UnvariedList trees

def UnvariedOption : Option (Tree A) → Prop
  | none => True
  | some tree => tree.Unvaried

end

mutual

def intervals : Tree A → List Duration
  | .action _ _ => []
  | .wait _ _ => []
  | .leaf _ => []
  | .sequence children => intervalsList children
  | .selector children => intervalsList children
  | .condition _ _ child => intervalsOption child
  | .service _ interval _ child => max interval 1 :: intervalsOption child

def intervalsList : List (Tree A) → List Duration
  | [] => []
  | tree :: trees => tree.intervals ++ intervalsList trees

def intervalsOption : Option (Tree A) → List Duration
  | none => []
  | some tree => tree.intervals

end

mutual

theorem Unvaried.builtIn : (tree : Tree A) → tree.Unvaried → tree.BuiltIn
  | .action _ _, _ => trivial
  | .wait _ _, _ => trivial
  | .sequence children, h => UnvariedList.builtIn children h
  | .selector children, h => UnvariedList.builtIn children h
  | .condition _ _ child, h => UnvariedOption.builtIn child h
  | .service _ _ _ child, h => UnvariedOption.builtIn child h

theorem UnvariedList.builtIn : (trees : List (Tree A)) → UnvariedList trees → BuiltInList trees
  | [], _ => trivial
  | tree :: trees, h => ⟨Unvaried.builtIn tree h.1, UnvariedList.builtIn trees h.2⟩

theorem UnvariedOption.builtIn : (tree : Option (Tree A)) → UnvariedOption tree → BuiltInOption tree
  | none, _ => trivial
  | some tree, h => Unvaried.builtIn tree h

end

end Tree

/-- Each of the intervals ends by the longest duration when it begins now. -/
def HasRoom (now : Duration) (intervals : List Duration) : Prop :=
  ∀ interval ∈ intervals, now + interval ≤ Duration.longest

instance (now : Duration) (intervals : List Duration) : Decidable (HasRoom now intervals) :=
  inferInstanceAs (Decidable (∀ interval ∈ intervals, now + interval ≤ Duration.longest))

/-- The service begins at an instant from which its first interval ends beyond the longest duration. -/
def Refresh.Late (run : Refresh A) : Prop :=
  Duration.longest < run.world.now + max run.interval 1

/-- No time passed between the two worlds, and the clock ran out where a service began too late. -/
structure World.Overflows (intervals : List Duration) (before after : World A)
    (runs : List (Refresh A)) : Prop where
  now_eq : after.now = before.now
  places : ∀ run ∈ runs, run.world.now = before.now ∧ max run.interval 1 ∈ intervals
  overflowed_iff : after.clock.overflowed = true ↔
    before.clock.overflowed = true ∨ ∃ run ∈ runs, run.Late

namespace World

variable {before after : World A} {runs : List (Refresh A)} {intervals : List Duration}

theorem tallying_overflows (intervals : List Duration) :
    Tallying (· = 0) (fun interval => max interval 1 ∈ intervals) (Overflows (A := A) intervals) where
  trans {before middle after runs more} h k := by
    refine ⟨k.now_eq.trans h.now_eq, fun run hmem => ?_, ?_⟩
    · obtain hmem | hmem := List.mem_append.mp hmem
      · exact h.places run hmem
      · rw [← h.now_eq]
        exact k.places run hmem
    · rw [k.overflowed_iff, h.overflowed_iff]
      simp only [List.mem_append, or_and_right, exists_or, or_assoc]
  idle h := ⟨h.now_eq, nofun, by rw [h.overflowed_eq]; simp⟩
  overflow _ _ hzero hpos := absurd hzero hpos
  begin run hinterval := by
    have hclock : run.after.clock = run.world.clock := clock_refresh _ _ _
    have hnow : run.after.now = run.world.now := congrArg Clock.now hclock
    refine ⟨hnow, List.forall_mem_singleton.mpr ⟨rfl, hinterval⟩, ?_⟩
    rw [addTimer, Clock.addTimer, hclock]
    simp [Refresh.Late, now]

theorem Overflows.fine (h : before.Overflows intervals after runs)
    (hroom : HasRoom before.now intervals) (hfine : before.clock.overflowed = false) :
    after.clock.overflowed = false := by
  refine Bool.eq_false_iff.mpr fun hover => ?_
  obtain hbefore | ⟨run, hmem, hlate⟩ := h.overflowed_iff.mp hover
  · exact Bool.false_ne_true (hfine.symm.trans hbefore)
  · obtain ⟨hnow, hinterval⟩ := h.places run hmem
    rw [Refresh.Late, hnow] at hlate
    exact absurd (hroom _ hinterval) (Nat.not_le.mpr hlate)

theorem Overflows.overflowed_iff_late (h : before.Overflows intervals after runs)
    (hfine : before.clock.overflowed = false) :
    after.clock.overflowed = true ↔ ∃ run ∈ runs, run.Late := by
  rw [h.overflowed_iff, hfine, or_iff_right Bool.false_ne_true]

end World

namespace Tree

variable {P : Duration → Prop}

mutual

theorem Unvaried.measured : (tree : Tree A) → tree.Unvaried → (∀ interval ∈ tree.intervals, P interval) →
    tree.Measured (· = 0) fun interval => P (max interval 1)
  | .action _ _, _, _ => trivial
  | .wait _ _, h, _ => h
  | .sequence children, h, hP => UnvariedList.measured children h hP
  | .selector children, h, hP => UnvariedList.measured children h hP
  | .condition _ _ child, h, hP => UnvariedOption.measured child h hP
  | .service _ _ _ child, h, hP => by
    obtain ⟨hown, hbelow⟩ := List.forall_mem_cons.mp hP
    exact ⟨hown, UnvariedOption.measured child h hbelow⟩

theorem UnvariedList.measured : (trees : List (Tree A)) → UnvariedList trees →
    (∀ interval ∈ intervalsList trees, P interval) →
    MeasuredList (· = 0) (fun interval => P (max interval 1)) trees
  | [], _, _ => trivial
  | tree :: trees, h, hP => by
    obtain ⟨hfirst, hrest⟩ := List.forall_mem_append.mp hP
    exact ⟨Unvaried.measured tree h.1 hfirst, UnvariedList.measured trees h.2 hrest⟩

theorem UnvariedOption.measured : (tree : Option (Tree A)) → UnvariedOption tree →
    (∀ interval ∈ intervalsOption tree, P interval) →
    MeasuredOption (· = 0) (fun interval => P (max interval 1)) tree
  | none, _, _ => trivial
  | some tree, h, hP => Unvaried.measured tree h hP

end

end Tree

namespace Root

variable {root : Root A}

theorem start_overflows (h : root.tree.Unvaried) :
    root.world.Overflows root.tree.intervals root.start.world root.startRefreshes :=
  root.start_tallies (World.tallying_overflows _) (Tree.Unvaried.measured root.tree h fun _ => id)

theorem tick_overflows (h : root.tree.Unvaried) :
    root.world.Overflows root.tree.intervals root.tick.world root.tickRefreshes :=
  root.tick_tallies (World.tallying_overflows _) (Tree.Unvaried.measured root.tree h fun _ => id)

end Root

namespace Timer

variable {timer : Timer} {limit : Duration}

/-- When the timer falls due next once it has fired as often as it does by `limit`. -/
def dueAfter (timer : Timer) (limit : Duration) : Duration :=
  timer.due + timer.firings limit * timer.interval

theorem dueAfter_step (hdue : timer.due ≤ limit) (hpos : 0 < timer.interval) :
    { timer with due := timer.due + timer.interval }.dueAfter limit = timer.dueAfter limit := by
  rw [dueAfter, dueAfter, ← timer.firings_step hdue hpos, Nat.succ_mul, Nat.add_right_comm,
    Nat.add_assoc]

theorem dueAfter_of_lt (h : limit < timer.due) : timer.dueAfter limit = timer.due := by
  rw [dueAfter, firings, if_neg (Nat.not_le.mpr h), Nat.zero_mul, Nat.add_zero]

theorem next_le_dueAfter (hdue : timer.due ≤ limit) :
    timer.due + timer.interval ≤ timer.dueAfter limit := by
  rw [dueAfter, firings, if_pos hdue]
  exact Nat.add_le_add_left (Nat.le_mul_of_pos_left _ (Nat.succ_pos _)) _

theorem dueAfter_le (hdue : timer.due ≤ limit) : timer.dueAfter limit ≤ limit + timer.interval := by
  have hdiv : (limit - timer.due) / timer.interval * timer.interval ≤ limit - timer.due :=
    Nat.div_mul_le_self _ _
  rw [dueAfter, firings, if_pos hdue, Nat.succ_mul, ← Nat.add_assoc]
  exact Nat.add_le_add_right (Nat.add_le_of_le_sub' hdue hdiv) _

end Timer

namespace Clock

variable {before after : Clock} {limit : Duration} {fired : Timer}

/-- A timer that fires by `limit` falls due next beyond the longest duration. -/
def Overruns (clock : Clock) (limit : Duration) : Prop :=
  ∃ timer ∈ clock.timers, timer.due ≤ limit ∧ Duration.longest < timer.dueAfter limit

theorem not_overruns (h : ∀ timer ∈ before.timers, limit < timer.due) : ¬before.Overruns limit := by
  rintro ⟨timer, hmem, hdue, -⟩
  exact absurd hdue (Nat.not_le.mpr (h timer hmem))

theorem overflowed_popDue? (hdistinct : (before.timers.map (·.id)).Nodup)
    (h : before.popDue? limit = some (fired.id, after)) (hmem : fired ∈ before.timers) :
    after.overflowed = (before.overflowed || decide (Duration.longest < fired.due + fired.interval)) := by
  obtain ⟨timer, hnext, heq⟩ := Option.map_eq_some_iff.mp h
  obtain ⟨hid, rfl⟩ := Prod.mk.inj heq
  obtain rfl : timer = fired :=
    List.inj_on_of_nodup_map hdistinct (List.mem_filter.mp (earliest?_mem hnext)).1 hmem hid
  rfl

/-- What falls due beyond the longest duration in the end is not changed by a timer that fires and falls
due next before. -/
theorem Fires.overruns_iff (h : before.Fires limit fired after)
    (hdistinct : (before.timers.map (·.id)).Nodup) (hpos : 0 < fired.interval)
    (hroom : fired.due + fired.interval ≤ Duration.longest) :
    after.Overruns limit ↔ before.Overruns limit := by
  constructor
  · rintro ⟨timer, hmem, hdue, hlate⟩
    rw [h.timers_eq] at hmem
    obtain rfl | ⟨hmem, -⟩ := mem_reschedule hdistinct h.mem hmem
    · rw [Timer.dueAfter_step h.due_le hpos] at hlate
      exact ⟨fired, h.mem, h.due_le, hlate⟩
    · exact ⟨timer, hmem, hdue, hlate⟩
  · rintro ⟨timer, hmem, hdue, hlate⟩
    have hlater : (if timer.id = fired.id then { timer with due := timer.due + timer.interval }
        else timer) ∈ after.timers := by
      rw [h.timers_eq]
      exact List.mem_map_of_mem hmem
    by_cases hid : timer.id = fired.id
    · obtain rfl := List.inj_on_of_nodup_map hdistinct hmem h.mem hid
      rw [if_pos rfl] at hlater
      rw [← Timer.dueAfter_step hdue hpos] at hlate
      refine ⟨_, hlater, Nat.le_of_not_lt fun hpast => ?_, hlate⟩
      -- Had it fired for the last time, it would fall due next in time.
      rw [Timer.dueAfter_of_lt hpast] at hlate
      exact absurd hlate (Nat.not_lt.mpr hroom)
    · rw [if_neg hid] at hlater
      exact ⟨timer, hlater, hdue, hlate⟩

end Clock

namespace World

variable {world : World A} {node : Subtree A} {others : Multiset Handle} {limit : Duration}

theorem Timely.fireDue_overflowed (h : world.Timely node others) (hfit : node.Fit)
    (hothers : ∀ id, Handle.timer id ∉ others) (hfine : world.clock.overflowed = false) (fuel : Nat)
    (hfuel : world.clock.firings limit ≤ fuel) :
    (World.fireDue node.fire limit fuel world).clock.overflowed = true ↔ world.clock.Overruns limit := by
  have hstays : world.clock.overflowed = true ↔ False := by simp [hfine]
  induction fuel generalizing world with
  | zero =>
    have hnone := Clock.lt_due_of_firingsOf_eq_zero (Nat.eq_zero_of_le_zero hfuel)
    exact hstays.trans (iff_of_false id (Clock.not_overruns hnone))
  | succ fuel ih =>
    rw [World.fireDue]
    cases hpop : world.clock.popDue? limit with
    | none =>
      have hnone := Clock.lt_due_of_popDue?_eq_none hpop
      exact hstays.trans (iff_of_false id (Clock.not_overruns hnone))
    | some popped =>
      obtain ⟨id, clock⟩ := popped
      obtain ⟨hnext, hclock, hleft⟩ := h.fired hfit hothers hpop
      obtain ⟨fired, rfl, hfires⟩ := Clock.popDue?_fires hpop
      obtain ⟨_, _, hpaced⟩ := h.onTime.paced fired hfires.mem
      have hover := Clock.overflowed_popDue? h.holds.distinct hpop hfires.mem
      rw [hfine, Bool.false_or] at hover
      dsimp only
      by_cases hlate : Duration.longest < fired.due + fired.interval
      · rw [decide_eq_true hlate] at hover
        rw [if_pos hover]
        exact iff_of_true hover ⟨fired, hfires.mem, hfires.due_le,
          Nat.lt_of_lt_of_le hlate (Timer.next_le_dueAfter hfires.due_le)⟩
      · rw [decide_eq_false hlate] at hover
        rw [if_neg (by simp [hover])]
        have hrest := ih hnext (by rw [hclock, hover]) (by rw [hclock]; omega) (by simp [hclock, hover])
        rw [hclock] at hrest
        exact hrest.trans
          (hfires.overruns_iff h.holds.distinct hpaced.interval_pos (Nat.le_of_not_lt hlate))

theorem Timely.advance_overflowed (h : world.Timely node others) (hfit : node.Fit)
    (hothers : ∀ id, Handle.timer id ∉ others) (hfine : world.clock.overflowed = false)
    (dt : Duration) :
    (world.advance node.fire dt).clock.overflowed = true ↔
      Duration.longest < world.now + dt ∨ world.clock.Overruns (world.now + dt) := by
  unfold advance
  dsimp only
  split
  · rename_i hfar
    exact iff_of_true rfl (.inl hfar)
  · rename_i hnear
    rw [or_iff_right hnear]
    exact h.fireDue_overflowed hfit hothers hfine _ (Nat.le_refl _)

end World

namespace Subtree

variable {node child lower : Subtree A} {position : List Nat} {interval : Duration}

theorem intervals_list {trees : List (Tree A)} {states : Tree.StateList trees}
    (hchild : child ∈ ofList trees states) : child.tree.intervals ⊆ Tree.intervalsList trees := by
  induction trees with
  | nil => cases hchild
  | cons tree trees ih =>
    obtain ⟨state, states⟩ := states
    obtain rfl | hchild := List.mem_cons.mp hchild
    · exact List.subset_append_left _ _
    · exact List.subset_append_of_subset_right _ (ih hchild)

theorem intervals_option {tree : Option (Tree A)} {state : Tree.StateOption tree}
    (hchild : child ∈ ofOption tree state) : child.tree.intervals ⊆ Tree.intervalsOption tree := by
  cases tree with
  | none => cases hchild
  | some tree =>
    obtain rfl := List.mem_singleton.mp hchild
    exact List.Subset.refl _

theorem intervals_child (hchild : child ∈ node.children) :
    child.tree.intervals ⊆ node.tree.intervals := by
  obtain ⟨tree, state⟩ := node
  cases tree with
  | action _ _ | wait _ _ | leaf _ => cases hchild
  | sequence trees | selector trees => exact intervals_list hchild
  | condition _ _ tree => exact intervals_option hchild
  | service _ _ _ tree => exact List.subset_cons_of_subset _ (intervals_option hchild)

theorem interval_mem (hlower : node.at? position = some lower)
    (hinterval : lower.interval? = some interval) : max interval 1 ∈ node.tree.intervals := by
  induction position generalizing node with
  | nil =>
    cases hlower
    obtain ⟨tree, state⟩ := lower
    cases tree with
    | action _ _ | wait _ _ | leaf _ | sequence _ | selector _ | condition _ _ _ => cases hinterval
    | service _ _ _ _ =>
      cases hinterval
      exact List.mem_cons_self
  | cons i position ih =>
    obtain ⟨child, hchild, hlower⟩ := at?_cons_eq_some hlower
    exact intervals_child (List.mem_of_getElem? hchild) (ih hlower)

end Subtree

namespace Session

variable {tree : Tree A} {initial : Values} {session : Session A}

theorem Reachable.timely (htree : tree.BuiltIn) (h : Reachable tree initial session)
    (hfine : session.root.world.clock.overflowed = false) :
    session.root.world.Timely session.root.node session.handles := by
  obtain ⟨honTime, hahead⟩ := h.punctual htree hfine
  exact ⟨(h.kept htree).holds, honTime, fun timer hmem => Nat.le_of_lt (hahead timer hmem)⟩

theorem Reachable.interval_mem (htree : tree.BuiltIn) (h : Reachable tree initial session)
    {timer : Timer} (hmem : timer ∈ session.root.world.clock.timers) :
    timer.interval ∈ tree.intervals := by
  have hkept := h.kept htree
  have hid : session.root.world.clock.isScheduled timer.id = true :=
    (Clock.isScheduled_iff _ _).mpr (List.mem_map_of_mem hmem)
  obtain ⟨position, service, _, hservice, -, htimer, -⟩ :=
    hkept.holds.owner hkept.fit session.timer_not_mem_handles hid
  obtain ⟨interval, hinterval⟩ := Subtree.exists_interval htimer
  obtain ⟨status, hkeeper⟩ := Subtree.keeper?_service htimer hinterval
  have hbelow := Multiset.mem_of_le (Subtree.keepers_below hservice) (Subtree.keeper?_mem hkeeper)
  obtain ⟨other, hother, hsame, heq⟩ := h.timed htree _ hbelow timer.id rfl
  obtain rfl : other = timer := List.inj_on_of_nodup_map hkept.holds.distinct hother hmem hsame
  rw [heq, ← h.tree_eq]
  exact Subtree.interval_mem hservice hinterval

/-- Where a timer falls due next beyond the longest duration, an interval ends there that begins at the
limit. -/
theorem Reachable.interval_of_overruns (htree : tree.BuiltIn) (h : Reachable tree initial session)
    {limit : Duration} (hover : session.root.world.clock.Overruns limit) :
    ∃ interval ∈ tree.intervals, Duration.longest < limit + interval := by
  obtain ⟨timer, hmem, hdue, hlate⟩ := hover
  exact ⟨timer.interval, h.interval_mem htree hmem, Nat.lt_of_lt_of_le hlate (Timer.dueAfter_le hdue)⟩

/-- A host drives a tree that has not broken off so far. Stopping it never breaks it off. Starting and
ticking break off just where a service begins whose first interval would end beyond the longest duration,
and moving time forward does just where it ends there itself, or where a timer that fires on the way falls
due next there. So nothing breaks off, neither the tick after time was moved forward, where there is room
for each interval. And a selector that looks for the child to stop in favour of an earlier one has that
child. -/
theorem Reachable.breaks_off (htree : tree.Unvaried) (h : session.Reachable tree initial)
    (hfine : session.root.world.clock.overflowed = false) :
    session.root.stop.world.clock.overflowed = false ∧
    (session.root.start.world.clock.overflowed = true ↔
      ∃ run ∈ session.root.startRefreshes, run.Late) ∧
    (session.root.tick.world.clock.overflowed = true ↔
      ∃ run ∈ session.root.tickRefreshes, run.Late) ∧
    (∀ dt, (session.root.advance dt).world.clock.overflowed = true ↔
      Duration.longest < session.root.world.now + dt ∨
        session.root.world.clock.Overruns (session.root.world.now + dt)) ∧
    (∀ dt, (session.root.update dt).world.clock.overflowed = true ↔
      (session.root.advance dt).world.clock.overflowed = true ∨
        ∃ run ∈ (session.root.advance dt).tickRefreshes, run.Late) ∧
    (HasRoom session.root.world.now tree.intervals →
      session.root.start.world.clock.overflowed = false ∧
        session.root.tick.world.clock.overflowed = false) ∧
    (∀ dt, session.root.world.now + dt ≤ Duration.longest →
      HasRoom (session.root.world.now + dt) tree.intervals →
        (session.root.advance dt).world.clock.overflowed = false ∧
          (session.root.update dt).world.clock.overflowed = false) ∧
    ∀ children, ∀ state : (Tree.selector children).State, ∀ world,
      ⟨⟨.selector children, state⟩, world⟩ ∈ session.root.visits → state.status = .running →
        0 < state.current → state.current < children.length := by
  have hbuilt := Tree.Unvaried.builtIn tree htree
  have hkept := h.kept hbuilt
  have htimely := h.timely hbuilt hfine
  have hown : session.root.tree.Unvaried := h.tree_eq ▸ htree
  have hstopped := session.root.stop_idles (Tree.Unvaried.builtIn _ hown)
  have hstarted := session.root.start_overflows hown
  have hticked := session.root.tick_overflows hown
  have hupdated (dt : Duration) := (session.root.advance dt).tick_overflows hown
  have hadvance (dt : Duration) : (session.root.advance dt).world.clock.overflowed = true ↔
      Duration.longest < session.root.world.now + dt ∨
        session.root.world.clock.Overruns (session.root.world.now + dt) :=
    htimely.advance_overflowed hkept.fit session.timer_not_mem_handles hfine dt
  refine ⟨hstopped.overflowed_eq.trans hfine, hstarted.overflowed_iff_late hfine,
    hticked.overflowed_iff_late hfine, hadvance, fun dt => (hupdated dt).overflowed_iff,
    fun hroom => ?_, fun dt hlimit hroom => ?_, fun children state world hvisit hrun hpos => ?_⟩
  · rw [← h.tree_eq] at hroom
    exact ⟨hstarted.fine hroom hfine, hticked.fine hroom hfine⟩
  · have hadvanced : (session.root.advance dt).world.clock.overflowed = false := by
      refine Bool.eq_false_iff.mpr fun hover => ?_
      obtain hfar | hlate := (hadvance dt).mp hover
      · exact absurd hlimit (Nat.not_le.mpr hfar)
      · obtain ⟨interval, hmem, hlong⟩ := h.interval_of_overruns hbuilt hlate
        exact absurd (hroom interval hmem) (Nat.not_le.mpr hlong)
    obtain ⟨-, hthen, -⟩ := htimely.elapses hkept.fit session.timer_not_mem_handles hadvanced
    have hlater : (session.root.advance dt).world.now = session.root.world.now + dt := hthen
    rw [← h.tree_eq, ← hlater] at hroom
    exact ⟨hadvanced, (hupdated dt).fine hroom hadvanced⟩
  · have horderly := Root.orderly_readied (h.orderly (Tree.BuiltIn.obedient tree hbuilt))
    unfold Root.visits at hvisit
    split at hvisit
    · have hnode := Tree.visits_orderly _ _ _ horderly _ hvisit
      exact (hnode.orderly.1.bound hrun).resolve_left (Nat.ne_of_gt hpos)
    · cases hvisit

theorem watchman_breaks_off :
    let session := watchman.session.calls [.start, .set "alarm" (.bool true), .tick]
    session.root.world.clock.timers = [⟨⟨0⟩, 2, 2⟩] ∧ session.root.stop.world.clock.overflowed = false ∧
      (session.root.update (Duration.longest - 2)).world.clock.overflowed = false ∧
      (session.root.advance Duration.longest).world.clock.overflowed = true := by
  intro session
  have h : session.Reachable watchman .empty := watchman.reachable.calls _
  have hunvaried : watchman.Unvaried := ⟨rfl, rfl, trivial⟩
  have htimers : session.root.world.clock.timers = [⟨⟨0⟩, 2, 2⟩] := by decide
  have hnow : session.root.world.now = 0 := by decide
  obtain ⟨hstop, -, -, hadvance, -, -, hgoes, -⟩ := h.breaks_off hunvaried (by decide)
  refine ⟨htimers, hstop, (hgoes _ ?_ ?_).2, (hadvance _).mpr (.inr ⟨⟨⟨0⟩, 2, 2⟩, ?_, ?_, ?_⟩)⟩
  · rw [hnow]
    decide
  · rw [hnow]
    decide
  · rw [htimers]
    exact List.mem_singleton_self _
  · rw [hnow]
    decide
  · rw [hnow]
    decide

def eternal : Tree Nat := .service "mark" Duration.longest (.act (· + 1) .done) (some (.wait 5 0))

/-- The end of time can be named, and the service is due there. But before its callback runs, the tree
breaks off, because there is no next time. If it begins a nanosecond later, it breaks off at once. -/
theorem eternal_breaks_off :
    let opened : Session Nat :=
      ⟨Root.opened eternal {} 0 (fun _ agent => agent) (.ofSeed 0), []⟩
    eternal.Unvaried ∧ opened.Reachable eternal .empty ∧
    (opened.call .start).root.world.clock.overflowed = false ∧
    (opened.call .start).root.world.now + Duration.longest ≤ Duration.longest ∧
    (opened.call .start).root.world.clock.timers = [⟨⟨0⟩, Duration.longest, Duration.longest⟩] ∧
    ((opened.call .start).root.advance Duration.longest).world.clock.overflowed = true ∧
    ((opened.call .start).root.advance Duration.longest).world.agent = 1 ∧
    (opened.call (.advance 1)).root.world.clock.overflowed = false ∧
    (opened.call (.advance 1)).root.start.world.clock.overflowed = true := by
  intro opened
  have hopened : opened.Reachable eternal .empty :=
    .opened (Board.sound_ofValues .empty) rfl (fun _ _ _ => rfl)
      (Root.withBoard_eq_ok.mpr ⟨⟨rfl, rfl⟩, rfl⟩)
  exact ⟨rfl, hopened, by decide, by decide, by decide, by decide, by decide, by decide, by decide⟩

end Session

end BehaviorTree
