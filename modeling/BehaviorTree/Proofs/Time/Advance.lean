import BehaviorTree.Proofs.Time.Cadence

/-!
`World.Drains` is the firing of all that falls due by a limit, with no bound on how often. It may be cut
at any instant on the way, `Drains.cut`, since what fires first by an early limit also fires first by a
later one.
-/

namespace BehaviorTree

namespace Clock

variable {clock after : Clock} {early late limit instant : Duration} {popped : TimerId × Clock}

theorem earliest?_filter_due (timers : List Timer) (limit : Duration) :
    earliest? (timers.filter (·.due ≤ limit)) = (earliest? timers).filter (·.due ≤ limit) := by
  induction timers with
  | nil => rfl
  | cons first rest ih =>
    rw [earliest?]
    by_cases hfirst : first.due ≤ limit
    · rw [List.filter_cons_of_pos (by simpa using hfirst), earliest?, ih]
      cases hrest : earliest? rest with
      | none => simp [Option.filter_some, hfirst]
      | some other =>
        by_cases hother : other.due ≤ limit
        · cases hbefore : other.before first <;> simp [Option.filter_some, hfirst, hother, hbefore]
        · -- A timer that is due comes before one that is not.
          have hlater : other.before first = false := Bool.eq_false_iff.mpr fun hbefore =>
            hother ((Timer.due_le_of_before hbefore).trans hfirst)
          simp [Option.filter_some, hfirst, hother, hlater]
    · rw [List.filter_cons_of_neg (by simpa using hfirst), ih]
      cases hrest : earliest? rest with
      | none => simp [Option.filter_some, hfirst]
      | some other =>
        by_cases hother : other.due ≤ limit
        · have hsooner : other.before first = true :=
            Timer.before_of_due_lt (Nat.lt_of_le_of_lt hother (Nat.lt_of_not_le hfirst))
          simp [Option.filter_some, hother, hsooner]
        · cases hbefore : other.before first <;> simp [Option.filter_some, hfirst, hother, hbefore]

theorem popDue?_of_le (hle : early ≤ late) (h : clock.popDue? early = some popped) :
    clock.popDue? late = some popped := by
  obtain ⟨timer, hnext, heq⟩ := Option.map_eq_some_iff.mp h
  rw [next?, earliest?_filter_due, Option.filter_eq_some_iff] at hnext
  have hdue : timer.due ≤ late := (of_decide_eq_true hnext.2).trans hle
  have hlate : clock.next? late = some timer := by
    rw [next?, earliest?_filter_due, Option.filter_eq_some_iff]
    exact ⟨hnext.1, decide_eq_true hdue⟩
  rw [popDue?, hlate]
  exact congrArg some heq

theorem popDue?_eq_none_of_le (hle : early ≤ late) (h : clock.popDue? late = none) :
    clock.popDue? early = none := by
  cases hearly : clock.popDue? early with
  | none => rfl
  | some popped => exact absurd (h.symm.trans (popDue?_of_le hle hearly)) (by simp)

theorem popDue?_moveTo (h : ∀ timer ∈ clock.timers, instant ≤ timer.due) :
    (clock.moveTo instant).popDue? limit = clock.popDue? limit := by
  refine Option.map_congr fun timer hnext => ?_
  have hmem : timer ∈ clock.timers := (List.mem_filter.mp (earliest?_mem hnext)).1
  have hnow : max (max clock.now instant) timer.due = max clock.now timer.due := by
    rw [max_assoc, max_eq_right (h timer hmem)]
  simp only [moveTo, hnow]

theorem popDue?_eq_none (h : ∀ timer ∈ clock.timers, limit < timer.due) :
    clock.popDue? limit = none := by
  have hnone : clock.timers.filter (·.due ≤ limit) = [] :=
    List.filter_eq_nil_iff.mpr fun timer hmem => by simpa using h timer hmem
  rw [popDue?, next?, hnone]
  rfl

theorem moveTo_moveTo (hle : early ≤ late) : (clock.moveTo early).moveTo late = clock.moveTo late := by
  simp only [moveTo, max_assoc, max_eq_right hle]

end Clock

namespace World

variable {A : Type} {fire : TimerId → World A → Bool × World A} {world start middle after : World A}
variable {early late limit instant : Duration}

/-- Firing all timers due by `limit` leads from the one world to the other. -/
inductive Drains (fire : TimerId → World A → Bool × World A) (limit : Duration) :
    World A → World A → Prop where
  | done {world : World A} : world.clock.popDue? limit = none → Drains fire limit world world
  | fired {world after : World A} {id : TimerId} {clock : Clock} :
    world.clock.popDue? limit = some (id, clock) → clock.overflowed = false →
    Drains fire limit (dispatch fire id { world with clock }) after → Drains fire limit world after

/-- What falls due by a later limit falls due by an earlier one first. -/
theorem Drains.cut (hle : early ≤ late) (h : Drains fire late start after) :
    ∃ middle, Drains fire early start middle ∧ Drains fire late middle after := by
  induction h with
  | @done world hnone => exact ⟨world, .done (Clock.popDue?_eq_none_of_le hle hnone), .done hnone⟩
  | @fired world after id clock hpop hfine hrest ih =>
    cases hearly : world.clock.popDue? early with
    | none => exact ⟨world, .done hearly, .fired hpop hfine hrest⟩
    | some popped =>
      obtain ⟨middle, hfirst, hsecond⟩ := ih
      have hsame : popped = (id, clock) :=
        Option.some.inj ((Clock.popDue?_of_le hle hearly).symm.trans hpop)
      exact ⟨middle, .fired (hsame ▸ hearly) hfine hfirst, hsecond⟩

theorem Drains.join (hle : early ≤ late) (h : Drains fire early start middle)
    (k : Drains fire late middle after) : Drains fire late start after := by
  induction h with
  | done _ => exact k
  | fired hpop hfine _ ih => exact .fired (Clock.popDue?_of_le hle hpop) hfine (ih k)

theorem Drains.popDue?_eq_none (h : Drains fire limit start after) :
    after.clock.popDue? limit = none := by
  induction h with
  | done hnone => exact hnone
  | fired _ _ _ ih => exact ih

theorem Drains.fine (h : Drains fire limit start after) (hafter : after.clock.overflowed = false) :
    start.clock.overflowed = false := by
  cases h with
  | done _ => exact hafter
  | fired hpop hfine _ =>
    exact Bool.eq_false_iff.mpr fun hpast =>
      Bool.false_ne_true (hfine.symm.trans ((Clock.popped hpop).overflowed hpast))

def moveTo (world : World A) (instant : Duration) : World A :=
  { world with clock := world.clock.moveTo instant }

theorem moveTo_moveTo (world : World A) (hle : early ≤ late) :
    (world.moveTo early).moveTo late = world.moveTo late := by
  rw [moveTo, moveTo, moveTo, Clock.moveTo_moveTo hle]

/-- Time passes up to `limit`, and on the way all fires that falls due. -/
inductive Elapses (fire : TimerId → World A → Bool × World A) (limit : Duration) (start : World A) :
    World A → Prop where
  | of_drains {after : World A} : Drains fire limit start after →
    Elapses fire limit start (after.moveTo limit)

theorem elapses_moveTo (hle : instant ≤ limit)
    (hahead : ∀ timer ∈ world.clock.timers, instant ≤ timer.due) :
    Elapses fire limit (world.moveTo instant) after ↔ Elapses fire limit world after := by
  have hsame : (world.moveTo instant).clock.popDue? limit = world.clock.popDue? limit :=
    Clock.popDue?_moveTo hahead
  constructor
  · rintro ⟨hdrains⟩
    cases hdrains with
    | done hnone =>
      rw [moveTo_moveTo world hle]
      exact .of_drains (.done (hsame.symm.trans hnone))
    | fired hpop hfine hrest => exact .of_drains (.fired (hsame.symm.trans hpop) hfine hrest)
  · rintro ⟨hdrains⟩
    cases hdrains with
    | done hnone =>
      rw [← moveTo_moveTo world hle]
      exact .of_drains (.done (hsame.trans hnone))
    | fired hpop hfine hrest => exact .of_drains (.fired (hsame.trans hpop) hfine hrest)

theorem Elapses.cut (hle : early ≤ late) (h : Elapses fire late start after) :
    ∃ middle, Elapses fire early start middle ∧ Elapses fire late middle after := by
  obtain ⟨hdrains⟩ := h
  obtain ⟨middle, hfirst, hsecond⟩ := hdrains.cut hle
  have hahead := Clock.lt_due_of_popDue?_eq_none hfirst.popDue?_eq_none
  exact ⟨_, .of_drains hfirst,
    (elapses_moveTo hle fun timer hmem => Nat.le_of_lt (hahead timer hmem)).mpr (.of_drains hsecond)⟩

theorem Elapses.join (hle : early ≤ late) (h : Elapses fire early start middle)
    (k : Elapses fire late middle after) : Elapses fire late start after := by
  obtain ⟨hfirst⟩ := h
  have hahead := Clock.lt_due_of_popDue?_eq_none hfirst.popDue?_eq_none
  obtain ⟨hsecond⟩ := (elapses_moveTo hle fun timer hmem => Nat.le_of_lt (hahead timer hmem)).mp k
  exact .of_drains (hfirst.join hle hsecond)

theorem Elapses.fine (h : Elapses fire limit start after) (hafter : after.clock.overflowed = false) :
    start.clock.overflowed = false := by
  obtain ⟨hdrains⟩ := h
  exact hdrains.fine hafter

variable {node : Subtree A} {others : Multiset Handle} {dt : Duration}

/-- The bound on the number of firings is never met. -/
theorem Drains.fireDue_eq (h : Drains node.fire limit world after)
    (htimely : world.Timely node others) (hfit : node.Fit)
    (hothers : ∀ id, Handle.timer id ∉ others) {fuel : Nat}
    (hfuel : world.clock.firings limit ≤ fuel) : fireDue node.fire limit fuel world = after := by
  induction h generalizing fuel with
  | @done world hnone =>
    cases fuel with
    | zero => rfl
    | succ fuel => rw [fireDue, hnone]
  | @fired world after id clock hpop hfine _ ih =>
    obtain ⟨hnext, hclock, hleft⟩ := htimely.fired hfit hothers hpop
    cases fuel with
    | zero => omega
    | succ fuel =>
      rw [fireDue, hpop]
      dsimp only
      rw [if_neg (by simp [hfine])]
      exact ih hnext (by rw [hclock]; omega)

theorem Timely.drains (h : world.Timely node others) (hfit : node.Fit)
    (hothers : ∀ id, Handle.timer id ∉ others) (fuel : Nat)
    (hfuel : world.clock.firings limit ≤ fuel)
    (hover : (World.fireDue node.fire limit fuel world).clock.overflowed = false) :
    Drains node.fire limit world (World.fireDue node.fire limit fuel world) := by
  induction fuel generalizing world with
  | zero =>
    have hnone := Clock.lt_due_of_firingsOf_eq_zero (Nat.eq_zero_of_le_zero hfuel)
    exact .done (Clock.popDue?_eq_none hnone)
  | succ fuel ih =>
    rw [World.fireDue] at hover ⊢
    cases hpop : world.clock.popDue? limit with
    | none => exact .done hpop
    | some popped =>
      obtain ⟨id, clock⟩ := popped
      obtain ⟨hnext, hclock, hleft⟩ := h.fired hfit hothers hpop
      rw [hpop] at hover
      dsimp only at hover ⊢
      split at hover
      · rename_i hpast
        exact absurd (hpast.symm.trans hover) (by simp)
      · rename_i hfine
        rw [if_neg hfine]
        exact .fired hpop (by simpa using hfine) (ih hnext (by rw [hclock]; omega) hover)

theorem Timely.advance_eq (h : world.Timely node others) (hfit : node.Fit)
    (hothers : ∀ id, Handle.timer id ∉ others) (hlimit : world.now + dt ≤ Duration.longest)
    (k : Elapses node.fire (world.now + dt) world after) : world.advance node.fire dt = after := by
  obtain ⟨hdrains⟩ := k
  unfold advance
  dsimp only
  rw [if_neg (Nat.not_lt.mpr hlimit), hdrains.fireDue_eq h hfit hothers (Nat.le_refl _)]
  rfl

theorem Timely.elapses (h : world.Timely node others) (hfit : node.Fit)
    (hothers : ∀ id, Handle.timer id ∉ others)
    (hover : (world.advance node.fire dt).clock.overflowed = false) :
    world.now + dt ≤ Duration.longest ∧ (world.advance node.fire dt).now = world.now + dt ∧
      Elapses node.fire (world.now + dt) world (world.advance node.fire dt) := by
  unfold advance at hover ⊢
  dsimp only at hover ⊢
  split at hover
  · cases hover
  · rename_i hlimit
    rw [if_neg hlimit]
    obtain ⟨-, hnow, -, -⟩ := h.fireDue hfit hothers (Nat.le_add_right world.now dt) _ (Nat.le_refl _)
      hover
    exact ⟨Nat.le_of_not_lt hlimit, max_eq_right hnow,
      .of_drains (h.drains hfit hothers _ (Nat.le_refl _) hover)⟩

theorem steady_now_le (instant : Duration) : Steady fun world : World A => world.now ≤ instant := by
  refine ⟨fun htimeless h => htimeless.now_eq ▸ h, fun world interval callback h => ?_, fun _ _ h => h⟩
  rw [now, addTimer, Clock.addTimer, clock_refresh]
  exact h

end World

namespace Session

variable {A : Type} {tree : Tree A} {initial : Values} {session : Session A}

theorem Kept.timely (h : session.Kept) (hpunctual : session.Punctual) :
    session.root.world.Timely session.root.node session.handles :=
  ⟨h.holds, hpunctual.1, fun timer hmem => Nat.le_of_lt (hpunctual.2 timer hmem)⟩

theorem Kept.advance_elapses (h : session.Kept) (hpunctual : session.Punctual) {dt : Duration}
    (hover : (session.root.advance dt).world.clock.overflowed = false) :
    session.root.world.now + dt ≤ Duration.longest ∧
      (session.root.advance dt).world.now = session.root.world.now + dt ∧
      World.Elapses session.root.node.fire (session.root.world.now + dt) session.root.world
        (session.root.advance dt).world :=
  (h.timely hpunctual).elapses h.fit session.timer_not_mem_handles hover

theorem Kept.advance_eq (h : session.Kept) (hpunctual : session.Punctual) {dt : Duration}
    {after : World A} (hlimit : session.root.world.now + dt ≤ Duration.longest)
    (k : World.Elapses session.root.node.fire (session.root.world.now + dt) session.root.world after) :
    session.root.advance dt = { session.root with world := after } :=
  congrArg (fun world => { session.root with world })
    ((h.timely hpunctual).advance_eq h.fit session.timer_not_mem_handles hlimit k)

namespace Reachable

theorem now_le (htree : tree.BuiltIn) (h : Reachable tree initial session)
    (hover : session.root.world.clock.overflowed = false) :
    session.root.world.now ≤ Duration.longest := by
  induction h with
  | opened _ _ _ hroot =>
    obtain ⟨-, rfl⟩ := Root.withBoard_eq_ok.mp hroot
    exact Nat.zero_le _
  | @called session call h ih =>
    have hkept := h.kept htree
    have hbefore := (hkept.call call).fine hover
    have hpunctual := h.punctual htree hbefore
    have hadvance {dt : Duration}
        (hfine : (session.root.advance dt).world.clock.overflowed = false) :
        (session.root.advance dt).world.now ≤ Duration.longest := by
      obtain ⟨hlimit, hnow, -⟩ := hkept.advance_elapses hpunctual hfine
      exact hnow ▸ hlimit
    obtain ⟨dt, rfl⟩ | ⟨dt, rfl⟩ | hcall := call.time_cases
    · exact hadvance hover
    · exact (hkept.advance dt).kept.tick_steady (World.steady_now_le _)
        (hadvance (hkept.advance_fine dt hover))
    · exact hkept.call_steady (World.steady_now_le _) (ih hbefore) call hcall

theorem advance_join (htree : tree.BuiltIn) (h : Reachable tree initial session) (a b : Duration)
    (hover : ((session.root.advance a).advance b).world.clock.overflowed = false) :
    (session.root.advance a).advance b = session.root.advance (a + b) := by
  have hkept := h.kept htree
  have hmiddle := h.called (.advance a)
  have hfirst := ((hmiddle.kept htree).advance b).fine hover
  have hpunctual := h.punctual htree ((hkept.advance a).fine hfirst)
  obtain ⟨-, hnow, helapses⟩ := hkept.advance_elapses hpunctual hfirst
  obtain ⟨hlimit, -, hmore⟩ :=
    (hmiddle.kept htree).advance_elapses (hmiddle.punctual htree hfirst) hover
  change (session.root.advance a).world.now + b ≤ Duration.longest at hlimit
  change World.Elapses session.root.node.fire ((session.root.advance a).world.now + b)
    (session.root.advance a).world ((session.root.advance a).advance b).world at hmore
  rw [hnow, Nat.add_assoc] at hlimit hmore
  have hle : session.root.world.now + a ≤ session.root.world.now + (a + b) :=
    Nat.add_le_add_left (Nat.le_add_right a b) _
  exact (hkept.advance_eq hpunctual hlimit (helapses.join hle hmore)).symm

theorem advance_cut (htree : tree.BuiltIn) (h : Reachable tree initial session) (a b : Duration)
    (hover : (session.root.advance (a + b)).world.clock.overflowed = false) :
    ((session.root.advance a).advance b).world.clock.overflowed = false := by
  have hkept := h.kept htree
  have hpunctual := h.punctual htree ((hkept.advance (a + b)).fine hover)
  obtain ⟨hlimit, -, helapses⟩ := hkept.advance_elapses hpunctual hover
  rw [← Nat.add_assoc] at hlimit helapses
  obtain ⟨middle, hfirst, hsecond⟩ := helapses.cut (Nat.le_add_right _ b)
  have hstep := hkept.advance_eq hpunctual ((Nat.le_add_right _ b).trans hlimit) hfirst
  have hfine : (session.root.advance a).world.clock.overflowed = false := by
    rw [hstep]
    exact hsecond.fine hover
  obtain ⟨-, hnow, -⟩ := hkept.advance_elapses hpunctual hfine
  have hmiddle := h.called (.advance a)
  have hworld : middle = (session.root.advance a).world := (congrArg Root.world hstep).symm
  rw [← hnow] at hlimit hsecond
  rw [hworld] at hsecond
  have hlast := (hmiddle.kept htree).advance_eq (hmiddle.punctual htree hfine) hlimit hsecond
  exact (congrArg (·.world.clock.overflowed) hlast).trans hover

/-- Moving time forward takes no notice of how the time is split: unless a time overflows, two steps
leave the root just as one step of their sum does, with all that the services did on the way and in the
same order. Each step ends at the instant that was asked for, and a step of no length changes nothing. -/
theorem advance_add (htree : tree.BuiltIn) (h : Reachable tree initial session) :
    (session.root.world.clock.overflowed = false → session.root.advance 0 = session.root) ∧
    (∀ dt, (session.root.advance dt).world.clock.overflowed = false →
      (session.root.advance dt).world.now = session.root.world.now + dt) ∧
    ∀ a b, ((session.root.advance a).advance b).world.clock.overflowed = false ∨
        (session.root.advance (a + b)).world.clock.overflowed = false →
      (session.root.advance a).advance b = session.root.advance (a + b) := by
  have hkept := h.kept htree
  refine ⟨fun hover => ?_, fun dt hover => ?_, fun a b hover => ?_⟩
  · have hpunctual := h.punctual htree hover
    have hnone := Clock.popDue?_eq_none hpunctual.2
    have hstill : session.root.world.moveTo session.root.world.now = session.root.world := by
      rw [World.moveTo, Clock.moveTo, ← World.now, max_self]
      rfl
    have hdrains : World.Drains session.root.node.fire session.root.world.now session.root.world
        session.root.world := .done hnone
    have helapses := World.Elapses.of_drains hdrains
    rw [hstill] at helapses
    exact hkept.advance_eq hpunctual (h.now_le htree hover) helapses
  · have hpunctual := h.punctual htree ((hkept.advance dt).fine hover)
    exact (hkept.advance_elapses hpunctual hover).2.1
  · exact h.advance_join htree a b (hover.elim id (h.advance_cut htree a b))

end Reachable

theorem watchman_splits_time :
    let session := watchman.session.calls [.start, .tick, .set "alarm" (.bool true), .tick]
    (session.root.advance 2).advance 3 = session.root.advance 5 ∧
      (session.root.advance 5).world.now = 5 ∧
      (session.root.advance 5).world.refreshes ⟨0⟩ = [0, 2, 4] := by
  intro session
  have h : session.Reachable watchman .empty := watchman.reachable.calls _
  obtain ⟨-, hnow, hadd⟩ := h.advance_add watchman.builtIn
  exact ⟨hadd 2 3 (.inr (by decide)), hnow 5 (by decide), by decide⟩

end Session

end BehaviorTree
