import BehaviorTree.Proofs.Lifecycle.KeeperInvariants

namespace BehaviorTree

theorem Timer.firings_step (timer : Timer) {limit : Duration} (hdue : timer.due ≤ limit)
    (hpos : 0 < timer.interval) :
    { timer with due := timer.due + timer.interval }.firings limit + 1 = timer.firings limit := by
  rw [firings, firings, if_pos hdue]
  split
  · rename_i hagain
    have hlater : timer.interval ≤ limit - timer.due := Nat.le_sub_of_add_le' hagain
    rw [Nat.div_eq_sub_div hpos hlater, Nat.sub_sub]
  · rename_i hagain
    have hlast : limit - timer.due < timer.interval :=
      Nat.sub_lt_left_of_lt_add hdue (Nat.lt_of_not_le hagain)
    rw [Nat.div_eq_of_lt hlast]

theorem Timer.due_le_of_before {a b : Timer} (h : a.before b = true) : a.due ≤ b.due := by
  simp only [before, Bool.or_eq_true, decide_eq_true_eq, Bool.and_eq_true, beq_iff_eq] at h
  exact h.elim Nat.le_of_lt fun h => Nat.le_of_eq h.1

theorem Timer.before_of_due_lt {a b : Timer} (h : a.due < b.due) : a.before b = true := by
  simp [before, h]

namespace Clock

theorem earliest?_eq_none {timers : List Timer} (h : earliest? timers = none) : timers = [] := by
  cases timers with
  | nil => rfl
  | cons timer timers =>
    rw [earliest?] at h
    split at h
    · cases h
    · split at h <;> cases h

theorem earliest?_le {timers : List Timer} {timer : Timer} (h : earliest? timers = some timer) :
    ∀ other ∈ timers, timer.due ≤ other.due := by
  induction timers generalizing timer with
  | nil => cases h
  | cons first rest ih =>
    rw [earliest?] at h
    split at h
    · rename_i hnone
      cases h
      rw [earliest?_eq_none hnone]
      exact List.forall_mem_singleton.mpr (Nat.le_refl _)
    · rename_i next hnext
      have hrest := ih hnext
      split at h <;> rename_i hbefore <;> cases h
      · exact List.forall_mem_cons.mpr ⟨Timer.due_le_of_before hbefore, hrest⟩
      · have hfirst : first.due ≤ next.due := Nat.le_of_not_lt (mt Timer.before_of_due_lt hbefore)
        exact List.forall_mem_cons.mpr ⟨Nat.le_refl _, fun other hmem =>
          hfirst.trans (hrest other hmem)⟩

structure Fires (before : Clock) (limit : Duration) (timer : Timer) (after : Clock) : Prop where
  mem : timer ∈ before.timers
  due_le : timer.due ≤ limit
  first : ∀ other ∈ before.timers, timer.due ≤ other.due
  timers_eq : after.timers = reschedule before.timers timer.id
  now_eq : after.now = max before.now timer.due
  nextTimer_eq : after.nextTimer = before.nextTimer

theorem popDue?_fires {clock after : Clock} {limit : Duration} {id : TimerId}
    (h : clock.popDue? limit = some (id, after)) :
    ∃ timer, timer.id = id ∧ clock.Fires limit timer after := by
  obtain ⟨timer, hnext, heq⟩ := Option.map_eq_some_iff.mp h
  cases heq
  obtain ⟨hmem, hdue⟩ := List.mem_filter.mp (earliest?_mem hnext)
  have hlimit : timer.due ≤ limit := by simpa using hdue
  refine ⟨timer, rfl, hmem, hlimit, fun other hother => ?_, rfl, rfl, rfl⟩
  by_cases hlate : other.due ≤ limit
  · exact earliest?_le hnext other (List.mem_filter.mpr ⟨hother, by simpa using hlate⟩)
  · exact hlimit.trans (Nat.le_of_not_le hlate)

theorem lt_due_of_popDue?_eq_none {clock : Clock} {limit : Duration}
    (h : clock.popDue? limit = none) : ∀ timer ∈ clock.timers, limit < timer.due := by
  intro timer hmem
  have hnone := List.filter_eq_nil_iff.mp (earliest?_eq_none (Option.map_eq_none_iff.mp h)) timer hmem
  simpa using hnone

theorem reschedule_of_notMem {timers : List Timer} {id : TimerId} (h : id ∉ timers.map (·.id)) :
    reschedule timers id = timers := by
  induction timers with
  | nil => rfl
  | cons first rest ih =>
    obtain ⟨hfirst, hrest⟩ := not_or.mp (mt List.mem_cons.mpr h)
    rw [reschedule, List.map_cons, if_neg (Ne.symm hfirst)]
    exact congrArg (first :: ·) (ih hrest)

theorem mem_reschedule {timers : List Timer} {fired timer : Timer}
    (hdistinct : (timers.map (·.id)).Nodup) (hfired : fired ∈ timers)
    (h : timer ∈ reschedule timers fired.id) :
    timer = { fired with due := fired.due + fired.interval } ∨
      timer ∈ timers ∧ timer.id ≠ fired.id := by
  obtain ⟨earlier, hearlier, rfl⟩ := List.mem_map.mp h
  by_cases hid : earlier.id = fired.id
  · rw [List.inj_on_of_nodup_map hdistinct hearlier hfired hid, if_pos rfl]
    exact .inl rfl
  · rw [if_neg hid]
    exact .inr ⟨hearlier, hid⟩

theorem firings_reschedule {timers : List Timer} {timer : Timer} {limit : Duration}
    (hdistinct : (timers.map (·.id)).Nodup) (hmem : timer ∈ timers) (hdue : timer.due ≤ limit)
    (hpos : 0 < timer.interval) :
    firingsOf limit (reschedule timers timer.id) + 1 = firingsOf limit timers := by
  induction timers with
  | nil => cases hmem
  | cons first rest ih =>
    obtain ⟨hfirst, hrest⟩ := List.nodup_cons.mp hdistinct
    obtain rfl | hmem := List.mem_cons.mp hmem
    · have hothers := reschedule_of_notMem hfirst
      rw [reschedule, List.map_cons, if_pos rfl, ← reschedule, hothers, firingsOf, firingsOf,
        ← timer.firings_step hdue hpos, Nat.add_right_comm]
    · have hother : first.id ≠ timer.id := fun heq =>
        hfirst (List.mem_map.mpr ⟨timer, hmem, heq.symm⟩)
      rw [reschedule, List.map_cons, if_neg hother, ← reschedule, firingsOf, firingsOf,
        ← ih hrest hmem, Nat.add_assoc]

theorem lt_due_of_firingsOf_eq_zero {timers : List Timer} {limit : Duration}
    (h : firingsOf limit timers = 0) : ∀ timer ∈ timers, limit < timer.due := by
  induction timers with
  | nil => exact List.forall_mem_nil _
  | cons timer timers ih =>
    obtain ⟨hfirst, hrest⟩ := Nat.add_eq_zero_iff.mp h
    refine List.forall_mem_cons.mpr ⟨Nat.lt_of_not_le fun hdue => ?_, ih hrest⟩
    rw [Timer.firings, if_pos hdue] at hfirst
    cases hfirst

end Clock

namespace World

variable {A : Type} {world before middle after : World A} {id : TimerId} {instant : Duration}

/-- Between the two worlds no time passed, no timer was set or ended, and no callback of a service
ran. -/
structure Timeless (before after : World A) : Prop where
  now_eq : after.now = before.now
  timers_eq : after.clock.timers = before.clock.timers
  nextTimer_eq : after.clock.nextTimer = before.clock.nextTimer
  refreshes_eq : ∀ id, after.refreshes id = before.refreshes id

theorem Timeless.refl (world : World A) : world.Timeless world := ⟨rfl, rfl, rfl, fun _ => rfl⟩

theorem Timeless.trans (h : before.Timeless middle) (k : middle.Timeless after) :
    before.Timeless after :=
  ⟨k.now_eq.trans h.now_eq, k.timers_eq.trans h.timers_eq, k.nextTimer_eq.trans h.nextTimer_eq,
    fun id => (k.refreshes_eq id).trans (h.refreshes_eq id)⟩

theorem Writes.timeless (h : before.Writes after) : before.Timeless after :=
  ⟨congrArg Clock.now h.clock_eq, congrArg Clock.timers h.clock_eq,
    congrArg Clock.nextTimer h.clock_eq, h.refreshes_eq⟩

theorem timeless_record (world : World A) (event : Event) (h : ∀ id, event.refresh? id = none) :
    world.Timeless (world.record event) := by
  refine ⟨rfl, rfl, rfl, fun id => ?_⟩
  rw [refreshes_record, h, Option.toList_none, List.append_nil]

theorem timeless_withBoard (world : World A) (board : Board) : world.Timeless { world with board } :=
  ⟨rfl, rfl, rfl, fun _ => rfl⟩

theorem timeless_dismiss (world : World A) (id : ObserverId) : world.Timeless (world.dismiss id) := by
  unfold dismiss
  split
  · exact (timeless_withBoard world _).trans (timeless_record _ _ fun _ => rfl)
  · exact .refl world

theorem timeless_judge (world : World A) (guard : Guard) (id : ObserverId) :
    world.Timeless (world.judge guard id).2 :=
  (writes_evaluate world guard).timeless.trans (timeless_record _ _ fun _ => rfl)

theorem timeless_breaks (world : World A) (guard : Guard) (id : ObserverId) :
    world.Timeless (world.breaks guard id).2 := by
  have hevaluated := (writes_evaluate world guard).timeless
  unfold breaks
  dsimp only
  split
  · exact hevaluated
  · exact hevaluated.trans (timeless_record _ _ fun _ => rfl)

theorem timeless_observe (world : World A) (observer : Option ObserverId) (key : String) :
    world.Timeless (world.observe observer key).2 := by
  cases observer with
  | none => exact (timeless_withBoard world _).trans (timeless_withBoard _ _)
  | some id => exact timeless_withBoard world _

theorem timeless_stoppedHolding (world : World A) (guard : Guard) (observer : Option ObserverId) :
    world.Timeless (world.stoppedHolding guard observer).2 := by
  cases observer with
  | none => exact .refl world
  | some id =>
    unfold stoppedHolding
    dsimp only
    split
    · exact (timeless_withBoard world _).trans (timeless_breaks _ guard id)
    · exact .refl world

theorem timeless_startedHolding (world : World A) (guard : Guard) (observer : Option ObserverId) :
    world.Timeless (world.startedHolding guard observer).2 := by
  cases observer with
  | none => exact .refl world
  | some id =>
    unfold startedHolding
    dsimp only
    split
    · exact (timeless_withBoard world _).trans (timeless_judge _ guard id)
    · exact .refl world

theorem Acts.timeless (h : before.Acts after) : before.Timeless after := by
  cases h with
  | acted label => exact timeless_record _ _ fun _ => rfl
  | preempted winner loser preemption => exact timeless_record _ _ fun _ => rfl
  | mapAgent f => exact (writes_mapAgent _ f).timeless
  | overflow => exact ⟨rfl, rfl, rfl, fun _ => rfl⟩

/-- A property of worlds that changes neither while nothing happens to the timers, nor as services begin
and end. -/
structure Steady (P : World A → Prop) : Prop where
  timeless {before after : World A} : before.Timeless after → P before → P after
  begin (world : World A) (interval : Duration) (callback : Routine A) : P world →
    P ((world.refresh ⟨world.clock.nextTimer⟩ callback).addTimer interval).2
  cancel (world : World A) (id : TimerId) : P world → P (world.cancel id).2

variable {P : World A → Prop}

theorem Steady.step (hP : Steady P) {keeper next : Keeper}
    (h : Keeper.Step before after keeper next) (hbefore : P before) : P after := by
  cases h with
  | @begin _ _ guard observer id _ policy hobserve hjudge =>
    have hobserved := before.timeless_observe observer guard.key
    rw [hobserve] at hobserved
    have hjudged := hobserved.trans (timeless_judge _ guard id)
    rw [hjudge] at hjudged
    exact hP.timeless hjudged hbefore
  | @beginBare _ guard observer id policy hobserve =>
    have hobserved := before.timeless_observe observer guard.key
    rw [hobserve] at hobserved
    exact hP.timeless (hobserved.trans (timeless_record _ _ fun _ => rfl)) hbefore
  | @check _ guard policy observer broken _ hcheck =>
    have hchecked := before.timeless_stoppedHolding guard observer
    rw [hcheck] at hchecked
    exact hP.timeless hchecked hbefore
  | finish | serve => exact hbefore
  | stop guard policy status observer =>
    cases observer with
    | none => exact hbefore
    | some id => exact hP.timeless (timeless_dismiss before id) hbefore
  | unwatch guard policy observer =>
    cases observer with
    | none => exact hbefore
    | some id => exact hP.timeless (timeless_withBoard before _) hbefore
  | @ask _ guard observer holds policy hask =>
    have hasked := before.timeless_startedHolding guard observer
    rw [hask] at hasked
    exact hP.timeless hasked hbefore
  | schedule interval callback => exact hP.begin before interval callback hbefore
  | cancel interval status timer =>
    cases timer with
    | none => exact hbefore
    | some id => exact hP.cancel before id hbefore

theorem Steady.deals (hP : Steady P) {given taken : Multiset Keeper}
    (h : before.Deals after given taken) (hbefore : P before) : P after := by
  induction h with
  | refl => exact hbefore
  | trans _ _ ih ih' => exact ih' (ih hbefore)
  | frame _ _ ih => exact ih hbefore
  | step hstep => exact hP.step hstep hbefore
  | acts hacts => exact hP.timeless hacts.timeless hbefore

/-- The timer was set at the instant `begun`, and has fired `count` times since, always on time. Each
time, and when it was set, the callback ran. -/
structure Paced (world : World A) (timer : Timer) (begun : Duration) (count : Nat) : Prop where
  interval_pos : 0 < timer.interval
  due_eq : timer.due = begun + (count + 1) * timer.interval
  last_le : begun + count * timer.interval ≤ world.now
  refreshes_eq : world.refreshes timer.id =
    (List.range (count + 1)).map fun k => begun + k * timer.interval

/-- All timers have fired on time so far. -/
structure OnTime (world : World A) : Prop where
  paced : ∀ timer ∈ world.clock.timers, ∃ begun count, world.Paced timer begun count
  issued : ∀ timer ∈ world.clock.timers, timer.id.index < world.clock.nextTimer
  unborn : ∀ id : TimerId, world.clock.nextTimer ≤ id.index → world.refreshes id = []

/-- No timer is left behind: all are due in the future. -/
def Ahead (world : World A) : Prop := ∀ timer ∈ world.clock.timers, world.now < timer.due

theorem refreshes_refresh (world : World A) (callback : Routine A) (id other : TimerId) :
    (world.refresh id callback).refreshes other =
      world.refreshes other ++ if id = other then [world.now] else [] := by
  rw [refresh, (writes_run callback _).refreshes_eq, refreshes_record, Event.refresh?]
  split <;> rfl

theorem Paced.timeless {timer : Timer} {begun : Duration} {count : Nat}
    (h : world.Paced timer begun count) (hnow : world.now ≤ after.now)
    (hrefreshes : after.refreshes timer.id = world.refreshes timer.id) :
    after.Paced timer begun count :=
  ⟨h.interval_pos, h.due_eq, h.last_le.trans hnow, hrefreshes.trans h.refreshes_eq⟩

theorem Paced.refreshes_of_ahead {timer : Timer} {begun : Duration} {count : Nat}
    (h : world.Paced timer begun count) (hahead : world.now < timer.due) :
    world.refreshes timer.id = (List.range ((world.now - begun) / timer.interval + 1)).map
      fun k => begun + k * timer.interval := by
  have hcount : (world.now - begun) / timer.interval = count := by
    rw [h.due_eq] at hahead
    apply Nat.div_eq_of_lt_le
    · exact Nat.le_sub_of_add_le' h.last_le
    · exact Nat.sub_lt_left_of_lt_add (Nat.le_of_add_right_le h.last_le) hahead
  rw [hcount, h.refreshes_eq]

theorem steady_onTime : Steady fun world : World A => world.OnTime ∧ world.Ahead := by
  refine ⟨fun htimeless ⟨honTime, hahead⟩ => ?_, fun world interval callback ⟨honTime, hahead⟩ => ?_,
    fun world id ⟨honTime, hahead⟩ => ?_⟩
  · obtain ⟨hnow, htimers, hnext, hrefreshes⟩ := htimeless
    refine ⟨⟨fun timer hmem => ?_, ?_, ?_⟩, ?_⟩
    · rw [htimers] at hmem
      obtain ⟨begun, count, hpaced⟩ := honTime.paced timer hmem
      exact ⟨begun, count, hpaced.timeless (Nat.le_of_eq hnow.symm) (hrefreshes timer.id)⟩
    · rw [htimers, hnext]
      exact honTime.issued
    · intro id hid
      rw [hnext] at hid
      exact (hrefreshes id).trans (honTime.unborn id hid)
    · rw [Ahead, htimers, hnow]
      exact hahead
  · generalize hafter : ((world.refresh ⟨world.clock.nextTimer⟩ callback).addTimer interval).2 = after
    have htimers : after.clock.timers = world.clock.timers ++
        [⟨⟨world.clock.nextTimer⟩, world.now + max interval 1, max interval 1⟩] := by
      rw [← hafter, addTimer, Clock.addTimer, clock_refresh]
      rfl
    have hnow : after.now = world.now := by
      rw [← hafter, addTimer, Clock.addTimer, clock_refresh]
      rfl
    have hnext : after.clock.nextTimer = world.clock.nextTimer + 1 := by
      rw [← hafter, addTimer, Clock.addTimer, clock_refresh]
    have hrefreshes (id : TimerId) : after.refreshes id =
        world.refreshes id ++ if ⟨world.clock.nextTimer⟩ = id then [world.now] else [] := by
      rw [← hafter]
      exact refreshes_refresh world callback _ id
    have hpos : 0 < max interval 1 := Nat.lt_of_lt_of_le Nat.one_pos (Nat.le_max_right _ _)
    refine ⟨⟨?_, ?_, ?_⟩, ?_⟩
    · intro timer hmem
      rw [htimers] at hmem
      obtain hmem | hmem := List.mem_append.mp hmem
      · obtain ⟨begun, count, hpaced⟩ := honTime.paced timer hmem
        have hother : ⟨world.clock.nextTimer⟩ ≠ timer.id := fun heq =>
          absurd (honTime.issued timer hmem) (by rw [← heq]; exact Nat.lt_irrefl _)
        refine ⟨begun, count, hpaced.timeless (Nat.le_of_eq hnow.symm) ?_⟩
        rw [hrefreshes, if_neg hother, List.append_nil]
      · rw [List.mem_singleton.mp hmem]
        refine ⟨world.now, 0, hpos, by simp, by simp [hnow], ?_⟩
        rw [hrefreshes, if_pos rfl, honTime.unborn _ (Nat.le_refl _)]
        simp
    · intro timer hmem
      rw [htimers] at hmem
      rw [hnext]
      obtain hmem | hmem := List.mem_append.mp hmem
      · exact Nat.lt_succ_of_lt (honTime.issued timer hmem)
      · rw [List.mem_singleton.mp hmem]
        exact Nat.lt_succ_self _
    · intro id hid
      rw [hnext] at hid
      have hother : ⟨world.clock.nextTimer⟩ ≠ id := by
        rintro rfl
        exact Nat.lt_irrefl _ hid
      rw [hrefreshes, if_neg hother, List.append_nil]
      exact honTime.unborn id (Nat.le_of_succ_le hid)
    · intro timer hmem
      rw [htimers] at hmem
      rw [hnow]
      obtain hmem | hmem := List.mem_append.mp hmem
      · exact hahead timer hmem
      · rw [List.mem_singleton.mp hmem]
        exact Nat.lt_add_of_pos_right hpos
  · have hsub : ∀ timer ∈ (world.cancel id).2.clock.timers, timer ∈ world.clock.timers :=
      fun timer hmem => (List.mem_filter.mp hmem).1
    refine ⟨⟨fun timer hmem => ?_, fun timer hmem => honTime.issued timer (hsub timer hmem),
      honTime.unborn⟩, fun timer hmem => hahead timer (hsub timer hmem)⟩
    obtain ⟨begun, count, hpaced⟩ := honTime.paced timer (hsub timer hmem)
    exact ⟨begun, count, hpaced.timeless (Nat.le_refl _) rfl⟩

theorem OnTime.fired {limit : Duration} {fired : Timer} {clock : Clock} (h : world.OnTime)
    (hbehind : ∀ timer ∈ world.clock.timers, world.now ≤ timer.due)
    (hdistinct : (world.clock.timers.map (·.id)).Nodup) (hpop : world.clock.Fires limit fired clock)
    (callback : Routine A) :
    (World.refresh { world with clock } fired.id callback).OnTime ∧
      ∀ timer ∈ clock.timers, clock.now ≤ timer.due := by
  generalize hafter : World.refresh { world with clock } fired.id callback = after
  have hclock : after.clock = clock := by
    rw [← hafter, clock_refresh]
  have hnow : after.now = fired.due := by
    rw [World.now, hclock, hpop.now_eq]
    exact Nat.max_eq_right (hbehind fired hpop.mem)
  have hrefreshes (id : TimerId) : after.refreshes id =
      world.refreshes id ++ if fired.id = id then [fired.due] else [] := by
    have hrefreshed := refreshes_refresh { world with clock } callback fired.id id
    rw [hafter] at hrefreshed
    rw [hrefreshed, ← hnow, World.now, World.now, hclock]
    rfl
  have hcases : ∀ timer ∈ clock.timers,
      timer = { fired with due := fired.due + fired.interval } ∨
        timer ∈ world.clock.timers ∧ timer.id ≠ fired.id := fun timer hmem =>
    Clock.mem_reschedule hdistinct hpop.mem (hpop.timers_eq ▸ hmem)
  refine ⟨⟨?_, ?_, ?_⟩, ?_⟩
  · intro timer hmem
    rw [hclock] at hmem
    obtain rfl | ⟨hmem, hother⟩ := hcases timer hmem
    · obtain ⟨begun, count, hpaced⟩ := h.paced fired hpop.mem
      refine ⟨begun, count + 1, hpaced.interval_pos, ?_, ?_, ?_⟩
      · rw [hpaced.due_eq, Nat.succ_mul (count + 1), Nat.add_assoc]
      · rw [hnow]
        exact Nat.le_of_eq hpaced.due_eq.symm
      · rw [hrefreshes, if_pos rfl, hpaced.refreshes_eq, List.range_succ (n := count + 1),
          List.map_append, hpaced.due_eq]
        rfl
    · obtain ⟨begun, count, hpaced⟩ := h.paced timer hmem
      refine ⟨begun, count, hpaced.timeless ?_ ?_⟩
      · rw [hnow]
        exact hbehind fired hpop.mem
      · rw [hrefreshes, if_neg (Ne.symm hother), List.append_nil]
  · intro timer hmem
    rw [hclock] at hmem ⊢
    rw [hpop.nextTimer_eq]
    obtain rfl | ⟨hmem, -⟩ := hcases timer hmem
    · exact h.issued fired hpop.mem
    · exact h.issued timer hmem
  · intro id hid
    rw [hclock, hpop.nextTimer_eq] at hid
    have hother : fired.id ≠ id := by
      rintro rfl
      exact absurd (h.issued fired hpop.mem) (Nat.not_lt_of_le hid)
    rw [hrefreshes, if_neg hother, List.append_nil]
    exact h.unborn id hid
  · intro timer hmem
    rw [← hclock, ← World.now, hnow]
    obtain rfl | ⟨hmem, -⟩ := hcases timer hmem
    · exact Nat.le_add_right _ _
    · exact hpop.first timer hmem

variable {node : Subtree A} {others : Multiset Handle}

/-- What firing keeps: all is held and on time, and no timer was due before now. -/
structure Timely (world : World A) (node : Subtree A) (others : Multiset Handle) : Prop where
  holds : world.Holds (node.handles + others)
  onTime : world.OnTime
  behind : ∀ timer ∈ world.clock.timers, world.now ≤ timer.due

/-- A timer that fires has one firing less to come. Its service does nothing to the clock. -/
theorem Timely.fired (h : world.Timely node others) (hfit : node.Fit)
    (hothers : ∀ id, Handle.timer id ∉ others) {limit : Duration} {id : TimerId} {clock : Clock}
    (hpop : world.clock.popDue? limit = some (id, clock)) :
    (World.dispatch node.fire id { world with clock }).Timely node others ∧
      (World.dispatch node.fire id { world with clock }).clock = clock ∧
      clock.firings limit + 1 = world.clock.firings limit := by
  obtain ⟨callback, hdispatch⟩ := h.holds.dispatch_eq hfit hothers hpop
  obtain ⟨fired, rfl, hfires⟩ := Clock.popDue?_fires hpop
  obtain ⟨hfired, hnext⟩ := h.onTime.fired h.behind h.holds.distinct hfires callback
  have hclock : (World.refresh { world with clock } fired.id callback).clock = clock :=
    clock_refresh _ _ _
  have hhold := (trades_refresh _ fired.id callback).holds others
    (h.holds.popped (Clock.popped hpop))
  obtain ⟨_, _, hpaced⟩ := h.onTime.paced fired hfires.mem
  rw [hdispatch]
  refine ⟨⟨hhold, hfired, ?_⟩, hclock, ?_⟩
  · rw [World.now, hclock]
    exact hnext
  · rw [Clock.firings, hfires.timers_eq]
    exact Clock.firings_reschedule h.holds.distinct hfires.mem hfires.due_le hpaced.interval_pos

/-- With as many firings as fall due by `limit`, no timer is left that is due by then. -/
theorem Timely.fireDue (h : world.Timely node others) (hfit : node.Fit)
    (hothers : ∀ id, Handle.timer id ∉ others) {limit : Duration} (hlimit : world.now ≤ limit)
    (fuel : Nat) (hfuel : world.clock.firings limit ≤ fuel)
    (hover : (World.fireDue node.fire limit fuel world).clock.overflowed = false) :
    (World.fireDue node.fire limit fuel world).OnTime ∧
      (World.fireDue node.fire limit fuel world).now ≤ limit ∧
      (World.fireDue node.fire limit fuel world).clock.nextTimer = world.clock.nextTimer ∧
      ∀ timer ∈ (World.fireDue node.fire limit fuel world).clock.timers, limit < timer.due := by
  induction fuel generalizing world with
  | zero =>
    have hnone := Clock.lt_due_of_firingsOf_eq_zero (Nat.eq_zero_of_le_zero hfuel)
    exact ⟨h.onTime, hlimit, rfl, hnone⟩
  | succ fuel ih =>
    rw [World.fireDue] at hover ⊢
    cases hpop : world.clock.popDue? limit with
    | none => exact ⟨h.onTime, hlimit, rfl, Clock.lt_due_of_popDue?_eq_none hpop⟩
    | some popped =>
      obtain ⟨id, clock⟩ := popped
      obtain ⟨htimely, hclock, hleft⟩ := h.fired hfit hothers hpop
      obtain ⟨fired, -, hfires⟩ := Clock.popDue?_fires hpop
      have hnow : clock.now ≤ limit := by
        rw [hfires.now_eq]
        exact Nat.max_le.mpr ⟨hlimit, hfires.due_le⟩
      rw [hpop] at hover
      dsimp only at hover ⊢
      split at hover
      · rename_i hpast
        exact absurd (hpast.symm.trans hover) (by simp)
      · rename_i hfine
        rw [if_neg hfine]
        generalize World.dispatch node.fire id { world with clock } = next at htimely hclock hover ⊢
        subst hclock
        rw [← hfires.nextTimer_eq]
        exact ih htimely hnow (by omega) hover

theorem Holds.advance_onTime (h : world.Holds (node.handles + others)) (hfit : node.Fit)
    (hothers : ∀ id, Handle.timer id ∉ others) (honTime : world.OnTime) (hahead : world.Ahead)
    (dt : Duration) (hover : (world.advance node.fire dt).clock.overflowed = false) :
    (world.advance node.fire dt).OnTime ∧ (world.advance node.fire dt).Ahead ∧
      (world.advance node.fire dt).clock.nextTimer = world.clock.nextTimer := by
  unfold World.advance at hover ⊢
  dsimp only at hover ⊢
  split at hover
  · cases hover
  · rename_i hlimit
    rw [if_neg hlimit]
    have htimely : world.Timely node others :=
      ⟨h, honTime, fun timer hmem => Nat.le_of_lt (hahead timer hmem)⟩
    obtain ⟨hfired, hnow, hnext, hleft⟩ := htimely.fireDue hfit hothers
      (Nat.le_add_right world.now dt) (world.clock.firings (world.now + dt)) (Nat.le_refl _) hover
    generalize World.fireDue node.fire (world.now + dt) (world.clock.firings (world.now + dt))
      world = fired at hfired hnow hnext hleft ⊢
    refine ⟨⟨fun timer hmem => ?_, hfired.issued, hfired.unborn⟩, fun timer hmem => ?_, hnext⟩
    · obtain ⟨begun, count, hpaced⟩ := hfired.paced timer hmem
      exact ⟨begun, count, hpaced.timeless (Nat.le_max_left _ _) rfl⟩
    · exact Nat.max_lt.mpr ⟨Nat.lt_of_le_of_lt hnow (hleft timer hmem), hleft timer hmem⟩

theorem Logs.refreshes (h : before.Logs after) (id : TimerId) :
    before.refreshes id <+: after.refreshes id := by
  obtain ⟨entries, hjournal, -⟩ := h
  refine ⟨(entries.filterMap (Event.refresh? id)).reverse, ?_⟩
  rw [World.refreshes, World.refreshes, hjournal, List.filterMap_append, List.reverse_append]

/-- The callback of a service that is not yet known runs at one instant only, while no time passes. -/
theorem steady_begun (id : TimerId) (instant : Duration) :
    Steady fun world : World A => world.now = instant ∧ ∀ run ∈ world.refreshes id, run = instant := by
  refine ⟨fun htimeless h => ?_, fun world interval callback h => ?_, fun world _ h => h⟩
  · rw [htimeless.now_eq, htimeless.refreshes_eq]
    exact h
  · have hnow : ((world.refresh ⟨world.clock.nextTimer⟩ callback).addTimer interval).2.now = world.now := by
      rw [addTimer, Clock.addTimer, clock_refresh]
      rfl
    have hrefreshes : ((world.refresh ⟨world.clock.nextTimer⟩ callback).addTimer interval).2.refreshes id =
        world.refreshes id ++ if ⟨world.clock.nextTimer⟩ = id then [world.now] else [] :=
      refreshes_refresh world callback _ id
    rw [hnow, hrefreshes]
    refine ⟨h.1, fun run hmem => ?_⟩
    obtain hmem | hmem := List.mem_append.mp hmem
    · exact h.2 run hmem
    · split at hmem
      · exact (List.mem_singleton.mp hmem).trans h.1
      · cases hmem

theorem steady_refreshes (runs : List Duration) (id : TimerId) :
    Steady fun world : World A => runs <+: world.refreshes id := by
  refine ⟨fun htimeless h => ?_, fun world interval callback h => ?_, fun world _ h => h⟩
  · rw [htimeless.refreshes_eq]
    exact h
  · have hrefreshes : ((world.refresh ⟨world.clock.nextTimer⟩ callback).addTimer interval).2.refreshes id =
        world.refreshes id ++ if ⟨world.clock.nextTimer⟩ = id then [world.now] else [] :=
      refreshes_refresh world callback _ id
    rw [hrefreshes]
    exact h.trans (List.prefix_append _ _)

end World

end BehaviorTree
