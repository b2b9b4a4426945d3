import BehaviorTree.Proofs.Equivalence.LinkedTimers
import BehaviorTree.Proofs.Time.Overflow

/-!
A clock that pops what is due by a limit merges the rows of instants at which its timers fall due. One
pop takes the first firing that is still to come, and leaves all others: `Clock.Ready.popped`.
-/

namespace BehaviorTree

/-- A timer that fires at an instant. -/
structure Firing where
  instant : Duration
  timer : TimerId
  deriving Repr, DecidableEq

namespace Firing

variable {a b : Firing}

/-- The order of instants, and at one instant that of age. -/
def Before (a b : Firing) : Prop :=
  a.instant < b.instant ∨ a.instant = b.instant ∧ a.timer.index < b.timer.index

instance (a b : Firing) : Decidable (a.Before b) :=
  inferInstanceAs (Decidable (a.instant < b.instant ∨
    a.instant = b.instant ∧ a.timer.index < b.timer.index))

theorem Before.asymm (h : a.Before b) : ¬b.Before a := by
  rintro (hlt | ⟨heq, hlt⟩)
  · exact h.elim (Nat.lt_asymm hlt) fun h => Nat.ne_of_gt hlt h.1
  · exact h.elim (Nat.ne_of_gt · heq) fun h => Nat.lt_asymm hlt h.2

theorem Before.of_le (h : a.instant ≤ b.instant) (hage : a.timer.index < b.timer.index) :
    a.Before b :=
  (Nat.lt_or_eq_of_le h).imp_right fun heq => ⟨heq, hage⟩

theorem sublist_of_before {fired : List Firing} (hsorted : fired.Pairwise Before) (ha : a ∈ fired)
    (hb : b ∈ fired) (h : a.Before b) : [a, b].Sublist fired := by
  obtain ⟨earlier, later, rfl⟩ := List.append_of_mem hb
  have hrest : ∀ firing ∈ later, b.Before firing :=
    (List.pairwise_cons.mp (List.pairwise_append.mp hsorted).2.1).1
  obtain ha | ha := List.mem_append.mp ha
  · exact (List.singleton_sublist.mpr ha).append ((List.nil_sublist later).cons_cons b)
  · obtain rfl | ha := List.mem_cons.mp ha
    · exact absurd h h.asymm
    · exact absurd (hrest a ha) h.asymm

end Firing

namespace Timer

variable {timer other : Timer} {firing : Firing} {limit : Duration}

/-- The firing is one of those that the timer has before it. -/
def Schedules (timer : Timer) (firing : Firing) : Prop :=
  firing.timer = timer.id ∧ ∃ k, firing.instant = timer.due + k * timer.interval

theorem Schedules.due_le (h : timer.Schedules firing) : timer.due ≤ firing.instant := by
  obtain ⟨-, k, hinstant⟩ := h
  exact hinstant ▸ Nat.le_add_right _ _

theorem schedules_iff : timer.Schedules firing ↔ firing = ⟨timer.due, timer.id⟩ ∨
    { timer with due := timer.due + timer.interval }.Schedules firing := by
  obtain ⟨instant, id⟩ := firing
  constructor
  · rintro ⟨rfl, k, rfl⟩
    cases k with
    | zero => exact .inl (by rw [Nat.zero_mul, Nat.add_zero])
    | succ k => exact .inr ⟨rfl, k, by rw [Nat.succ_mul, Nat.add_assoc, Nat.add_comm timer.interval]⟩
  · rintro (heq | ⟨rfl, k, rfl⟩)
    · cases heq
      exact ⟨rfl, 0, by rw [Nat.zero_mul, Nat.add_zero]⟩
    · exact ⟨rfl, k + 1, by rw [Nat.succ_mul, Nat.add_assoc, Nat.add_comm timer.interval]⟩

theorem before_of_schedules (h : timer.before other = true) (hfiring : other.Schedules firing) :
    Firing.Before ⟨timer.due, timer.id⟩ firing := by
  have hdue := hfiring.due_le
  obtain hlt | ⟨heq, hage⟩ := before_iff.mp h
  · exact .inl (Nat.lt_of_lt_of_le hlt hdue)
  · exact .of_le (heq.trans_le hdue) (hfiring.1 ▸ hage)

theorem before_of_schedules_next (hpos : 0 < timer.interval)
    (hfiring : { timer with due := timer.due + timer.interval }.Schedules firing) :
    Firing.Before ⟨timer.due, timer.id⟩ firing :=
  .inl (Nat.lt_of_lt_of_le (Nat.lt_add_of_pos_right hpos) hfiring.due_le)

end Timer

namespace Clock

variable {clock after : Clock} {firing : Firing} {fired : List Firing} {id : TimerId}
variable {timer : Timer} {limit : Duration}

def Schedules (clock : Clock) (firing : Firing) : Prop :=
  ∃ timer ∈ clock.timers, timer.Schedules firing

/-- No two timers have one name, none fires twice at one instant, and none is overdue. -/
structure Ready (clock : Clock) : Prop where
  distinct : (clock.timers.map (·.id)).Nodup
  intervals_pos : ∀ timer ∈ clock.timers, 0 < timer.interval
  ahead : ∀ timer ∈ clock.timers, clock.now ≤ timer.due

theorem schedules_reschedule (hdistinct : (clock.timers.map (·.id)).Nodup)
    (hmem : timer ∈ clock.timers) (hafter : after.timers = reschedule clock.timers timer.id) :
    clock.Schedules firing ↔ firing = ⟨timer.due, timer.id⟩ ∨ after.Schedules firing := by
  have hmoved := mem_reschedule_of hmem timer.id
  rw [if_pos rfl] at hmoved
  rw [Schedules, Schedules, hafter]
  constructor
  · rintro ⟨other, hother, hfiring⟩
    by_cases hid : other.id = timer.id
    · obtain rfl := List.inj_on_of_nodup_map hdistinct hother hmem hid
      exact (Timer.schedules_iff.mp hfiring).imp_right fun hnext => ⟨_, hmoved, hnext⟩
    · have hstays := mem_reschedule_of hother timer.id
      rw [if_neg hid] at hstays
      exact .inr ⟨other, hstays, hfiring⟩
  · rintro (rfl | ⟨other, hother, hfiring⟩)
    · exact ⟨timer, hmem, Timer.schedules_iff.mpr (.inl rfl)⟩
    · obtain rfl | ⟨hother, -⟩ := mem_reschedule hdistinct hmem hother
      · exact ⟨timer, hmem, Timer.schedules_iff.mpr (.inr hfiring)⟩
      · exact ⟨other, hother, hfiring⟩

/-- A pop takes the first firing that is to come, at its instant, and leaves the others. -/
theorem Ready.popped (h : clock.Ready) (hpop : clock.popDue? limit = some (id, after)) :
    after.Ready ∧ after.now ≤ limit ∧
      (∀ firing, clock.Schedules firing ↔ firing = ⟨after.now, id⟩ ∨ after.Schedules firing) ∧
      ∀ firing, after.Schedules firing → Firing.Before ⟨after.now, id⟩ firing := by
  obtain ⟨timer, hmem, rfl, hdue, htimers, hnow, hfirst⟩ := popDue?_first h.distinct hpop
  have hpos := h.intervals_pos timer hmem
  rw [max_eq_right (h.ahead timer hmem)] at hnow
  have hmoved : ∀ other ∈ after.timers, other = { timer with due := timer.due + timer.interval } ∨
      other ∈ clock.timers ∧ other ≠ timer := fun other hother => by
    rw [htimers] at hother
    exact (mem_reschedule h.distinct hmem hother).imp_right fun hold =>
      ⟨hold.1, fun heq => hold.2 (congrArg Timer.id heq)⟩
  refine ⟨⟨?_, fun other hother => ?_, fun other hother => ?_⟩, hnow ▸ hdue, fun firing => ?_,
    fun firing hfiring => ?_⟩
  · rw [htimers, map_id_reschedule]
    exact h.distinct
  · obtain rfl | ⟨hold, -⟩ := hmoved other hother
    · exact hpos
    · exact h.intervals_pos other hold
  · rw [hnow]
    obtain rfl | ⟨hold, hne⟩ := hmoved other hother
    · exact Nat.le_add_right _ _
    · exact Timer.due_le_of_before (hfirst other hold hne)
  · rw [hnow]
    exact schedules_reschedule h.distinct hmem htimers
  · rw [hnow]
    obtain ⟨other, hother, hfiring⟩ := hfiring
    obtain rfl | ⟨hold, hne⟩ := hmoved other hother
    · exact Timer.before_of_schedules_next hpos hfiring
    · exact Timer.before_of_schedules (hfirst other hold hne) hfiring

/-- Popping what is due by `limit` leads from the one clock to the other. On the way these timers fired,
each at the instant to which its pop moved the clock. -/
inductive Pops (limit : Duration) : Clock → List Firing → Clock → Prop where
  | nil {clock : Clock} : Pops limit clock [] clock
  | cons {clock next after : Clock} {id : TimerId} {fired : List Firing} :
    clock.popDue? limit = some (id, next) → next.overflowed = false → Pops limit next fired after →
    Pops limit clock (⟨next.now, id⟩ :: fired) after

/-- A row of pops takes the first of the firings that are to come, each once and one after the other, and
leaves the rest. -/
theorem Pops.merges (h : Pops limit clock fired after) (hready : clock.Ready) :
    after.Ready ∧ fired.Pairwise Firing.Before ∧
      (∀ firing, clock.Schedules firing ↔ firing ∈ fired ∨ after.Schedules firing) ∧
      ∀ firing ∈ fired, firing.instant ≤ limit ∧ ∀ later, after.Schedules later → firing.Before later := by
  induction h with
  | nil => exact ⟨hready, .nil, fun _ => by simp, nofun⟩
  | @cons clock next after id fired hpop _ _ ih =>
    obtain ⟨hnext, hlimit, hstep, hfirst⟩ := hready.popped hpop
    obtain ⟨hafter, hsorted, hrest, hlater⟩ := ih hnext
    have hhead : ∀ firing, firing ∈ fired ∨ after.Schedules firing →
        Firing.Before ⟨next.now, id⟩ firing := fun firing hmem =>
      hfirst firing ((hrest firing).mpr hmem)
    refine ⟨hafter, List.pairwise_cons.mpr ⟨fun firing hmem => hhead firing (.inl hmem), hsorted⟩,
      fun firing => ?_, List.forall_mem_cons.mpr ⟨⟨hlimit, fun later hmem => hhead later (.inr hmem)⟩,
      hlater⟩⟩
    rw [hstep, hrest, List.mem_cons, or_assoc]

theorem Pops.mem_of_before (h : Pops limit clock fired after) (hready : clock.Ready)
    {earlier : Firing} (hmem : firing ∈ fired) (hscheduled : clock.Schedules earlier)
    (hbefore : earlier.Before firing) : earlier ∈ fired := by
  obtain ⟨-, -, hmerged, hfired⟩ := h.merges hready
  refine ((hmerged earlier).mp hscheduled).resolve_right fun hlater => ?_
  exact hbefore.asymm ((hfired firing hmem).2 earlier hlater)

theorem Pops.now_le (h : Pops limit clock fired after) (hready : clock.Ready)
    (hlimit : clock.now ≤ limit) : after.now ≤ limit := by
  induction h with
  | nil => exact hlimit
  | cons hpop _ _ ih =>
    obtain ⟨hnext, hnow, -⟩ := hready.popped hpop
    exact ih hnext hnow

theorem Pops.mem_iff (h : Pops limit clock fired after) (hready : clock.Ready)
    (hdone : after.popDue? limit = none) (firing : Firing) :
    firing ∈ fired ↔ firing.instant ≤ limit ∧ clock.Schedules firing := by
  obtain ⟨-, -, hmerged, hfired⟩ := h.merges hready
  constructor
  · intro hmem
    exact ⟨(hfired firing hmem).1, (hmerged firing).mpr (.inl hmem)⟩
  · rintro ⟨hlimit, hscheduled⟩
    refine ((hmerged firing).mp hscheduled).resolve_right ?_
    rintro ⟨timer, hmem, hfiring⟩
    have hdue := lt_due_of_popDue?_eq_none hdone timer hmem
    exact absurd (hfiring.due_le.trans hlimit) (Nat.not_le.mpr hdue)

theorem map_dueAfter_reschedule (hdistinct : (clock.timers.map (·.id)).Nodup)
    (hmem : timer ∈ clock.timers) (hdue : timer.due ≤ limit) (hpos : 0 < timer.interval) :
    (reschedule clock.timers timer.id).map (fun timer => { timer with due := timer.dueAfter limit }) =
      clock.timers.map fun timer => { timer with due := timer.dueAfter limit } := by
  rw [reschedule, List.map_map]
  refine List.map_congr_left fun other hother => ?_
  by_cases hid : other.id = timer.id
  · obtain rfl := List.inj_on_of_nodup_map hdistinct hother hmem hid
    rw [Function.comp_apply, if_pos rfl, Timer.dueAfter_step hdue hpos]
  · rw [Function.comp_apply, if_neg hid]

theorem Pops.timers_eq (h : Pops limit clock fired after) (hready : clock.Ready)
    (hdone : after.popDue? limit = none) :
    after.timers = clock.timers.map fun timer => { timer with due := timer.dueAfter limit } := by
  induction h with
  | @nil clock =>
    have hstays : ∀ timer ∈ clock.timers, { timer with due := timer.dueAfter limit } = timer :=
      fun timer hmem => by
        rw [Timer.dueAfter_of_lt (lt_due_of_popDue?_eq_none hdone timer hmem)]
    rw [List.map_congr_left hstays, List.map_id']
  | cons hpop _ _ ih =>
    obtain ⟨hnext, -⟩ := hready.popped hpop
    obtain ⟨timer, hmem, rfl, hdue, htimers, -, -⟩ := popDue?_first hready.distinct hpop
    rw [ih hnext hdone, htimers,
      map_dueAfter_reschedule hready.distinct hmem hdue (hready.intervals_pos timer hmem)]

theorem Ready.exists_pops (h : clock.Ready) (hfine : clock.overflowed = false)
    (hroom : ¬clock.Overruns limit) :
    ∃ fired after, Pops limit clock fired after ∧ after.popDue? limit = none := by
  induction hfuel : clock.firings limit generalizing clock with
  | zero => exact ⟨[], clock, .nil, popDue?_eq_none (lt_due_of_firingsOf_eq_zero hfuel)⟩
  | succ fuel ih =>
    cases hpop : clock.popDue? limit with
    | none => exact ⟨[], clock, .nil, hpop⟩
    | some popped =>
      obtain ⟨id, next⟩ := popped
      obtain ⟨timer, rfl, hfires⟩ := popDue?_fires hpop
      have hpos := h.intervals_pos timer hfires.mem
      have hnear : timer.due + timer.interval ≤ Duration.longest := Nat.le_of_not_lt fun hfar =>
        hroom ⟨timer, hfires.mem, hfires.due_le,
          Nat.lt_of_lt_of_le hfar (Timer.next_le_dueAfter hfires.due_le)⟩
      have hnext : next.overflowed = false := by
        rw [overflowed_popDue? h.distinct hpop hfires.mem, hfine, Bool.false_or,
          decide_eq_false (Nat.not_lt.mpr hnear)]
      have hleft : next.firings limit = fuel := by
        have hstep := firings_reschedule h.distinct hfires.mem hfires.due_le hpos
        rw [← hfires.timers_eq] at hstep
        exact Nat.succ.inj (hstep.trans hfuel)
      obtain ⟨fired, after, hpops, hdone⟩ := ih (h.popped hpop).1 hnext
        (mt (hfires.overruns_iff h.distinct hpos hnear).mp hroom) hleft
      exact ⟨_, after, .cons hpop hnext hpops, hdone⟩

/-- The operations of a clock lead there from a new one. -/
inductive Reachable : Clock → Prop where
  | new : Reachable {}
  | addTimer {clock : Clock} (interval : Duration) : Reachable clock →
    Reachable (clock.addTimer interval).2
  | cancel {clock : Clock} (id : TimerId) : Reachable clock → Reachable (clock.cancel id).2
  | popDue {clock after : Clock} {limit : Duration} {id : TimerId} : Reachable clock →
    clock.popDue? limit = some (id, after) → Reachable after
  | clearTimers {clock : Clock} : Reachable clock → Reachable clock.clearTimers
  | moveTo {clock : Clock} (instant : Duration) : Reachable clock → Reachable (clock.moveTo instant)

structure Sound (clock : Clock) : Prop where
  distinct : (clock.timers.map (·.id)).Nodup
  issued : ∀ timer ∈ clock.timers, timer.id.index < clock.nextTimer
  intervals_pos : ∀ timer ∈ clock.timers, 0 < timer.interval

theorem Sound.addTimer (h : clock.Sound) (interval : Duration) :
    (clock.addTimer interval).2.Sound := by
  rw [Clock.addTimer]
  refine ⟨?_, fun timer hmem => ?_, fun timer hmem => ?_⟩
  · rw [List.map_append, List.map_singleton, List.nodup_append]
    refine ⟨h.distinct, List.nodup_singleton _, fun id hid other hother => ?_⟩
    obtain ⟨timer, hmem, rfl⟩ := List.mem_map.mp hid
    obtain rfl := List.mem_singleton.mp hother
    exact fun heq => Nat.ne_of_lt (h.issued timer hmem) (congrArg TimerId.index heq)
  · obtain hmem | hmem := List.mem_append.mp hmem
    · exact Nat.lt_succ_of_lt (h.issued timer hmem)
    · obtain rfl := List.mem_singleton.mp hmem
      exact Nat.lt_succ_self _
  · obtain hmem | hmem := List.mem_append.mp hmem
    · exact h.intervals_pos timer hmem
    · obtain rfl := List.mem_singleton.mp hmem
      exact Nat.lt_of_lt_of_le Nat.one_pos (le_max_right interval 1)

theorem Sound.popDue (h : clock.Sound) (hpop : clock.popDue? limit = some (id, after)) :
    after.Sound := by
  obtain ⟨timer, rfl, hfires⟩ := popDue?_fires hpop
  have hold : ∀ other ∈ after.timers, ∃ earlier ∈ clock.timers,
      other.id = earlier.id ∧ other.interval = earlier.interval := fun other hother => by
    rw [hfires.timers_eq] at hother
    obtain rfl | ⟨hother, -⟩ := mem_reschedule h.distinct hfires.mem hother
    · exact ⟨timer, hfires.mem, rfl, rfl⟩
    · exact ⟨other, hother, rfl, rfl⟩
  refine ⟨?_, fun other hother => ?_, fun other hother => ?_⟩
  · rw [hfires.timers_eq, map_id_reschedule]
    exact h.distinct
  · obtain ⟨earlier, hmem, hid, -⟩ := hold other hother
    rw [hid, hfires.nextTimer_eq]
    exact h.issued earlier hmem
  · obtain ⟨earlier, hmem, -, hinterval⟩ := hold other hother
    rw [hinterval]
    exact h.intervals_pos earlier hmem

theorem Reachable.sound (h : clock.Reachable) : clock.Sound := by
  induction h with
  | new => exact ⟨.nil, nofun, nofun⟩
  | addTimer interval _ ih => exact ih.addTimer interval
  | cancel id _ ih =>
    exact ⟨ih.distinct.sublist (List.filter_sublist.map _),
      fun timer hmem => ih.issued timer (List.mem_filter.mp hmem).1,
      fun timer hmem => ih.intervals_pos timer (List.mem_filter.mp hmem).1⟩
  | popDue _ hpop ih => exact ih.popDue hpop
  | clearTimers _ _ => exact ⟨.nil, nofun, nofun⟩
  | moveTo _ _ ih => exact ⟨ih.distinct, ih.issued, ih.intervals_pos⟩

/-- Timers that are all due in the future are popped up to some limit. Unless a due time overflows, this
comes to an end. In the end all timers fired just when they fall due up to the limit, each time once, in
the order of time and at one instant in that of age. Each pop moved the clock to the instant of its firing,
and the clock can be moved on to the limit. All timers are due after it then, each a whole number of its
intervals later than before. -/
theorem Reachable.firing_order (h : clock.Reachable) (hfine : clock.overflowed = false)
    (hahead : ∀ timer ∈ clock.timers, clock.now < timer.due) (hlimit : clock.now ≤ limit)
    (hroom : ¬clock.Overruns limit) :
    (∃ fired after, Pops limit clock fired after ∧ after.popDue? limit = none) ∧
    ∀ fired after, Pops limit clock fired after → after.popDue? limit = none →
      fired.Pairwise Firing.Before ∧
      (∀ firing, firing ∈ fired ↔ firing.instant ≤ limit ∧ ∃ timer ∈ clock.timers,
        firing.timer = timer.id ∧ ∃ k, firing.instant = timer.due + k * timer.interval) ∧
      (after.moveTo limit).now = limit ∧
      (∀ timer ∈ (after.moveTo limit).timers, limit < timer.due) ∧
      (after.moveTo limit).timers = clock.timers.map fun timer =>
        { timer with due := timer.due + timer.firings limit * timer.interval } := by
  have hsound := h.sound
  have hready : clock.Ready :=
    ⟨hsound.distinct, hsound.intervals_pos, fun timer hmem => Nat.le_of_lt (hahead timer hmem)⟩
  refine ⟨hready.exists_pops hfine hroom, fun fired after hpops hdone => ?_⟩
  have hsorted := (hpops.merges hready).2.1
  have hnow : max after.now limit = limit := max_eq_right (hpops.now_le hready hlimit)
  have hlater : ∀ timer ∈ after.timers, limit < timer.due := lt_due_of_popDue?_eq_none hdone
  exact ⟨hsorted, hpops.mem_iff hready hdone, hnow, hlater, hpops.timers_eq hready hdone⟩

/-- A slow timer and a fast one. Where both fall due, the slow one fires first, which is older. -/
theorem slow_and_fast_fire :
    let clock := ((({} : Clock).addTimer 300).2.addTimer 150).2
    let fired : List Firing := [⟨150, ⟨1⟩⟩, ⟨300, ⟨0⟩⟩, ⟨300, ⟨1⟩⟩]
    ∃ after, Pops 400 clock fired after ∧ fired.Pairwise Firing.Before ∧
      (⟨300, ⟨0⟩⟩ ∈ fired ↔ (300 : Duration) ≤ 400 ∧ clock.Schedules ⟨300, ⟨0⟩⟩) ∧
      (after.moveTo 400).now = 400 ∧
      (after.moveTo 400).timers = [⟨⟨0⟩, 600, 300⟩, ⟨⟨1⟩, 450, 150⟩] := by
  intro clock fired
  have hreachable : clock.Reachable := .addTimer 150 (.addTimer 300 .new)
  have hroom : ¬clock.Overruns 400 := by
    rw [Overruns]
    decide
  obtain ⟨-, horder⟩ := hreachable.firing_order rfl (by decide) (by decide) hroom
  have hfirst : clock.popDue? 400 =
      some (⟨1⟩, ⟨150, [⟨⟨0⟩, 300, 300⟩, ⟨⟨1⟩, 300, 150⟩], 2, false⟩) := by decide
  have hsecond : (⟨150, [⟨⟨0⟩, 300, 300⟩, ⟨⟨1⟩, 300, 150⟩], 2, false⟩ : Clock).popDue? 400 =
      some (⟨0⟩, ⟨300, [⟨⟨0⟩, 600, 300⟩, ⟨⟨1⟩, 300, 150⟩], 2, false⟩) := by decide
  have hthird : (⟨300, [⟨⟨0⟩, 600, 300⟩, ⟨⟨1⟩, 300, 150⟩], 2, false⟩ : Clock).popDue? 400 =
      some (⟨1⟩, ⟨300, [⟨⟨0⟩, 600, 300⟩, ⟨⟨1⟩, 450, 150⟩], 2, false⟩) := by decide
  have hpops : Pops 400 clock fired _ := .cons hfirst rfl (.cons hsecond rfl (.cons hthird rfl .nil))
  obtain ⟨hsorted, hmem, hnow, -, htimers⟩ := horder _ _ hpops (by decide)
  exact ⟨_, hpops, hsorted, hmem _, hnow, htimers⟩

end Clock

end BehaviorTree
