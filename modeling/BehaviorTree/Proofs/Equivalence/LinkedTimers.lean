import BehaviorTree.Proofs.Equivalence.LinkedWorlds
import BehaviorTree.Proofs.Time.Advance

namespace BehaviorTree

namespace Timer

variable {a b c : Timer}

theorem before_iff : a.before b = true ↔ a.due < b.due ∨ a.due = b.due ∧ a.id.index < b.id.index := by
  simp [before]

theorem before_trans (h : a.before b = true) (k : b.before c = true) : a.before c = true := by
  rw [before_iff] at h k ⊢
  obtain h | ⟨hdue, h⟩ := h
  · exact .inl (k.elim (Nat.lt_trans h) fun k => k.1 ▸ h)
  · exact k.imp (hdue ▸ ·) fun k => ⟨hdue.trans k.1, Nat.lt_trans h k.2⟩

theorem before_asymm (h : a.before b = true) : ¬b.before a = true := by
  rw [before_iff] at h ⊢
  rintro (k | ⟨hdue, k⟩)
  · exact h.elim (Nat.lt_asymm k) fun h => Nat.ne_of_gt k h.1
  · exact h.elim (Nat.ne_of_gt · hdue) fun h => Nat.lt_asymm k h.2

theorem before_of_not (hid : a.id ≠ b.id) (h : ¬b.before a = true) : a.before b = true := by
  have hindex : a.id.index ≠ b.id.index := fun heq => hid (congrArg TimerId.mk heq)
  rw [before_iff] at h ⊢
  obtain hlt | heq | hgt := Nat.lt_trichotomy a.due b.due
  · exact .inl hlt
  · exact .inr ⟨heq, Nat.lt_of_le_of_ne (Nat.le_of_not_lt fun hlt => h (.inr ⟨heq.symm, hlt⟩)) hindex⟩
  · exact absurd (.inl hgt) h

end Timer

namespace Clock

theorem before_of_earliest? {timers : List Timer} {timer : Timer}
    (hdistinct : (timers.map (·.id)).Nodup) (h : earliest? timers = some timer) :
    ∀ other ∈ timers, other ≠ timer → timer.before other = true := by
  induction timers generalizing timer with
  | nil => cases h
  | cons head rest ih =>
    obtain ⟨hhead, hrest⟩ := List.nodup_cons.mp hdistinct
    rw [earliest?] at h
    split at h
    · rename_i hnone
      cases h
      rw [earliest?_eq_none hnone]
      exact List.forall_mem_singleton.mpr fun hne => absurd rfl hne
    · rename_i next hnext
      have hnext' := ih hrest hnext
      split at h <;> rename_i hbefore <;> cases h
      · exact List.forall_mem_cons.mpr ⟨fun _ => hbefore, hnext'⟩
      · have hid : head.id ≠ next.id := fun heq =>
          hhead (List.mem_map.mpr ⟨next, earliest?_mem hnext, heq.symm⟩)
        have hfirst := Timer.before_of_not hid hbefore
        refine List.forall_mem_cons.mpr ⟨fun hne => absurd rfl hne, fun other hmem _ => ?_⟩
        by_cases heq : other = next
        · exact heq ▸ hfirst
        · exact Timer.before_trans hfirst (hnext' other hmem heq)

theorem earliest?_eq_some {timers : List Timer} {timer : Timer}
    (hdistinct : (timers.map (·.id)).Nodup) (hmem : timer ∈ timers)
    (hfirst : ∀ other ∈ timers, other ≠ timer → timer.before other = true) :
    earliest? timers = some timer := by
  cases hearliest : earliest? timers with
  | none => exact absurd (earliest?_eq_none hearliest ▸ hmem) List.not_mem_nil
  | some other =>
    by_cases heq : other = timer
    · rw [heq]
    · exact absurd (before_of_earliest? hdistinct hearliest timer hmem (Ne.symm heq))
        (Timer.before_asymm (hfirst other (earliest?_mem hearliest) heq))

theorem popDue?_eq_some {clock : Clock} {timer : Timer} {limit : Duration}
    (hdistinct : (clock.timers.map (·.id)).Nodup) (hmem : timer ∈ clock.timers)
    (hdue : timer.due ≤ limit)
    (hfirst : ∀ other ∈ clock.timers, other ≠ timer → timer.before other = true) :
    ∃ after, clock.popDue? limit = some (timer.id, after) ∧
      after.timers = reschedule clock.timers timer.id ∧ after.now = max clock.now timer.due := by
  have hnext : clock.next? limit = some timer := by
    rw [next?, earliest?_filter_due, earliest?_eq_some hdistinct hmem hfirst,
      Option.filter_some, if_pos (decide_eq_true hdue)]
  rw [popDue?, hnext]
  exact ⟨_, rfl, rfl, rfl⟩

theorem popDue?_first {clock after : Clock} {id : TimerId} {limit : Duration}
    (hdistinct : (clock.timers.map (·.id)).Nodup) (h : clock.popDue? limit = some (id, after)) :
    ∃ timer ∈ clock.timers, timer.id = id ∧ timer.due ≤ limit ∧
      after.timers = reschedule clock.timers timer.id ∧ after.now = max clock.now timer.due ∧
      ∀ other ∈ clock.timers, other ≠ timer → timer.before other = true := by
  obtain ⟨timer, hnext, heq⟩ := Option.map_eq_some_iff.mp h
  cases heq
  rw [next?, earliest?_filter_due, Option.filter_eq_some_iff] at hnext
  have hmem := earliest?_mem hnext.1
  have hfirst := before_of_earliest? hdistinct hnext.1
  exact ⟨timer, hmem, rfl, of_decide_eq_true hnext.2, rfl, rfl, hfirst⟩

theorem mem_reschedule_of {timers : List Timer} {timer : Timer} (h : timer ∈ timers) (id : TimerId) :
    (if timer.id = id then { timer with due := timer.due + timer.interval } else timer) ∈
      reschedule timers id :=
  List.mem_map_of_mem h

end Clock

namespace World

variable {A : Type}

namespace Linked

variable {bond : Bond} {links more kept : Multiset Link} {left right after after' : World A}
variable {id id' : TimerId} {clock clock' : Clock} {limit : Duration}

theorem reclock (h : Linked bond links left right)
    (hleft : World.Holds { left with clock } (Link.lefts kept + bond.handles))
    (hright : World.Holds { right with clock := clock' } (Link.rights kept + bond.handles))
    (hnow : clock.now = clock'.now)
    (hagrees : ∀ link ∈ kept, link.Agrees { left with clock } { right with clock := clock' })
    (hordered : ∀ a a' b b', .timer (some a) (some a') ∈ kept → .timer (some b) (some b') ∈ kept →
      (a.index < b.index ↔ a'.index < b'.index))
    (hclock : bond.strict = true → clock = clock' ∧ ∀ a b, .timer a b ∈ kept → a = b) :
    Linked bond kept { left with clock } { right with clock := clock' } :=
  ⟨hleft, hright, h.agent_eq, h.values_eq, h.warned_eq, hnow, h.reports_eq, h.react_eq, h.silent,
    h.own_eq, hagrees, hordered, hclock⟩

theorem overflow (h : Linked bond links left right) :
    Linked bond links left.overflow right.overflow := by
  refine h.reclock ((trades_overflow left).holds _ h.left_holds)
    ((trades_overflow right).holds _ h.right_holds) h.now_eq (fun link hlink => ?_) h.ordered
    fun hstrict => ?_
  · have hagrees := h.agrees link hlink
    cases link <;> exact hagrees
  · obtain ⟨hsame, hequal⟩ := h.clock_eq hstrict
    exact ⟨by rw [hsame], hequal⟩

theorem moveTo (h : Linked bond links left right) (instant : Duration) :
    Linked bond links (left.moveTo instant) (right.moveTo instant) := by
  refine h.reclock (h.left_holds.moveTo instant) (h.right_holds.moveTo instant)
    (congrArg (max · instant) h.now_eq) (fun link hlink => ?_) h.ordered fun hstrict => ?_
  · have hagrees := h.agrees link hlink
    cases link <;> exact hagrees
  · obtain ⟨hsame, hequal⟩ := h.clock_eq hstrict
    exact ⟨by rw [hsame], hequal⟩

theorem timer_issued (h : Linked bond links left right) {b : Option TimerId}
    (hmem : .timer (some id) b ∈ links) : id.index < left.clock.nextTimer :=
  h.left_holds.issued (.timer id) (Multiset.mem_add.mpr (.inl
    (Link.mem_lefts hmem (Multiset.mem_singleton_self _))))

theorem addTimer (h : Linked bond links left right) (interval : Duration) :
    Linked bond
      ({.timer (some (left.addTimer interval).1) (some (right.addTimer interval).1)} + links)
      (left.addTimer interval).2 (right.addTimer interval).2 := by
  have hleft := (trades_addTimer left interval).holds _ ((zero_add (Link.lefts links + _)).symm ▸
    h.left_holds)
  have hright := (trades_addTimer right interval).holds _ ((zero_add (Link.rights links + _)).symm ▸
    h.right_holds)
  have hissued : ∀ a b, .timer (some a) (some b) ∈ links →
      a.index < left.clock.nextTimer ∧ b.index < right.clock.nextTimer := fun a b hmem =>
    ⟨h.timer_issued hmem, h.swap.timer_issued (Link.mem_swaps.mpr hmem)⟩
  refine h.reclock ?_ ?_ h.now_eq (fun link hlink => ?_) ?_ fun hstrict => ?_
  · rw [Link.lefts_add, Link.lefts_singleton, add_assoc]
    exact hleft
  · rw [Link.rights_add, Link.rights_singleton, add_assoc]
    exact hright
  · obtain hlink | hlink := Multiset.mem_add.mp hlink
    · obtain rfl := Multiset.mem_singleton.mp hlink
      intro a b ha hb
      cases ha
      cases hb
      have hnow : left.clock.now = right.clock.now := h.now_eq
      refine ⟨left.clock.now + max interval 1, max interval 1, ?_, ?_⟩
      · exact List.mem_append_right _ (List.mem_singleton_self _)
      · rw [hnow]
        exact List.mem_append_right _ (List.mem_singleton_self _)
    · have hagrees := h.agrees link hlink
      cases link with
      | observer key a b => exact hagrees
      | timer a b =>
        intro id id' hid hid'
        obtain ⟨due, interval, hmem, hmem'⟩ := hagrees id id' hid hid'
        exact ⟨due, interval, List.mem_append_left _ hmem, List.mem_append_left _ hmem'⟩
  · -- A new timer is younger than all others, in either world.
    simp only [Multiset.mem_add, Multiset.mem_singleton]
    rintro a a' b b' (ha | ha) (hb | hb)
    · cases ha
      cases hb
      exact iff_of_false (Nat.lt_irrefl _) (Nat.lt_irrefl _)
    · cases ha
      obtain ⟨hold, hold'⟩ := hissued b b' hb
      exact iff_of_false (Nat.lt_asymm hold) (Nat.lt_asymm hold')
    · cases hb
      exact iff_of_true (hissued a a' ha).1 (hissued a a' ha).2
    · exact h.ordered a a' b b' ha hb
  · obtain ⟨hsame, hequal⟩ := h.clock_eq hstrict
    refine ⟨by rw [hsame], ?_⟩
    simp only [Multiset.mem_add, Multiset.mem_singleton]
    rintro a b (heq | hmem)
    · cases heq
      simp only [World.addTimer, hsame]
    · exact hequal a b hmem

theorem addTimer_left (h : Linked bond links left right) (hloose : bond.strict = false)
    (interval : Duration) :
    Linked bond ({.timer (some (left.addTimer interval).1) none} + links)
      (left.addTimer interval).2 right := by
  have hleft := (trades_addTimer left interval).holds _ ((zero_add (Link.lefts links + _)).symm ▸
    h.left_holds)
  refine h.reclock ?_ ?_ h.now_eq (fun link hlink => ?_) ?_ fun hstrict => ?_
  · rw [Link.lefts_add, Link.lefts_singleton, add_assoc]
    exact hleft
  · rw [Link.rights_add, Link.rights_singleton]
    exact (zero_add (Link.rights links)).symm ▸ h.right_holds
  · obtain hlink | hlink := Multiset.mem_add.mp hlink
    · obtain rfl := Multiset.mem_singleton.mp hlink
      exact fun _ _ _ => nofun
    · have hagrees := h.agrees link hlink
      cases link with
      | observer key a b => exact hagrees
      | timer a b =>
        intro id id' hid hid'
        obtain ⟨due, interval, hmem, hmem'⟩ := hagrees id id' hid hid'
        exact ⟨due, interval, List.mem_append_left _ hmem, hmem'⟩
  · simp only [Multiset.mem_add, Multiset.mem_singleton]
    rintro a a' b b' (ha | ha) (hb | hb)
    · cases ha
    · cases ha
    · cases hb
    · exact h.ordered a a' b b' ha hb
  · exact absurd hstrict (by simp [hloose])

theorem mem_cancel {link : Link} {due interval : Duration} {a : Option TimerId}
    (h : Linked bond ({link} + more) left right) (hmem : .timer (some id) a ∈ more)
    (hid' : Handle.timer id' ∈ link.left) (htimer : ⟨id, due, interval⟩ ∈ left.clock.timers) :
    ⟨id, due, interval⟩ ∈ (left.clock.cancel id').2.timers := by
  refine List.mem_filter.mpr ⟨htimer, decide_eq_true fun heq => ?_⟩
  obtain rfl : id = id' := heq
  exact h.not_mem_lefts hid' (Multiset.mem_add.mpr (.inl
    (Link.mem_lefts hmem (Multiset.mem_singleton_self _))))

theorem cancel (h : Linked bond ({.timer (some id) (some id')} + more) left right) :
    Linked bond more (left.cancel id).2 (right.cancel id').2 := by
  have hswap := h.swap
  rw [Link.swaps_add, Link.swaps_singleton] at hswap
  have hleft := h.left_holds
  have hright := h.right_holds
  rw [Link.lefts_add, Link.lefts_singleton, add_assoc] at hleft
  rw [Link.rights_add, Link.rights_singleton, add_assoc] at hright
  have hleft := (trades_cancel left id).holds _ hleft
  have hright := (trades_cancel right id').holds _ hright
  rw [zero_add] at hleft hright
  have hold : ∀ {link}, link ∈ more → link ∈ ({.timer (some id) (some id')} + more : Multiset Link) :=
    fun hmem => Multiset.mem_add.mpr (.inr hmem)
  refine h.reclock hleft hright h.now_eq (fun link hlink => ?_)
    (fun a a' b b' ha hb => h.ordered a a' b b' (hold ha) (hold hb)) fun hstrict => ?_
  · have hagrees := h.agrees link (hold hlink)
    cases link with
    | observer key a b => exact hagrees
    | timer a b =>
      rintro other other' rfl rfl
      obtain ⟨due, interval, hmem, hmem'⟩ := hagrees other other' rfl rfl
      exact ⟨due, interval, h.mem_cancel hlink (Multiset.mem_singleton_self _) hmem,
        hswap.mem_cancel (Link.mem_swaps.mpr hlink) (Multiset.mem_singleton_self _) hmem'⟩
  · obtain ⟨hsame, hequal⟩ := h.clock_eq hstrict
    have hid : some id = some id' :=
      hequal _ _ (Multiset.mem_add.mpr (.inl (Multiset.mem_singleton_self _)))
    rw [hsame, Option.some.inj hid]
    exact ⟨rfl, fun a b hmem => hequal a b (hold hmem)⟩

theorem cancel_left (h : Linked bond ({.timer (some id) none} + more) left right) :
    Linked bond more (left.cancel id).2 right := by
  have hleft := h.left_holds
  have hright := h.right_holds
  rw [Link.lefts_add, Link.lefts_singleton, add_assoc] at hleft
  rw [Link.rights_add, Link.rights_singleton] at hright
  have hleft := (trades_cancel left id).holds _ hleft
  rw [zero_add] at hleft
  have hold : ∀ {link}, link ∈ more → link ∈ ({.timer (some id) none} + more : Multiset Link) :=
    fun hmem => Multiset.mem_add.mpr (.inr hmem)
  refine h.reclock hleft ((zero_add (Link.rights more)) ▸ hright) h.now_eq (fun link hlink => ?_)
    (fun a a' b b' ha hb => h.ordered a a' b b' (hold ha) (hold hb)) fun hstrict => ?_
  · have hagrees := h.agrees link (hold hlink)
    cases link with
    | observer key a b => exact hagrees
    | timer a b =>
      rintro other other' rfl rfl
      obtain ⟨due, interval, hmem, hmem'⟩ := hagrees other other' rfl rfl
      exact ⟨due, interval, h.mem_cancel hlink (Multiset.mem_singleton_self _) hmem, hmem'⟩
  · obtain ⟨-, hequal⟩ := h.clock_eq hstrict
    cases hequal _ _ (Multiset.mem_add.mpr (.inl (Multiset.mem_singleton_self _)))

theorem cancel? {a b : Option TimerId} (hsome : a.isSome = b.isSome)
    (h : Linked bond (Link.timers a b + more) left right) :
    Linked bond more (left.cancel? a) (right.cancel? b) := by
  cases a with
  | none =>
    obtain rfl : b = none := by simpa using hsome
    rwa [Link.timers_none, zero_add] at h
  | some id =>
    obtain ⟨id', rfl⟩ := Option.isSome_iff_exists.mp hsome.symm
    exact h.cancel

theorem timer_ne {a b : Option TimerId} (h : Linked bond ({.timer (some id) a} + more) left right)
    (hmem : .timer (some id') b ∈ more) : id ≠ id' := by
  rintro rfl
  exact h.not_mem_lefts (Multiset.mem_singleton_self _)
    (Multiset.mem_add.mpr (.inl (Link.mem_lefts hmem (Multiset.mem_singleton_self _))))

theorem timer_ne_right {a b : Option TimerId}
    (h : Linked bond ({.timer a (some id)} + more) left right) (hmem : .timer b (some id') ∈ more) :
    id ≠ id' := by
  have hswap := h.swap
  rw [Link.swaps_add, Link.swaps_singleton] at hswap
  exact hswap.timer_ne (b := b) (Link.mem_swaps.mpr hmem)

theorem exists_link {timer : Timer} (h : Linked bond links left right)
    (hmem : timer ∈ left.clock.timers) : ∃ b, .timer (some timer.id) b ∈ links := by
  have hscheduled := (h.left_holds.scheduled timer.id).mp
    ((Clock.isScheduled_iff _ _).mpr (List.mem_map_of_mem hmem))
  obtain hmem | hmem := Multiset.mem_add.mp hscheduled
  · obtain ⟨link, hlink, hmem⟩ := Multiset.mem_bind.mp hmem
    cases link with
    | observer key a b =>
      cases a with
      | none => exact absurd hmem (Multiset.notMem_zero _)
      | some id => cases Multiset.mem_singleton.mp hmem
    | timer a b =>
      cases a with
      | none => exact absurd hmem (Multiset.notMem_zero _)
      | some id =>
        cases Multiset.mem_singleton.mp hmem
        exact ⟨b, hlink⟩
  · obtain ⟨id, -, heq⟩ := List.mem_map.mp (Multiset.mem_coe.mp hmem)
    cases heq

theorem eq_of_id {timer : Timer} {due interval : Duration} (h : Linked bond links left right)
    (hmem : timer ∈ left.clock.timers) (hmem' : ⟨timer.id, due, interval⟩ ∈ left.clock.timers) :
    timer = ⟨timer.id, due, interval⟩ :=
  List.inj_on_of_nodup_map h.left_holds.distinct hmem hmem' rfl

/-- Where no timer of the second world is alone, each has its like in the first. -/
theorem exists_counterpart {timer : Timer} (h : Linked bond links left right)
    (hlone : ∀ b, .timer none b ∉ links) (hmem : timer ∈ right.clock.timers) :
    ∃ id, .timer (some id) (some timer.id) ∈ links ∧
      ⟨id, timer.due, timer.interval⟩ ∈ left.clock.timers := by
  obtain ⟨a, hlink⟩ := h.swap.exists_link hmem
  have hlink : .timer a (some timer.id) ∈ links := Link.mem_swaps.mp hlink
  cases a with
  | none => exact absurd hlink (hlone _)
  | some id =>
    obtain ⟨due, interval, hleft, hright⟩ := h.agrees _ hlink id timer.id rfl rfl
    have heq := h.swap.eq_of_id hmem hright
    refine ⟨id, hlink, ?_⟩
    rw [heq]
    exact hleft

theorem agrees_popped (h : Linked bond links left right) (hmem : .timer (some id) (some id') ∈ links)
    (hclock : clock.timers = Clock.reschedule left.clock.timers id)
    (hclock' : clock'.timers = Clock.reschedule right.clock.timers id') :
    ∀ link ∈ links, link.Agrees { left with clock } { right with clock := clock' } := by
  intro link hlink
  have hagrees := h.agrees link hlink
  cases link with
  | observer key a b => exact hagrees
  | timer a b =>
    rintro other other' rfl rfl
    obtain ⟨due, interval, hleft, hright⟩ := hagrees other other' rfl rfl
    have hleft := Clock.mem_reschedule_of hleft id
    have hright := Clock.mem_reschedule_of hright id'
    rw [← hclock] at hleft
    rw [← hclock'] at hright
    have hsame : other = id ↔ other' = id' := by
      constructor
      · rintro rfl
        cases h.link_unique hlink hmem (Multiset.mem_singleton_self _) (Multiset.mem_singleton_self _)
        rfl
      · rintro rfl
        have hlink : Link.timer (some other') (some other) ∈ Link.swaps links := Link.mem_swaps.mpr hlink
        have hmem : Link.timer (some other') (some id) ∈ Link.swaps links := Link.mem_swaps.mpr hmem
        cases h.swap.link_unique hlink hmem (Multiset.mem_singleton_self _) (Multiset.mem_singleton_self _)
        rfl
    by_cases hid : other = id
    · rw [if_pos hid] at hleft
      rw [if_pos (hsame.mp hid)] at hright
      exact ⟨due + interval, interval, hleft, hright⟩
    · rw [if_neg hid] at hleft
      rw [if_neg (mt hsame.mpr hid)] at hright
      exact ⟨due, interval, hleft, hright⟩

theorem pop (h : Linked bond links left right) (hlone : ∀ b, .timer none b ∉ links)
    (hpop : left.clock.popDue? limit = some (id, clock))
    (hmem : .timer (some id) (some id') ∈ links) :
    ∃ clock', right.clock.popDue? limit = some (id', clock') ∧
      Linked bond links { left with clock } { right with clock := clock' } := by
  obtain ⟨timer, htimer, rfl, hdue, htimers, hnow, hfirst⟩ :=
    Clock.popDue?_first h.left_holds.distinct hpop
  obtain ⟨due, interval, hleft, hright⟩ := h.agrees _ hmem timer.id id' rfl rfl
  have heq := h.eq_of_id htimer hleft
  have hsame : timer.due = due := congrArg Timer.due heq
  have hfirst' : ∀ other ∈ right.clock.timers, other ≠ ⟨id', due, interval⟩ →
      Timer.before ⟨id', due, interval⟩ other = true := by
    intro other hother hne
    obtain ⟨id, hlink, hcounterpart⟩ := h.exists_counterpart hlone hother
    have hne : (⟨id, other.due, other.interval⟩ : Timer) ≠ timer := by
      rintro rfl
      cases h.link_unique hlink hmem (Multiset.mem_singleton_self _) (Multiset.mem_singleton_self _)
      exact hne (h.swap.eq_of_id hother hright)
    have hbefore := Timer.before_iff.mp (hfirst ⟨id, other.due, other.interval⟩ hcounterpart hne)
    rw [hsame] at hbefore
    exact Timer.before_iff.mpr (hbefore.imp_right fun hage =>
      ⟨hage.1, (h.ordered _ _ _ _ hmem hlink).mp hage.2⟩)
  obtain ⟨clock', hpop', htimers', hnow'⟩ :=
    Clock.popDue?_eq_some h.right_holds.distinct hright (hsame ▸ hdue) hfirst'
  refine ⟨clock', hpop', h.reclock (h.left_holds.popped (Clock.popped hpop))
    (h.right_holds.popped (Clock.popped hpop')) ?_ (h.agrees_popped hmem htimers htimers') h.ordered
    fun hstrict => ?_⟩
  · have hold : left.clock.now = right.clock.now := h.now_eq
    rw [hnow, hnow', hold, hsame]
  · obtain ⟨hclocks, hequal⟩ := h.clock_eq hstrict
    rw [hclocks, hpop'] at hpop
    cases hpop
    exact ⟨rfl, hequal⟩

/-- Where a timer of the first world alone falls due, the second world lets time pass. -/
theorem pop_left (h : Linked bond links left right) (hlone : ∀ b, .timer none b ∉ links)
    (hpop : left.clock.popDue? limit = some (id, clock)) (hmem : .timer (some id) none ∈ links) :
    ∃ due, due ≤ limit ∧ (∀ timer ∈ right.clock.timers, due ≤ timer.due) ∧
      Linked bond links { left with clock } (right.moveTo due) := by
  obtain ⟨timer, htimer, rfl, hdue, htimers, hnow, hfirst⟩ :=
    Clock.popDue?_first h.left_holds.distinct hpop
  refine ⟨timer.due, hdue, fun other hother => ?_, h.reclock (h.left_holds.popped (Clock.popped hpop))
    (h.right_holds.moveTo timer.due) ?_ (fun link hlink => ?_) h.ordered fun hstrict => ?_⟩
  · obtain ⟨id, hlink, hcounterpart⟩ := h.exists_counterpart hlone hother
    have hne : (⟨id, other.due, other.interval⟩ : Timer) ≠ timer := by
      rintro rfl
      cases h.link_unique hlink hmem (Multiset.mem_singleton_self _) (Multiset.mem_singleton_self _)
    have hle := Timer.due_le_of_before (hfirst ⟨id, other.due, other.interval⟩ hcounterpart hne)
    exact hle
  · rw [hnow]
    exact congrArg (max · timer.due) h.now_eq
  · have hagrees := h.agrees link hlink
    cases link with
    | observer key a b => exact hagrees
    | timer a b =>
      rintro other other' rfl rfl
      obtain ⟨due, interval, hleft, hright⟩ := hagrees other other' rfl rfl
      have hne : other ≠ timer.id := by
        rintro rfl
        cases h.link_unique hlink hmem (Multiset.mem_singleton_self _) (Multiset.mem_singleton_self _)
      have hleft := Clock.mem_reschedule_of hleft timer.id
      rw [if_neg hne, ← htimers] at hleft
      exact ⟨due, interval, hleft, hright⟩
  · cases (h.clock_eq hstrict).2 _ _ hmem

theorem pop_none (h : Linked bond links left right) (hlone : ∀ b, .timer none b ∉ links)
    (hnone : left.clock.popDue? limit = none) : right.clock.popDue? limit = none := by
  refine Clock.popDue?_eq_none fun timer hmem => ?_
  obtain ⟨id, -, hcounterpart⟩ := h.exists_counterpart hlone hmem
  exact Clock.lt_due_of_popDue?_eq_none hnone ⟨id, timer.due, timer.interval⟩ hcounterpart

/-- What the owners of linked timers make of it when one fires: where only the first world has the
timer, the second need do nothing. -/
def Answers (bond : Bond) (links : Multiset Link) (fire fire' : TimerId → World A → Bool × World A)
    (a b : Option TimerId) : Prop :=
  ∃ id, a = some id ∧ ∀ left right, Linked bond links left right →
    (fire id left).1 = true ∧
      match b with
      | some id' => (fire' id' right).1 = true ∧ Linked bond links (fire id left).2 (fire' id' right).2
      | none => Linked bond links (fire id left).2 right

theorem dispatch_owned {fire : TimerId → World A → Bool × World A} {world : World A}
    (h : (fire id world).1 = true) : dispatch fire id world = (fire id world).2 := by
  rw [dispatch]
  exact if_pos h

/-- Linked worlds come to the limit linked. -/
theorem elapses {fire fire' : TimerId → World A → Bool × World A} {middle : World A}
    (hanswers : ∀ a b, .timer a b ∈ links → Answers bond links fire fire' a b)
    (h : Linked bond links left right) (hleft : Drains fire limit left middle)
    (hright : Elapses fire' limit right after') : Linked bond links (middle.moveTo limit) after' := by
  have hlone : ∀ b, .timer none b ∉ links := fun b hmem => by
    obtain ⟨id, heq, -⟩ := hanswers _ _ hmem
    cases heq
  induction hleft generalizing right with
  | @done world hnone =>
    obtain ⟨hdrains⟩ := hright
    cases hdrains with
    | done _ => exact h.moveTo limit
    | fired hpop _ _ => exact absurd (hpop.symm.trans (h.pop_none hlone hnone)) (by simp)
  | @fired world after id clock hpop _ _ ih =>
    obtain ⟨timer, htimer, rfl, -⟩ := Clock.popDue?_first h.left_holds.distinct hpop
    obtain ⟨b, hmem⟩ := h.exists_link htimer
    obtain ⟨id, heq, hanswer⟩ := hanswers _ _ hmem
    cases heq
    cases b with
    | none =>
      obtain ⟨due, hle, hahead, hpopped⟩ := h.pop_left hlone hpop hmem
      obtain ⟨howned, hfired⟩ := hanswer _ _ hpopped
      rw [dispatch_owned howned] at ih
      exact ih hfired ((elapses_moveTo hle hahead).mpr hright)
    | some id' =>
      obtain ⟨clock', hpop', hpopped⟩ := h.pop hlone hpop hmem
      obtain ⟨howned, howned', hfired⟩ := hanswer _ _ hpopped
      rw [dispatch_owned howned] at ih
      obtain ⟨hdrains⟩ := hright
      cases hdrains with
      | done hnone => exact absurd (hpop'.symm.trans hnone) (by simp)
      | fired hpop'' _ hrest =>
        cases hpop'.symm.trans hpop''
        rw [dispatch_owned howned'] at hrest
        exact ih hfired (.of_drains hrest)

section Strict

variable {fire fire' : TimerId → World A → Bool × World A} (hstrict : bond.strict = true)
variable (hanswers : ∀ a b, .timer a b ∈ links → Answers bond links fire fire' a b)

include hstrict hanswers

/-- Worlds with the same clock fire the same timers, whether or not a time overflows on the way. -/
theorem fireDue (h : Linked bond links left right) (limit : Duration) (fuel : Nat) :
    Linked bond links (World.fireDue fire limit fuel left) (World.fireDue fire' limit fuel right) := by
  induction fuel generalizing left right with
  | zero => exact h
  | succ fuel ih =>
    rw [World.fireDue, World.fireDue]
    cases hpop : left.clock.popDue? limit with
    | none =>
      rw [(h.clock_eq hstrict).1] at hpop
      rw [hpop]
      exact h
    | some popped =>
      obtain ⟨id, clock⟩ := popped
      obtain ⟨timer, htimer, rfl, -⟩ := Clock.popDue?_first h.left_holds.distinct hpop
      obtain ⟨b, hmem⟩ := h.exists_link htimer
      obtain rfl := (h.clock_eq hstrict).2 _ _ hmem
      have hlone : ∀ b, .timer none b ∉ links := fun b hmem => by
        obtain ⟨id, heq, -⟩ := hanswers _ _ hmem
        cases heq
      obtain ⟨clock', hpop', hpopped⟩ := h.pop hlone hpop hmem
      obtain rfl : clock = clock' := (hpopped.clock_eq hstrict).1
      obtain ⟨id, heq, hanswer⟩ := hanswers _ _ hmem
      cases heq
      obtain ⟨howned, howned', hfired⟩ := hanswer _ _ hpopped
      rw [hpop']
      dsimp only
      rw [dispatch_owned howned, dispatch_owned howned']
      split
      · exact hpopped
      · exact ih hfired

theorem advance (h : Linked bond links left right) (dt : Duration) :
    Linked bond links (World.advance fire dt left) (World.advance fire' dt right) := by
  have hclock := (h.clock_eq hstrict).1
  unfold World.advance
  dsimp only
  rw [h.now_eq, hclock]
  split
  · exact h.overflow
  · exact (h.fireDue hstrict hanswers _ _).moveTo _

end Strict

/-- What is left on the board after a tree was stopped is the host's own. -/
theorem observers_eq (h : Linked bond 0 left right) :
    left.board.observers = right.board.observers := by
  have hall {world : World A} (hholds : world.Holds (0 + bond.handles)) :
      world.board.observers.filter (·.id ∈ bond.own) = world.board.observers := by
    refine List.filter_eq_self.mpr fun subscription hmem => decide_eq_true ?_
    have hsubscribed := hholds.subscribed subscription.id
      ((Board.isSubscribed_iff _ _).mpr ⟨subscription, hmem, rfl⟩)
    rw [zero_add] at hsubscribed
    obtain ⟨id, hid, heq⟩ := List.mem_map.mp (Multiset.mem_coe.mp hsubscribed)
    cases heq
    exact hid
  have hsame := h.own_eq
  rwa [hall h.left_holds, hall h.right_holds] at hsame

theorem reset (h : Linked bond 0 left right) (values : Values) :
    Linked bond 0 (left.reset values) (right.reset values) := by
  have hnone : ∀ id, Handle.timer id ∉ 0 + bond.handles := fun id hmem => by
    rw [zero_add] at hmem
    obtain ⟨_, -, heq⟩ := List.mem_map.mp (Multiset.mem_coe.mp hmem)
    cases heq
  have hleft := h.left_holds.reset hnone values
  have hright := h.right_holds.reset hnone values
  have hbefore := h.left_holds.timers_eq_nil hnone
  have hbefore' := h.right_holds.timers_eq_nil hnone
  rw [reset_eq values hbefore] at hleft ⊢
  rw [reset_eq values hbefore'] at hright ⊢
  rw [h.observers_eq] at hleft ⊢
  by_cases hempty : right.board.observers = []
  · rw [if_pos hempty] at hleft hright ⊢
    rw [if_pos hempty]
    exact ⟨hleft, hright, h.agent_eq, rfl, rfl, h.now_eq, h.reports_eq, h.react_eq, h.silent, rfl,
      nofun, fun _ _ _ _ => nofun, fun hstrict => ⟨(h.clock_eq hstrict).1, fun _ _ => nofun⟩⟩
  · rw [if_neg hempty] at hleft hright ⊢
    rw [if_neg hempty]
    exact ⟨hleft, hright, h.agent_eq, rfl, rfl, h.now_eq,
      congrArg (Event.leftBehind 0 right.board.observers.length :: ·) h.reports_eq, h.react_eq,
      h.silent, rfl, nofun, fun _ _ _ _ => nofun,
      fun hstrict => ⟨(h.clock_eq hstrict).1, fun _ _ => nofun⟩⟩

end Linked

end World

end BehaviorTree
