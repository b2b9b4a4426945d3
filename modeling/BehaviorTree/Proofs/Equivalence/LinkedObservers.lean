import BehaviorTree.Proofs.Equivalence.LinkedWorlds

/-!
Two conditions that do the same need not have their flags in step: one of them may have been stopped once
more than the other. So an observer of the one is first seen apart from that of the other, and the two are
paired where both flags are down. What is done to each alone gives what is done to both.
-/

namespace BehaviorTree

namespace World

variable {A : Type}

namespace Linked

variable {bond : Bond} {links more kept : Multiset Link} {left right after after' : World A}

theorem subscribe_left (h : Linked bond links left right) (key : String) :
    Linked bond ({.observer key (some (left.subscribe key).1) none} + links)
      (left.subscribe key).2 right := by
  rw [← zero_add links] at h
  -- The host has its observers from the world, so a new one is none of them.
  have hnew : (left.subscribe key).1 ∉ bond.own := fun hown =>
    Nat.lt_irrefl _ (h.left_holds.issued _ (Multiset.mem_add.mpr (.inr
      (Multiset.mem_coe.mpr (List.mem_map_of_mem hown)))))
  refine h.step_left (trades_subscribe left key) rfl rfl rfl rfl rfl rfl ?_ ?_ ?_ (by simp)
  · rw [subscribe, Board.subscribe, List.filter_append, List.filter_singleton]
    rw [subscribe, Board.subscribe] at hnew
    simp [hnew]
  · simp only [Multiset.mem_singleton, forall_eq]
    exact Link.agrees_left _ fun id hid => by
      cases hid
      exact List.mem_append_right _ (List.mem_singleton_self _)
  · intro link hlink
    have hagrees := h.agrees link (Multiset.mem_add.mpr (.inr hlink))
    cases link with
    | timer a b => exact hagrees
    | observer watched a b =>
      exact ⟨fun id hid => List.mem_append_left _ (hagrees.1 id hid), hagrees.2⟩

theorem isPending_ne {world : World A} {id other : ObserverId} (hne : other ≠ id) :
    (world.acknowledge id).board.isPending other = world.board.isPending other :=
  (Board.isPending_acknowledge _ _ _).trans (by simp [hne])

theorem acknowledge_left {key : String} {id : ObserverId}
    (h : Linked bond ({.observer key (some id) none} + more) left right) :
    Linked bond ({.observer key (some id) none} + more) (left.acknowledge id) right := by
  have hagrees := h.agrees _ (Multiset.mem_add.mpr (.inl (Multiset.mem_singleton_self _)))
  have hfresh : Handle.observer id ∉ Link.lefts more + bond.handles :=
    h.not_mem_lefts (Multiset.mem_singleton_self _)
  refine h.step_left (trades_acknowledge left id) rfl rfl rfl rfl rfl rfl rfl ?_ ?_ (by simp)
  · simp only [Multiset.mem_singleton, forall_eq]
    exact Link.agrees_left _ hagrees.1
  · intro link hlink
    have hagrees := h.agrees link (Multiset.mem_add.mpr (.inr hlink))
    cases link with
    | timer a b => exact hagrees
    | observer watched a b =>
      refine ⟨hagrees.1, hagrees.2.1, fun other other' hother hother' => ?_⟩
      have hne : other ≠ id := by
        rintro rfl
        exact hfresh (Multiset.mem_add.mpr (.inl
          (Link.mem_lefts hlink (by simp [Link.left, hother, Handle.observers]))))
      exact (isPending_ne hne).trans (hagrees.2.2 other other' hother hother')

theorem unsubscribe_left {key : String} {id : ObserverId} {b : Option ObserverId}
    (h : Linked bond ({.observer key (some id) b} + more) left right) :
    Linked bond ({.observer key none b} + more) (left.unsubscribe id).2 right := by
  have hagrees := h.agrees _ (Multiset.mem_add.mpr (.inl (Multiset.mem_singleton_self _)))
  have hfresh : Handle.observer id ∉ Link.lefts more + bond.handles :=
    h.not_mem_lefts (Multiset.mem_singleton_self _)
  refine h.step_left (trades_unsubscribe left id) rfl rfl rfl rfl rfl rfl ?_ ?_ ?_ (by simp)
  · simp only [unsubscribe, Board.unsubscribe, List.filter_filter]
    refine List.filter_congr fun subscription _ => ?_
    have hne : subscription.id ∈ bond.own → subscription.id ≠ id := by
      rintro hown rfl
      exact hfresh (Multiset.mem_add.mpr (.inr (Multiset.mem_coe.mpr (List.mem_map_of_mem hown))))
    by_cases hown : subscription.id ∈ bond.own <;> simp [hown, hne]
  · simp only [Multiset.mem_singleton, forall_eq]
    exact Link.agrees_right _ hagrees.2.1
  · intro link hlink
    have hagrees := h.agrees link (Multiset.mem_add.mpr (.inr hlink))
    cases link with
    | timer a b => exact hagrees
    | observer watched a b =>
      refine ⟨fun other hother => List.mem_filter.mpr ⟨hagrees.1 other hother, ?_⟩, hagrees.2⟩
      refine decide_eq_true fun heq => ?_
      obtain rfl : other = id := heq
      exact hfresh (Multiset.mem_add.mpr (.inl
          (Link.mem_lefts hlink (by simp [Link.left, hother, Handle.observers]))))

/-- What is one in both worlds may as well be seen as two. -/
theorem part {key : String} {a b : Option ObserverId}
    (h : Linked bond ({.observer key a b} + more) left right) :
    Linked bond ({.observer key a none} + ({.observer key none b} + more)) left right := by
  have hagrees := h.agrees _ (Multiset.mem_add.mpr (.inl (Multiset.mem_singleton_self _)))
  refine h.relink ?_ ?_ ?_ ?_
  · simp only [Link.lefts_add, Link.lefts_singleton, Link.left, Handle.observers, zero_add]
  · simp only [Link.rights_add, Link.rights_singleton, Link.right, Handle.observers, zero_add]
  · simp only [Multiset.mem_add, Multiset.mem_singleton]
    rintro link (rfl | rfl | hlink)
    · exact Link.agrees_left _ hagrees.1
    · exact Link.agrees_right _ hagrees.2.1
    · exact h.agrees link (Multiset.mem_add.mpr (.inr hlink))
  · simp

/-- Two that have the same flag may be seen as one. -/
theorem pair {key : String} {id id' : ObserverId}
    (h : Linked bond ({.observer key (some id) none} + ({.observer key none (some id')} + more)) left
      right) (hflags : left.board.isPending id = right.board.isPending id') :
    Linked bond ({.observer key (some id) (some id')} + more) left right := by
  have hagrees := h.agrees _ (Multiset.mem_add.mpr (.inl (Multiset.mem_singleton_self _)))
  have hagrees' := h.agrees (.observer key none (some id')) (by simp)
  refine h.relink ?_ ?_ ?_ ?_
  · simp only [Link.lefts_add, Link.lefts_singleton, Link.left, Handle.observers, zero_add]
  · simp only [Link.rights_add, Link.rights_singleton, Link.right, Handle.observers, zero_add]
  · simp only [Multiset.mem_add, Multiset.mem_singleton]
    rintro link (rfl | hlink)
    · refine ⟨hagrees.1, hagrees'.2.1, fun other other' hother hother' => ?_⟩
      cases hother
      cases hother'
      exact hflags
    · exact h.agrees link (by simp [hlink])
  · simp

theorem dismiss?_left {key : String} {a : Option ObserverId}
    (h : Linked bond (Link.observers key a none + more) left right) :
    Linked bond (Link.observers key a none + more) (left.dismiss? a) right := by
  cases a with
  | none => exact h
  | some id =>
    rw [dismiss?, dismiss]
    split
    · exact (acknowledge_left h).record_left rfl rfl
    · exact h

theorem dismiss?_right {key : String} {b : Option ObserverId}
    (h : Linked bond (Link.observers key none b + more) left right) :
    Linked bond (Link.observers key none b + more) left (right.dismiss? b) := by
  refine of_swap ?_
  have hswap := h.swap
  rw [Link.swaps_add, Link.swaps_observers] at hswap ⊢
  exact hswap.dismiss?_left

theorem unsubscribe?_left {key : String} {a : Option ObserverId}
    (h : Linked bond (Link.observers key a none + more) left right) :
    Linked bond more (left.unsubscribe? a) right := by
  cases a with
  | none => rwa [Link.observers, zero_add] at h
  | some id =>
    refine (unsubscribe_left h).relink ?_ ?_ (fun link hlink => ?_) ?_
    · simp only [Link.lefts_add, Link.lefts_singleton, Link.left, Handle.observers, zero_add]
    · simp only [Link.rights_add, Link.rights_singleton, Link.right, Handle.observers, zero_add]
    · exact (unsubscribe_left h).agrees link (Multiset.mem_add.mpr (.inr hlink))
    · exact fun _ _ hmem => Multiset.mem_add.mpr (.inr hmem)

theorem unsubscribe?_right {key : String} {b : Option ObserverId}
    (h : Linked bond (Link.observers key none b + more) left right) :
    Linked bond more left (right.unsubscribe? b) := by
  refine of_swap ?_
  have hswap := h.swap
  rw [Link.swaps_add, Link.swaps_observers] at hswap
  exact hswap.unsubscribe?_left

theorem observe_left {key : String} {a : Option ObserverId}
    (h : Linked bond (Link.observers key a none + more) left right) :
    Linked bond (Link.observers key (some (left.observe a key).1) none + more)
        (left.observe a key).2 right := by
  cases a with
  | none =>
    rw [Link.observers, zero_add] at h
    exact acknowledge_left (h.subscribe_left key)
  | some id => exact acknowledge_left h

theorem observe_right {key : String} {b : Option ObserverId}
    (h : Linked bond (Link.observers key none b + more) left right) :
    Linked bond (Link.observers key none (some (right.observe b key).1) + more) left
        (right.observe b key).2 := by
  refine of_swap ?_
  have hswap := h.swap
  rw [Link.swaps_add, Link.swaps_observers] at hswap ⊢
  exact hswap.observe_left

theorem isPending_acknowledge_self (world : World A) (id : ObserverId) :
    (world.acknowledge id).board.isPending id = false :=
  (Board.isPending_acknowledge _ _ _).trans (by simp)

theorem isPending_dismiss_self (world : World A) (id : ObserverId) :
    (world.dismiss id).board.isPending id = false := by
  rw [dismiss]
  split
  · exact isPending_acknowledge_self world id
  · rename_i hdown
    exact Bool.eq_false_iff.mpr hdown

theorem isPending_observe (world : World A) (observer : Option ObserverId) (key : String) :
    (world.observe observer key).2.board.isPending (world.observe observer key).1 = false := by
  cases observer <;> exact isPending_acknowledge_self _ _

theorem unpair {key : String} {a b : Option ObserverId}
    (h : Linked bond (Link.observers key a b + more) left right) :
    Linked bond (Link.observers key a none + (Link.observers key none b + more)) left right := by
  cases a with
  | none => rwa [Link.observers_none, zero_add]
  | some id =>
    cases b with
    | none => rwa [Link.observers_none, zero_add]
    | some id' => exact h.part

/-- Observers whose flags are down are paired. -/
theorem tighten {key : String} {a b : Option ObserverId}
    (h : Linked bond (Link.observers key a none + (Link.observers key none b + more)) left right)
    (hleft : ∀ id, a = some id → left.board.isPending id = false)
    (hright : ∀ id, b = some id → right.board.isPending id = false) :
    Linked bond (Link.observers key a b + more) left right := by
  cases a with
  | none => rwa [Link.observers, zero_add] at h
  | some id =>
    cases b with
    | none => rwa [Link.observers_none, zero_add] at h
    | some id' => exact h.pair ((hleft id rfl).trans (hright id' rfl).symm)

theorem observe {key : String} {a b : Option ObserverId}
    (h : Linked bond (Link.observers key a none + (Link.observers key none b + more)) left right) :
    Linked bond
      (Link.observers key (some (left.observe a key).1) (some (right.observe b key).1) + more)
      (left.observe a key).2 (right.observe b key).2 := by
  have hleft := h.observe_left
  rw [add_left_comm] at hleft
  have hboth := hleft.observe_right
  rw [add_left_comm] at hboth
  refine hboth.tighten (fun id hid => ?_) (fun id hid => ?_)
  · cases hid
    exact isPending_observe left a key
  · cases hid
    exact isPending_observe right b key

theorem dismiss? {key : String} {a b : Option ObserverId}
    (h : Linked bond (Link.observers key a b + more) left right) :
    Linked bond (Link.observers key a b + more) (left.dismiss? a) (right.dismiss? b) := by
  have hleft := h.unpair.dismiss?_left
  rw [add_left_comm] at hleft
  have hboth := hleft.dismiss?_right
  rw [add_left_comm] at hboth
  refine hboth.tighten (fun id hid => ?_) (fun id hid => ?_)
  · cases hid
    exact isPending_dismiss_self left id
  · cases hid
    exact isPending_dismiss_self right id

theorem unsubscribe? {key : String} {a b : Option ObserverId}
    (h : Linked bond (Link.observers key a b + more) left right) :
    Linked bond more (left.unsubscribe? a) (right.unsubscribe? b) :=
  h.unpair.unsubscribe?_left.unsubscribe?_right

theorem acknowledge {key : String} {id id' : ObserverId}
    (h : Linked bond ({.observer key (some id) (some id')} + more) left right) :
    Linked bond ({.observer key (some id) (some id')} + more) (left.acknowledge id)
      (right.acknowledge id') := by
  have hleft := h.part.acknowledge_left.swap
  rw [Link.swaps_add, Link.swaps_add, add_left_comm] at hleft
  have hboth := hleft.acknowledge_left.swap
  rw [Link.swaps_add, Link.swaps_add, Link.swaps_swaps, Link.swaps_swaps, add_left_comm] at hboth
  exact hboth.pair
    ((isPending_acknowledge_self left id).trans (isPending_acknowledge_self right id').symm)

theorem judge (h : Linked bond links left right) (guard : Guard) (id id' : ObserverId) :
    (left.judge guard id).1 = (right.judge guard id').1 ∧
      Linked bond links (left.judge guard id).2 (right.judge guard id').2 := by
  obtain ⟨hholds, hevaluated⟩ := h.evaluate guard
  exact ⟨hholds, (hevaluated.record_left rfl rfl).record_right rfl rfl⟩

theorem breaks (h : Linked bond links left right) (guard : Guard) (id id' : ObserverId) :
    (left.breaks guard id).1 = (right.breaks guard id').1 ∧
      Linked bond links (left.breaks guard id).2 (right.breaks guard id').2 := by
  obtain ⟨hholds, hevaluated⟩ := h.evaluate guard
  rw [World.breaks, World.breaks]
  dsimp only
  rw [hholds]
  split
  · exact ⟨rfl, hevaluated⟩
  · exact ⟨rfl, (hevaluated.record_left rfl rfl).record_right rfl rfl⟩

theorem isPending_eq {key : String} {id id' : ObserverId}
    (h : Linked bond ({.observer key (some id) (some id')} + more) left right) :
    left.board.isPending id = right.board.isPending id' :=
  (h.agrees _ (Multiset.mem_add.mpr (.inl (Multiset.mem_singleton_self _)))).2.2 id id' rfl rfl

theorem stoppedHolding {key : String} {a b : Option ObserverId} (hsome : a.isSome = b.isSome)
    (h : Linked bond (Link.observers key a b + more) left right) (guard : Guard) :
    (left.stoppedHolding guard a).1 = (right.stoppedHolding guard b).1 ∧
      Linked bond (Link.observers key a b + more) (left.stoppedHolding guard a).2
        (right.stoppedHolding guard b).2 := by
  cases a with
  | none =>
    obtain rfl : b = none := by simpa using hsome
    exact ⟨rfl, h⟩
  | some id =>
    obtain ⟨id', rfl⟩ := Option.isSome_iff_exists.mp hsome.symm
    rw [World.stoppedHolding, World.stoppedHolding]
    rw [h.isPending_eq]
    split
    · exact h.acknowledge.breaks guard id id'
    · exact ⟨rfl, h⟩

theorem startedHolding {key : String} {a b : Option ObserverId} (hsome : a.isSome = b.isSome)
    (h : Linked bond (Link.observers key a b + more) left right) (guard : Guard) :
    (left.startedHolding guard a).1 = (right.startedHolding guard b).1 ∧
      Linked bond (Link.observers key a b + more) (left.startedHolding guard a).2
        (right.startedHolding guard b).2 := by
  cases a with
  | none =>
    obtain rfl : b = none := by simpa using hsome
    exact ⟨rfl, h⟩
  | some id =>
    obtain ⟨id', rfl⟩ := Option.isSome_iff_exists.mp hsome.symm
    rw [World.startedHolding, World.startedHolding]
    rw [h.isPending_eq]
    split
    · exact h.acknowledge.judge guard id id'
    · exact ⟨rfl, h⟩

end Linked

end World

end BehaviorTree
