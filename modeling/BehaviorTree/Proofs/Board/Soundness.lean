import BehaviorTree.Root

namespace BehaviorTree

/-- What holds of every board that was made by the operations of boards. -/
structure Board.Sound (board : Board) : Prop where
  observers_lt : ∀ subscription ∈ board.observers, subscription.id.index < board.nextObserver
  pending_lt : ∀ i, board.pending.isRaised i = true → i < board.nextObserver
  distinct : (board.observers.map (·.id)).Nodup

/-- The second board has the observers of the first, and may have told some of them of a change. -/
structure Board.Keeps (before after : Board) : Prop where
  observers_eq : after.observers = before.observers
  nextObserver_eq : after.nextObserver = before.nextObserver
  pending : ∀ i, after.pending.isRaised i = true →
    before.pending.isRaised i = true ∨ ∃ subscription ∈ before.observers, subscription.id.index = i

namespace Board

variable {board before after : Board}

theorem Keeps.refl (board : Board) : board.Keeps board := ⟨rfl, rfl, fun _ h => .inl h⟩

theorem Keeps.sound (h : before.Keeps after) (hs : before.Sound) : after.Sound := by
  refine ⟨?_, ?_, ?_⟩
  · rw [h.observers_eq, h.nextObserver_eq]
    exact hs.observers_lt
  · intro i hi
    rw [h.nextObserver_eq]
    obtain hi | ⟨subscription, hmem, rfl⟩ := h.pending i hi
    · exact hs.pending_lt i hi
    · exact hs.observers_lt subscription hmem
  · rw [h.observers_eq]
    exact hs.distinct

theorem sound_ofValues (values : Values) : (ofValues values).Sound := by
  refine ⟨?_, ?_, ?_⟩ <;> simp [ofValues]

theorem isRaised_raiseAll (flags : Flags) (ids : List ObserverId) (i : Nat) :
    (raiseAll flags ids).isRaised i = true ↔
      flags.isRaised i = true ∨ ∃ id ∈ ids, id.index = i := by
  induction ids generalizing flags with
  | nil => simp [raiseAll]
  | cons id ids ih =>
    have hstep := ih (flags.raise id.index)
    simp only [raiseAll, List.foldl_cons] at hstep ⊢
    rw [hstep, Flags.isRaised_raise, Bool.or_eq_true, decide_eq_true_eq, or_assoc]
    simp only [List.mem_cons, exists_eq_or_imp, eq_comm (a := i)]

theorem keeps_replace (board : Board) (key : String) (new : Option Value) :
    board.Keeps (board.replace key new).1 := by
  refine ⟨rfl, rfl, fun i hi => ?_⟩
  obtain hi | ⟨id, hid, rfl⟩ := (isRaised_raiseAll _ _ i).mp hi
  · exact .inl hi
  · obtain ⟨subscription, hmem, rfl⟩ := List.mem_map.mp hid
    exact .inr ⟨subscription, (List.mem_filter.mp hmem).1, rfl⟩

theorem keeps_set (board : Board) (key : String) (value : Value) :
    board.Keeps (board.set key value).2.1 := by
  unfold set
  split
  · exact .refl board
  · exact keeps_replace board key _

theorem keeps_remove (board : Board) (key : String) : board.Keeps (board.remove key).2.1 := by
  unfold remove
  split
  · exact .refl board
  · exact keeps_replace board key _

theorem keeps_noteMissing (board : Board) (key : String) (expected : Kind) :
    board.Keeps (board.noteMissing key expected).1 := by
  unfold noteMissing
  split
  · exact .refl board
  · exact ⟨rfl, rfl, fun _ h => .inl h⟩

theorem keeps_readOr {α : Type} (board : Board) (read : Value → Option α) (expected : Kind)
    (default : α) (key : String) : board.Keeps (board.readOr read expected default key).2.1 := by
  unfold readOr
  split
  · exact .refl board
  · exact keeps_noteMissing board key expected

theorem keeps_acknowledge (board : Board) (id : ObserverId) : board.Keeps (board.acknowledge id) := by
  refine ⟨rfl, rfl, fun i hi => .inl ?_⟩
  simp only [acknowledge, Flags.isRaised_lower, Bool.and_eq_true] at hi
  exact hi.1

theorem keeps_evaluate (board : Board) (guard : Guard) : board.Keeps (guard.evaluate board).2.1 := by
  unfold Guard.evaluate
  split
  · exact .refl board
  · exact .refl board
  · exact keeps_noteMissing board _ _
  · split
    · exact .refl board
    · exact keeps_noteMissing board _ _

theorem isSubscribed_iff (board : Board) (id : ObserverId) :
    board.isSubscribed id = true ↔ ∃ subscription ∈ board.observers, subscription.id = id := by
  simp [isSubscribed]

theorem isSubscribed_subscribe (board : Board) (key : String) (id : ObserverId) :
    (board.subscribe key).2.isSubscribed id = true ↔
      board.isSubscribed id = true ∨ id = (board.subscribe key).1 := by
  simp [isSubscribed, subscribe, eq_comm (a := id)]

theorem isSubscribed_unsubscribe (board : Board) (id other : ObserverId) :
    (board.unsubscribe id).2.isSubscribed other = true ↔
      board.isSubscribed other = true ∧ other ≠ id := by
  simp only [isSubscribed_iff, unsubscribe, List.mem_filter, ne_eq, decide_not, Bool.not_eq_true',
    decide_eq_false_iff_not]
  constructor
  · rintro ⟨subscription, ⟨hmem, hne⟩, rfl⟩
    exact ⟨⟨subscription, hmem, rfl⟩, hne⟩
  · rintro ⟨⟨subscription, hmem, rfl⟩, hne⟩
    exact ⟨subscription, ⟨hmem, hne⟩, rfl⟩

theorem Sound.subscribe (h : board.Sound) (key : String) : (board.subscribe key).2.Sound := by
  refine ⟨?_, ?_, ?_⟩
  · intro subscription hmem
    obtain hmem | hmem := List.mem_append.mp hmem
    · exact Nat.lt_succ_of_lt (h.observers_lt subscription hmem)
    · rw [List.mem_singleton.mp hmem]
      exact Nat.lt_succ_self _
  · exact fun i hi => Nat.lt_succ_of_lt (h.pending_lt i hi)
  · have hnew : (⟨board.nextObserver⟩ : ObserverId) ∉ board.observers.map (·.id) := by
      intro hmem
      obtain ⟨subscription, hmem, heq⟩ := List.mem_map.mp hmem
      have hlt := h.observers_lt subscription hmem
      rw [heq] at hlt
      exact Nat.lt_irrefl _ hlt
    simp only [Board.subscribe, List.map_append, List.map_cons, List.map_nil]
    exact List.nodup_append.mpr ⟨h.distinct, by simp, fun a ha b hb heq =>
      hnew (List.mem_singleton.mp hb ▸ heq ▸ ha)⟩

theorem Sound.unsubscribe (h : board.Sound) (id : ObserverId) : (board.unsubscribe id).2.Sound := by
  refine ⟨?_, h.pending_lt, ?_⟩
  · exact fun subscription hmem => h.observers_lt subscription (List.mem_filter.mp hmem).1
  · exact h.distinct.sublist (List.filter_sublist.map _)

end Board

end BehaviorTree
