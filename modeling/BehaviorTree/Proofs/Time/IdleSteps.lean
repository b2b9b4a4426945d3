import BehaviorTree.Proofs.Board.Unwritten
import BehaviorTree.Proofs.Time.TimersOnTime

namespace BehaviorTree

variable {A : Type}

/-- The second board tells none of the observers of the key of a change that was not told on the first
one. What watches the key that did not before was given out in between. -/
structure Board.Hushed (key : String) (before after : Board) : Prop where
  sound : after.Sound
  nextObserver_le : before.nextObserver ≤ after.nextObserver
  known : ∀ subscription ∈ after.observers,
    subscription ∈ before.observers ∨ before.nextObserver ≤ subscription.id.index
  untold : ∀ id, ⟨id, key⟩ ∈ after.observers → after.isPending id = true → before.isPending id = true

namespace Board

variable {board before middle after : Board} {key other : String}

theorem Hushed.trans (h : before.Hushed key middle) (k : middle.Hushed key after) :
    before.Hushed key after where
  sound := k.sound
  nextObserver_le := h.nextObserver_le.trans k.nextObserver_le
  known subscription hmem := by
    obtain hmem | hnew := k.known subscription hmem
    · exact h.known subscription hmem
    · exact .inr (h.nextObserver_le.trans hnew)
  untold id hmem hup := by
    have hmiddle := k.untold id hmem hup
    obtain hmem | hnew := k.known _ hmem
    · exact h.untold id hmem hmiddle
    · exact absurd (h.sound.pending_lt id.index hmiddle) (Nat.not_lt.mpr hnew)

theorem Hushed.refl (h : board.Sound) : board.Hushed key board :=
  ⟨h, Nat.le_refl _, fun _ => .inl, fun _ _ => id⟩

theorem Keeps.hushed (h : before.Keeps after) (hsound : before.Sound)
    (huntold : ∀ id, ⟨id, key⟩ ∈ before.observers → after.isPending id = true →
      before.isPending id = true) : before.Hushed key after := by
  refine ⟨h.sound hsound, Nat.le_of_eq h.nextObserver_eq.symm, ?_, ?_⟩ <;> rw [h.observers_eq]
  · exact fun _ => .inl
  · exact huntold

theorem hushed_acknowledge (hsound : board.Sound) (id : ObserverId) :
    board.Hushed key (board.acknowledge id) := by
  refine (keeps_acknowledge board id).hushed hsound fun other _ hup => ?_
  rw [isPending_acknowledge, Bool.and_eq_true] at hup
  exact hup.1

theorem hushed_evaluate (hsound : board.Sound) (guard : Guard) :
    board.Hushed key (guard.evaluate board).2.1 := by
  refine (keeps_evaluate board guard).hushed hsound fun id _ hup => ?_
  rwa [isPending, (guard.evaluate_board board).2.1] at hup

theorem hushed_readOr {α : Type} (hsound : board.Sound) (read : Value → Option α) (expected : Kind)
    (default : α) : board.Hushed key (board.readOr read expected default other).2.1 := by
  refine (keeps_readOr board read expected default other).hushed hsound fun id _ hup => ?_
  unfold readOr noteMissing at hup
  split at hup
  · exact hup
  · dsimp only at hup
    split at hup <;> exact hup

theorem hushed_subscribe (hsound : board.Sound) : board.Hushed key (board.subscribe other).2 := by
  refine ⟨hsound.subscribe other, Nat.le_succ _, fun subscription hmem => ?_, fun _ _ hup => hup⟩
  obtain hmem | hmem := List.mem_append.mp hmem
  · exact .inl hmem
  · rw [List.mem_singleton.mp hmem]
    exact .inr (Nat.le_refl _)

theorem hushed_unsubscribe (hsound : board.Sound) (id : ObserverId) :
    board.Hushed key (board.unsubscribe id).2 :=
  ⟨hsound.unsubscribe id, Nat.le_refl _, fun _ hmem => .inl (List.mem_filter.mp hmem).1,
    fun _ _ hup => hup⟩

theorem hushed_forget (hsound : board.Sound) (values : Values) (warned : List String) :
    board.Hushed key { board with values, observers := [], warned } :=
  ⟨⟨nofun, hsound.pending_lt, List.nodup_nil⟩, Nat.le_refl _, nofun, nofun⟩

end Board

namespace World

variable {world before middle after : World A}

/-- Between the two worlds no callback ran, no time passed, no observer was told of a change, and the
clock did not run out. -/
structure Idles (before after : World A) : Prop where
  now_eq : after.now = before.now
  overflowed_eq : after.clock.overflowed = before.clock.overflowed
  refreshes_eq : ∀ id, after.refreshes id = before.refreshes id
  hushed : before.board.Sound → ∀ key, before.board.Hushed key after.board

namespace Idles

theorem refl (world : World A) : world.Idles world := ⟨rfl, rfl, fun _ => rfl, fun h _ => .refl h⟩

theorem trans (h : before.Idles middle) (k : middle.Idles after) : before.Idles after where
  now_eq := k.now_eq.trans h.now_eq
  overflowed_eq := k.overflowed_eq.trans h.overflowed_eq
  refreshes_eq id := (k.refreshes_eq id).trans (h.refreshes_eq id)
  hushed hsound key := (h.hushed hsound key).trans (k.hushed (h.hushed hsound key).sound key)

end Idles

theorem idles_record (world : World A) {event : Event} (h : ∀ id, event.refresh? id = none) :
    world.Idles (world.record event) := by
  refine ⟨rfl, rfl, fun id => ?_, fun hsound _ => .refl hsound⟩
  rw [refreshes_record, h, Option.toList_none, List.append_nil]

theorem idles_withBoard {board : Board}
    (h : world.board.Sound → ∀ key, world.board.Hushed key board) :
    world.Idles { world with board } := ⟨rfl, rfl, fun _ => rfl, h⟩

theorem idles_mapAgent (world : World A) (f : A → A) : world.Idles (world.mapAgent f) :=
  ⟨rfl, rfl, fun _ => rfl, fun hsound _ => .refl hsound⟩

theorem idles_evaluate (world : World A) (guard : Guard) :
    world.Idles (world.evaluate guard).2 := by
  have hwrites := writes_evaluate world guard
  refine ⟨congrArg Clock.now hwrites.clock_eq, congrArg Clock.overflowed hwrites.clock_eq,
    hwrites.refreshes_eq, fun hsound key => ?_⟩
  rw [evaluate, board_withReport]
  exact Board.hushed_evaluate hsound guard

theorem idles_readOr {α : Type} (world : World A) (read : Value → Option α) (expected : Kind)
    (default : α) (key : String) : world.Idles (world.withReport
      (world.board.readOr read expected default key).2.1
      (world.board.readOr read expected default key).2.2) := by
  have hwrites := writes_withReport world
    (Board.tells_readOr world.board read expected default key)
    (world.board.readOr read expected default key).2.2
  refine ⟨congrArg Clock.now hwrites.clock_eq, congrArg Clock.overflowed hwrites.clock_eq,
    hwrites.refreshes_eq, fun hsound other => ?_⟩
  rw [board_withReport]
  exact Board.hushed_readOr hsound read expected default

theorem idles_getNumber (world : World A) (key : String) : world.Idles (world.getNumber key).2 :=
  world.idles_readOr _ _ _ key

theorem idles_getBool (world : World A) (key : String) : world.Idles (world.getBool key).2 :=
  world.idles_readOr _ _ _ key

theorem idles_judge (world : World A) (guard : Guard) (id : ObserverId) :
    world.Idles (world.judge guard id).2 :=
  (world.idles_evaluate guard).trans (idles_record _ fun _ => rfl)

theorem idles_acknowledge (world : World A) (id : ObserverId) :
    world.Idles (world.acknowledge id) :=
  idles_withBoard fun hsound _ => Board.hushed_acknowledge hsound id

theorem idles_subscribe (world : World A) (key : String) : world.Idles (world.subscribe key).2 :=
  idles_withBoard fun hsound _ => Board.hushed_subscribe hsound

theorem idles_unsubscribe (world : World A) (id : ObserverId) :
    world.Idles (world.unsubscribe id).2 :=
  idles_withBoard fun hsound _ => Board.hushed_unsubscribe hsound id

theorem idles_observe (world : World A) (observer : Option ObserverId) (key : String) :
    world.Idles (world.observe observer key).2 := by
  cases observer with
  | none => exact (world.idles_subscribe key).trans (idles_acknowledge _ _)
  | some id => exact world.idles_acknowledge id

theorem idles_dismiss? (world : World A) (observer : Option ObserverId) :
    world.Idles (world.dismiss? observer) := by
  cases observer with
  | none => exact .refl world
  | some id =>
    unfold dismiss? dismiss
    dsimp only
    split
    · exact (world.idles_acknowledge id).trans (idles_record _ fun _ => rfl)
    · exact .refl world

theorem discarding_idles : Discarding (World.Idles (A := A)) where
  refl := .refl
  trans := .trans
  dismiss? := idles_dismiss?
  unsubscribe? world observer := by
    cases observer with
    | none => exact .refl world
    | some id => exact world.idles_unsubscribe id
  cancel? world timer := by
    cases timer with
    | none => exact .refl world
    | some id => exact ⟨rfl, rfl, fun _ => rfl, fun hsound _ => .refl hsound⟩

theorem idles_stoppedHolding (world : World A) (guard : Guard) (observer : Option ObserverId) :
    world.Idles (world.stoppedHolding guard observer).2 := by
  cases observer with
  | none => exact .refl world
  | some id =>
    unfold stoppedHolding breaks
    dsimp only
    split
    · have hevaluated := (world.idles_acknowledge id).trans (idles_evaluate _ guard)
      split
      · exact hevaluated
      · exact hevaluated.trans (idles_record _ fun _ => rfl)
    · exact .refl world

theorem idles_startedHolding (world : World A) (guard : Guard) (observer : Option ObserverId) :
    world.Idles (world.startedHolding guard observer).2 := by
  cases observer with
  | none => exact .refl world
  | some id =>
    unfold startedHolding
    dsimp only
    split
    · exact (world.idles_acknowledge id).trans (idles_judge _ guard id)
    · exact .refl world

theorem idles_reset (world : World A) (values : Values) : world.Idles (world.reset values) := by
  have hboard {world : World A} :
      world.Idles { world with board := { world.board.clear with values } } :=
    idles_withBoard fun hsound _ => Board.hushed_forget hsound values []
  unfold reset
  dsimp only
  split
  · exact hboard
  · let left := Event.leftBehind world.clock.timers.length world.board.observers.length
    have hleft : world.Idles (world.record left) := world.idles_record fun _ => rfl
    refine (hleft.trans ?_).trans hboard
    exact ⟨rfl, rfl, fun _ => rfl, fun hsound _ => .refl hsound⟩

end World

namespace Tree

mutual

theorem preempts_idles : (tree : Tree A) → (state : tree.State) → (world : World A) →
    world.Idles (tree.preempts state world).2
  | .action _ _, _, world => .refl world
  | .wait _ _, _, world => .refl world
  | .leaf _, _, world => .refl world
  | .sequence _, _, world => .refl world
  | .selector _, _, world => .refl world
  | .condition guard policy _, state, world => by
    rw [preempts]
    split
    · exact .refl world
    · split
      · exact .refl world
      · exact world.idles_startedHolding guard state.observer
  | .service _ _ _ child, state, world => preemptsOption_idles child state.child world

theorem preemptsOption_idles : (tree : Option (Tree A)) → (state : StateOption tree) →
    (world : World A) → world.Idles (preemptsOption tree state world).2
  | none, _, world => .refl world
  | some tree, state, world => preempts_idles tree state world

end

theorem firstPreempting_idles (trees : List (Tree A)) (limit : Nat) (states : StateList trees)
    (world : World A) : world.Idles (firstPreempting trees limit states world).2 := by
  induction trees generalizing limit world with
  | nil => exact .refl world
  | cons tree trees ih =>
    obtain ⟨state, states⟩ := states
    cases limit with
    | zero => exact .refl world
    | succ limit =>
      have hasked := preempts_idles tree state world
      rw [firstPreempting]
      rcases hpreempts : tree.preempts state world with ⟨_ | preemption, asked⟩ <;>
        rw [hpreempts] at hasked
      · exact hasked.trans (ih limit states asked)
      · exact hasked

theorem arbitrate_idles (children : List (Tree A)) (h : BuiltInList children)
    (state : CompositeState (StateList children)) (world : World A) :
    world.Idles (arbitrate children state world).2.2 := by
  have hasked := firstPreempting_idles children state.current state.children world
  rw [arbitrate]
  rcases hfirst : firstPreempting children state.current state.children world with
    ⟨_ | ⟨winner, preemption⟩, asked⟩ <;> rw [hfirst] at hasked
  · exact hasked
  · have hrecorded : asked.Idles (asked.record (.preempted winner state.current preemption)) :=
      asked.idles_record fun _ => rfl
    exact (hasked.trans hrecorded).trans
      (stopAt_discards World.discarding_idles children h state.current state.children _)

theorem settle_idles (trees : List (Tree A)) (h : BuiltInList trees) (outcome : Outcome)
    (current : Nat) (states : StateList trees) (world : World A) :
    world.Idles (settle trees outcome current states world).2.2 := by
  rw [settle]
  dsimp only
  split
  · exact .refl world
  · exact releaseList_discards World.discarding_idles trees h states world

end Tree

namespace Root

variable {root : Root A}

theorem released_idles (h : root.tree.BuiltIn) : root.world.Idles root.released.world :=
  Tree.release_discards World.discarding_idles root.tree h root.state root.world

theorem stop_idles (h : root.tree.BuiltIn) : root.world.Idles root.stop.world := by
  by_cases hactive : root.active = true
  · rw [root.stop_eq hactive]
    exact (released_idles h).trans (World.idles_reset _ _)
  · rw [stop, if_pos (by simpa using hactive)]
    exact .refl root.world

end Root

end BehaviorTree
