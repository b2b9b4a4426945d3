import BehaviorTree.Proofs.Equivalence.Rewriting
import BehaviorTree.Proofs.Equivalence.Roots

namespace BehaviorTree

variable {A : Type} {tree wrapped : Tree A}

namespace Tree

/-- A child of a composite is put below a service whose callback does nothing. -/
inductive Wraps : Tree A → Tree A → Prop
  | sequence (before after : List (Tree A)) (child : Tree A) (label : String) {interval : Duration}
    {callback : Routine A} (hinterval : interval ≠ 0) (hidle : callback.Idle) :
    Wraps (.sequence (before ++ child :: after))
      (.sequence (before ++ .service label interval callback (some child) :: after))
  | selector (before after : List (Tree A)) (child : Tree A) (label : String) {interval : Duration}
    {callback : Routine A} (hinterval : interval ≠ 0) (hidle : callback.Idle) :
    Wraps (.selector (before ++ child :: after))
      (.selector (before ++ .service label interval callback (some child) :: after))

theorem Wraps.sound (h : Wraps tree wrapped) (hsound : tree.Sound) :
    wrapped.Sound ∧ wrapped.selectorOnlyPolicy = tree.selectorOnlyPolicy := by
  cases h with
  | sequence before after child label hinterval _ =>
    rw [sound_sequence, List.forall_mem_append, List.forall_mem_cons] at hsound ⊢
    obtain ⟨hbefore, ⟨hpolicy, hchild⟩, hafter⟩ := hsound
    exact ⟨⟨hbefore, ⟨hpolicy, sound_service.mpr ⟨hinterval, hchild⟩⟩, hafter⟩, rfl⟩
  | selector before after child label hinterval _ =>
    rw [sound_selector, List.forall_mem_append, List.forall_mem_cons] at hsound ⊢
    obtain ⟨hbefore, hchild, hafter⟩ := hsound
    exact ⟨⟨hbefore, sound_service.mpr ⟨hinterval, hchild⟩, hafter⟩, rfl⟩

theorem Wraps.likeness {bond : Bond} (hloose : bond.strict = false) (h : Wraps tree wrapped)
    (hsound : wrapped.Sound) : Nonempty (Likeness bond wrapped tree) := by
  cases h with
  | sequence before after child label _ hidle =>
    have hchildren := hsound.children_of_sequence
    have hservice := (List.forall_mem_cons.mp (List.forall_mem_append.mp hchildren).2).1
    obtain ⟨likeness⟩ := Sound.likeness child (sound_service.mp hservice).2
    exact (Substitute.among ⟨.unobtrusive likeness label _ hidle hloose⟩ hchildren).sequence
  | selector before after child label _ hidle =>
    have hchildren := sound_selector.mp hsound
    have hservice := (List.forall_mem_cons.mp (List.forall_mem_append.mp hchildren).2).1
    obtain ⟨likeness⟩ := Sound.likeness child (sound_service.mp hservice).2
    exact (Substitute.among ⟨.unobtrusive likeness label _ hidle hloose⟩ hchildren).selector

end Tree

/-- With a child of some sequence or selector put below a service that does nothing, a tree is still
accepted, and shows the host the same, whatever it calls, as long as neither clock comes to the longest
duration. What the service adds is its own timer, which the host does not see. -/
theorem Root.service_unseen (htree : tree.BuiltIn) (hwraps : Tree.Rewrites Tree.Wraps tree wrapped)
    {board : Board} {agent : A} {react : Notice → A → A} {random : Random} {plain : Root A}
    (hsound : board.Sound)
    (hsilent : ∀ notice agent, board.isSubscribed notice.observer = false →
      react notice agent = agent)
    (hplain : Root.withBoard tree board agent react random = .ok plain) :
    ∃ served, Root.withBoard wrapped board agent react random = .ok served ∧
      ∀ calls : List (Call A), (∀ call ∈ calls, call.Plain) →
        (plain.calls calls).world.clock.overflowed = false →
        (served.calls calls).world.clock.overflowed = false →
        Root.SameView (served.calls calls) (plain.calls calls) := by
  obtain ⟨⟨hpolicy, hvalid⟩, rfl⟩ := Root.withBoard_eq_ok.mp hplain
  obtain ⟨hwrapped, hsame⟩ := hwraps.sound Tree.Wraps.sound ⟨htree, hvalid⟩
  rw [Tree.checkOutsideSelector_eq_ok] at hpolicy
  have hserved : Root.withBoard wrapped board agent react random =
      .ok (Root.opened wrapped board agent react random) :=
    Root.withBoard_eq_ok.mpr
      ⟨⟨Tree.checkOutsideSelector_eq_ok.mpr (hsame.trans hpolicy), hwrapped.valid⟩, rfl⟩
  let bond : Bond := ⟨false, board.observers.map (·.id)⟩
  obtain ⟨likeness⟩ : Nonempty (Tree.Likeness bond wrapped tree) :=
    hwraps.flip.likeness (Tree.Wraps.likeness rfl) hwrapped
  refine ⟨_, hserved, fun calls hcalls hfine hfine' => ?_⟩
  exact (Root.SideBySide.calls likeness hwrapped.builtIn htree rfl hsound hsilent hserved hplain calls
    hcalls fun _ => ⟨hfine', hfine⟩).sameView

def watchedWatchman : Tree Nat :=
  .selector [
    .service "watch" 3 .done (some (.condition ⟨"alarm", .isSet, .bool true⟩ .immediateRestart
      (some (.service "look around" 2 (.act (· + 1) .done) (some (.wait 10 0)))))),
    .wait 5 0]

theorem watchman_unseen :
    let calls := [.start, .tick, .set "alarm" (.bool true), .update 1, .advance 6, .remove "alarm", .tick]
    ∃ served, Root.withBoard watchedWatchman {} 0 = .ok served ∧
      Root.SameView (served.calls calls) (watchman.session.root.calls calls) ∧
      (watchman.session.root.calls calls).world.agent = 4 := by
  intro calls
  have hwraps : Tree.Rewrites Tree.Wraps watchman watchedWatchman :=
    .here (.selector [] [.wait 5 0] _ "watch" (by decide) fun _ => rfl)
  obtain ⟨served, hserved, hsame⟩ := Root.service_unseen watchman.builtIn hwraps
    (Board.sound_ofValues .empty) (fun _ _ _ => rfl) watchman.withBoard_eq
  have hcalls : ∀ call ∈ calls, call.Plain := by simp [calls, Call.Plain]
  have hfine : (watchman.session.root.calls calls).world.clock.overflowed = false := by decide +kernel
  have hfine' : (served.calls calls).world.clock.overflowed = false := by
    obtain ⟨-, rfl⟩ := Root.withBoard_eq_ok.mp hserved
    decide +kernel
  exact ⟨served, hserved, hsame calls hcalls hfine hfine', by decide +kernel⟩

end BehaviorTree
