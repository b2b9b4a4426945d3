import BehaviorTree.Proofs.Lifecycle.Visits
import BehaviorTree.Proofs.Conditions.Watching
import Mathlib.Data.List.ReduceOption

/-!
A child that is a condition, directly or below services, is stopped right after the tick in which it
ends, and nothing is written in between. So if its guard did not hold at the last evaluation, no change
goes by unseen from then on: `Keeper.Heard`. This lasts for all children before the one whose turn it
is, `Tree.Alert`, whatever starts, ticks and stops meanwhile.
-/

namespace BehaviorTree

variable {A : Type}

namespace World

variable {world before middle after : World A} {guard : Guard} {id : ObserverId}

/-- If the guard did not hold at the last evaluation, no change has gone by unseen since. -/
def Attentive (world : World A) (id : ObserverId) : Prop :=
  world.lastVerdict id = some false → ¬world.Dismissed id

/-- If the guard did not hold at the last evaluation, there was no change since. -/
def Settled (world : World A) (id : ObserverId) : Prop :=
  world.lastVerdict id = some false → ¬world.Dismissed id ∧ world.board.isPending id = false

theorem lastVerdict_of_head {holds : Bool} (h : (world.looks id).head? = some (some holds)) :
    world.lastVerdict id = some holds := by
  obtain ⟨rest, hlooks⟩ := List.head?_eq_some_iff.mp h
  rw [lastVerdict, hlooks, List.reduceOption_cons_of_some, List.head?_cons]

theorem not_dismissed_of_head {holds : Bool} (h : (world.looks id).head? = some (some holds)) :
    ¬world.Dismissed id := by
  rw [Dismissed, h]
  simp

theorem head_of_lastVerdict {holds : Bool} (hverdict : world.lastVerdict id = some holds)
    (h : ¬world.Dismissed id) : (world.looks id).head? = some (some holds) := by
  rw [Dismissed] at h
  rw [lastVerdict] at hverdict
  rcases hlooks : world.looks id with _ | ⟨_ | seen, rest⟩ <;> rw [hlooks] at h hverdict
  · cases hverdict
  · exact absurd rfl h
  · rw [List.reduceOption_cons_of_some, List.head?_cons] at hverdict
    rw [List.head?_cons, hverdict]

theorem Attentive.of_looks (h : before.Attentive id) (hlooks : after.looks id = before.looks id) :
    after.Attentive id := by
  rw [Attentive, lastVerdict, Dismissed, hlooks]
  exact h

theorem attentive_of_head {holds : Bool} (h : (world.looks id).head? = some (some holds)) :
    world.Attentive id := fun _ => not_dismissed_of_head h

theorem settled_of_head (h : (world.looks id).head? = some (some true)) : world.Settled id := by
  intro hverdict
  rw [lastVerdict_of_head h] at hverdict
  cases hverdict

theorem settled_judge (guard : Guard) (h : world.board.isPending id = false) :
    (world.judge guard id).2.Settled id := by
  have hhead : ((world.judge guard id).2.looks id).head? = some (some (guard.holds world.board)) := by
    rw [looks_judge, List.head?_cons]
  exact fun _ => ⟨not_dismissed_of_head hhead, (isPending_evaluate world guard id).trans h⟩

theorem isPending_acknowledge_self (world : World A) (id : ObserverId) :
    (world.acknowledge id).board.isPending id = false := by
  simp [acknowledge, Board.isPending_acknowledge]

theorem isPending_observe (world : World A) (observer : Option ObserverId) (key : String) :
    (world.observe observer key).2.board.isPending (world.observe observer key).1 = false := by
  cases observer <;> exact isPending_acknowledge_self _ _

/-- Taking down a flag that is down already is no look. -/
theorem Settled.dismiss (h : world.Settled id) : (world.dismiss id).Attentive id := by
  unfold World.dismiss
  split
  · rename_i hup
    intro hverdict
    rw [lastVerdict, looks_record, Event.look?, if_pos rfl, Option.toList_some, List.singleton_append,
      List.reduceOption_cons_of_none] at hverdict
    exact absurd (hup.symm.trans (h hverdict).2) (by simp)
  · exact fun hverdict => (h hverdict).1

theorem settled_stoppedHolding (h : (world.stoppedHolding guard (some id)).1 = true) :
    (world.stoppedHolding guard (some id)).2.Settled id := by
  unfold World.stoppedHolding at h ⊢
  dsimp only at h ⊢
  split at h
  · rename_i hup
    rw [if_pos hup]
    cases hholds : guard.holds (world.acknowledge id).board with
    | true =>
      rw [breaks_of_holds hholds] at h
      cases h
    | false =>
      rw [breaks_of_not_holds hholds]
      exact settled_judge guard (isPending_acknowledge_self world id)
  · cases h

theorem Attentive.startedHolding (h : world.Attentive id) :
    (world.startedHolding guard (some id)).2.Attentive id := by
  unfold World.startedHolding
  dsimp only
  split
  · exact attentive_of_head (by rw [looks_judge, List.head?_cons])
  · exact h

/-- Between the two worlds no flag went up. -/
def Still (before after : World A) : Prop :=
  ∀ id, before.board.isPending id = false → after.board.isPending id = false

theorem Still.refl (world : World A) : world.Still world := fun _ h => h

theorem Still.trans (h : before.Still middle) (k : middle.Still after) : before.Still after :=
  fun id hdown => k id (h id hdown)

theorem still_dismiss? (world : World A) (observer : Option ObserverId) :
    world.Still (world.dismiss? observer) := by
  cases observer with
  | none => exact .refl world
  | some id =>
    intro other hdown
    rw [dismiss?, dismiss]
    split
    · exact (Board.isPending_acknowledge _ _ _).trans (by rw [hdown, Bool.false_and])
    · exact hdown

theorem still_unsubscribe? (world : World A) (observer : Option ObserverId) :
    world.Still (world.unsubscribe? observer) := by
  cases observer <;> exact fun _ hdown => hdown

theorem still_cancel? (world : World A) (timer : Option TimerId) :
    world.Still (world.cancel? timer) := by
  cases timer <;> exact fun _ hdown => hdown

theorem Settled.still (h : before.Settled id) (hlooks : after.looks id = before.looks id)
    (hstill : before.Still after) : after.Settled id := by
  rw [Settled, lastVerdict, Dismissed, hlooks]
  exact fun hverdict => ⟨(h hverdict).1, hstill id (h hverdict).2⟩

end World

namespace Tree

mutual

theorem stop_still : (tree : Tree A) → (state : tree.State) → (world : World A) → tree.Fit state →
    world.Still (tree.stop state world).2
  | .action _ _, _, world, _ => .refl world
  | .wait _ _, _, world, _ => .refl world
  | .sequence children, state, world, h => by
    rw [fit_sequence] at h
    rw [stop]
    split
    · exact .refl world
    · exact stopAt_still children state.current state.children world h.fitAt
  | .selector children, state, world, h => by
    rw [fit_selector] at h
    rw [stop]
    split
    · exact .refl world
    · exact stopAt_still children state.current state.children world h.fitAt
  | .condition guard policy child, state, world, h => by
    rw [Fit] at h
    rcases hbelow : (if state.status = .inactive then (state.child, world)
      else stopOption child state.child world) with ⟨below, stopped⟩
    have hstill : world.Still stopped := by
      split at hbelow
      · cases hbelow
        exact .refl world
      · simpa only [hbelow] using stopOption_still child state.child world h.1
    have hdismissed := hstill.trans (World.still_dismiss? stopped state.observer)
    rw [stop_condition guard policy child state world hbelow]
    split
    · exact hdismissed.trans (World.still_unsubscribe? _ _)
    · exact hdismissed
  | .service label interval callback child, state, world, h => by
    rw [Fit] at h
    have hcancelled := World.still_cancel? world state.timer
    rw [stop_service]
    split
    · exact hcancelled
    · exact hcancelled.trans (stopOption_still child state.child _ h.1)

theorem stopAt_still : (trees : List (Tree A)) → (i : Nat) → (states : StateList trees) →
    (world : World A) → FitAt trees i states → world.Still (stopAt trees i states world).2
  | [], _, _, world, _ => .refl world
  | tree :: _, 0, (state, _), world, h => stop_still tree state world h.1
  | _ :: trees, i + 1, (_, states), world, h => stopAt_still trees i states world h.2

theorem stopOption_still : (tree : Option (Tree A)) → (state : StateOption tree) →
    (world : World A) → FitOption tree state → world.Still (stopOption tree state world).2
  | none, _, world, _ => .refl world
  | some tree, state, world, h => stop_still tree state world h

end

end Tree

namespace Keeper

variable {world before after : World A}

def Idle : Keeper → Prop
  | .condition _ _ status _ => status = .inactive
  | .service _ status _ => status = .inactive

def Going : Keeper → Prop
  | .condition _ _ status _ => status.outcome? = none
  | .service _ status _ => status.outcome? = none

/-- The condition watches its key, and there was no change since it found that its guard does not
hold. -/
def Settled (world : World A) : Keeper → Prop
  | .condition _ _ _ observer => ∃ id, observer = some id ∧ world.Settled id
  | .service _ _ _ => True

/-- A condition that may take over watches its key, and no change went by unseen since it found that its
guard does not hold. -/
def Heard (world : World A) : Keeper → Prop
  | .condition _ policy _ observer =>
    policy.preemption? ≠ none → ∃ id, observer = some id ∧ world.Attentive id
  | .service _ _ _ => True

theorem Idle.going {keeper : Keeper} (h : keeper.Idle) : keeper.Going := by
  cases keeper with
  | condition | service =>
    cases h
    rfl

theorem Heard.untouched {keeper : Keeper}
    (huntouched : ∀ handle ∈ keeper.handles, before.Untouched after handle)
    (h : keeper.Heard before) : keeper.Heard after := by
  cases keeper with
  | service => exact trivial
  | condition guard policy status observer =>
    intro hpolicy
    obtain ⟨id, rfl, hattentive⟩ := h hpolicy
    exact ⟨id, rfl, hattentive.of_looks (huntouched (.observer id) (Multiset.mem_singleton_self _)).1⟩

theorem Settled.heard {keeper : Keeper} (h : keeper.Settled world) : keeper.Heard world := by
  cases keeper with
  | service => exact trivial
  | condition guard policy status observer =>
    obtain ⟨id, hobserver, hsettled⟩ := h
    exact fun _ => ⟨id, hobserver, fun hverdict => (hsettled hverdict).1⟩

end Keeper

namespace Tree

mutual

/-- The condition that answers for the node when it is asked whether it takes over, and the services
that hand the question down to it. -/
def front : (tree : Tree A) → tree.State → List Keeper
  | .action _ _, _ => []
  | .wait _ _, _ => []
  | .leaf _, _ => []
  | .sequence _, _ => []
  | .selector _, _ => []
  | .condition _ _ none, _ => []
  | .condition guard policy (some _), state =>
    [.condition guard policy state.status state.observer]
  | .service _ interval _ child, state =>
    .service interval state.status state.timer :: frontOption child state.child

def frontOption : (tree : Option (Tree A)) → StateOption tree → List Keeper
  | none, _ => []
  | some tree, state => tree.front state

end

mutual

theorem mem_keepers_of_front : (tree : Tree A) → {state : tree.State} →
    ∀ keeper ∈ tree.front state, keeper ∈ tree.keepers state
  | .action _ _, _ => List.forall_mem_nil _
  | .wait _ _, _ => List.forall_mem_nil _
  | .leaf _, _ => List.forall_mem_nil _
  | .sequence _, _ => List.forall_mem_nil _
  | .selector _, _ => List.forall_mem_nil _
  | .condition _ _ none, _ => List.forall_mem_nil _
  | .condition _ _ (some _), _ =>
    List.forall_mem_singleton.mpr (Multiset.mem_add.mpr (.inl (Multiset.mem_singleton_self _)))
  | .service _ _ _ child, _ =>
    List.forall_mem_cons.mpr ⟨Multiset.mem_add.mpr (.inl (Multiset.mem_singleton_self _)),
      fun keeper hmem => Multiset.mem_add.mpr (.inr (mem_keepers_of_frontOption child keeper hmem))⟩

theorem mem_keepers_of_frontOption : (tree : Option (Tree A)) → {state : StateOption tree} →
    ∀ keeper ∈ frontOption tree state, keeper ∈ keepersOption tree state
  | none, _ => List.forall_mem_nil _
  | some tree, _ => mem_keepers_of_front tree

end

def Heard (tree : Tree A) (state : tree.State) (world : World A) : Prop :=
  ∀ keeper ∈ tree.front state, keeper.Heard world

theorem Heard.untouched {tree : Tree A} {state : tree.State} {before after : World A}
    (huntouched : ∀ handle ∈ tree.handles state, before.Untouched after handle)
    (h : tree.Heard state before) : tree.Heard state after := by
  intro keeper hkeeper
  refine (h keeper hkeeper).untouched fun handle hhandle => huntouched handle ?_
  rw [← ofKeepers_keepers]
  exact Handle.mem_ofKeepers (mem_keepers_of_front tree keeper hkeeper) hhandle

mutual

theorem Quiet.idle : (tree : Tree A) → {state : tree.State} → tree.Quiet state →
    ∀ keeper ∈ tree.front state, keeper.Idle
  | .action _ _, _, _ => List.forall_mem_nil _
  | .wait _ _, _, _ => List.forall_mem_nil _
  | .leaf _, _, _ => List.forall_mem_nil _
  | .sequence _, _, _ => List.forall_mem_nil _
  | .selector _, _, _ => List.forall_mem_nil _
  | .condition _ _ none, _, _ => List.forall_mem_nil _
  | .condition _ _ (some _), _, h => List.forall_mem_singleton.mpr h.1
  | .service _ _ _ child, _, h => List.forall_mem_cons.mpr ⟨h.1, QuietOption.idle child h.2.2⟩

theorem QuietOption.idle : (tree : Option (Tree A)) → {state : StateOption tree} →
    QuietOption tree state → ∀ keeper ∈ frontOption tree state, keeper.Idle
  | none, _, _ => List.forall_mem_nil _
  | some tree, _, h => Quiet.idle tree h

end

mutual

/-- In each running composite, the children before the one whose turn it is are heard, and the front of
that one has not ended. -/
def Alert : (tree : Tree A) → tree.State → World A → Prop
  | .action _ _, _, _ => True
  | .wait _ _, _, _ => True
  | .leaf _, _, _ => True
  | .sequence children, state, world =>
    state.status = .running → AlertAt children state.current state.children world
  | .selector children, state, world =>
    state.status = .running → AlertAt children state.current state.children world
  | .condition _ _ child, state, world => AlertOption child state.child world
  | .service _ _ _ child, state, world => AlertOption child state.child world

def AlertAt : (trees : List (Tree A)) → Nat → StateList trees → World A → Prop
  | [], _, _, _ => True
  | tree :: _, 0, (state, _), world =>
    (∀ keeper ∈ tree.front state, keeper.Going) ∧ tree.Alert state world
  | tree :: trees, i + 1, (state, states), world =>
    tree.Heard state world ∧ AlertAt trees i states world

def AlertOption : (tree : Option (Tree A)) → StateOption tree → World A → Prop
  | none, _, _ => True
  | some tree, state, world => tree.Alert state world

end

mutual

theorem Alert.untouched : (tree : Tree A) → {state : tree.State} → {before after : World A} →
    (∀ handle ∈ tree.handles state, before.Untouched after handle) → tree.Alert state before →
    tree.Alert state after
  | .action _ _, _, _, _, _, _ => trivial
  | .wait _ _, _, _, _, _, _ => trivial
  | .leaf _, _, _, _, _, _ => trivial
  | .sequence children, _, _, _, huntouched, h => fun hrun =>
    AlertAt.untouched children huntouched (h hrun)
  | .selector children, _, _, _, huntouched, h => fun hrun =>
    AlertAt.untouched children huntouched (h hrun)
  | .condition _ _ child, _, _, _, huntouched, h =>
    AlertOption.untouched child (fun handle hmem =>
      huntouched handle (Multiset.mem_add.mpr (.inr hmem))) h
  | .service _ _ _ child, _, _, _, huntouched, h =>
    AlertOption.untouched child (fun handle hmem =>
      huntouched handle (Multiset.mem_add.mpr (.inr hmem))) h

theorem AlertAt.untouched : (trees : List (Tree A)) → {i : Nat} → {states : StateList trees} →
    {before after : World A} →
    (∀ handle ∈ handlesList trees states, before.Untouched after handle) →
    AlertAt trees i states before → AlertAt trees i states after
  | [], _, _, _, _, _, _ => trivial
  | tree :: _, 0, (_, _), _, _, huntouched, h => ⟨h.1, Alert.untouched tree (fun handle hmem =>
      huntouched handle (Multiset.mem_add.mpr (.inl hmem))) h.2⟩
  | _ :: trees, _ + 1, (_, _), _, _, huntouched, h =>
    ⟨h.1.untouched fun handle hmem => huntouched handle (Multiset.mem_add.mpr (.inl hmem)),
      AlertAt.untouched trees (fun handle hmem =>
        huntouched handle (Multiset.mem_add.mpr (.inr hmem))) h.2⟩

theorem AlertOption.untouched : (tree : Option (Tree A)) → {state : StateOption tree} →
    {before after : World A} →
    (∀ handle ∈ handlesOption tree state, before.Untouched after handle) →
    AlertOption tree state before → AlertOption tree state after
  | none, _, _, _, _, _ => trivial
  | some tree, _, _, _, huntouched, h => Alert.untouched tree huntouched h

end

mutual

theorem Quiet.alert : (tree : Tree A) → {state : tree.State} → tree.Quiet state →
    (world : World A) → tree.Alert state world
  | .action _ _, _, _, _ => trivial
  | .wait _ _, _, _, _ => trivial
  | .leaf _, _, _, _ => trivial
  | .sequence _, _, h, _ => fun hrun => absurd (h.1.symm.trans hrun) (by simp)
  | .selector _, _, h, _ => fun hrun => absurd (h.1.symm.trans hrun) (by simp)
  | .condition _ _ child, _, h, world => QuietOption.alert child h.2 world
  | .service _ _ _ child, _, h, world => QuietOption.alert child h.2.2 world

theorem QuietOption.alert : (tree : Option (Tree A)) → {state : StateOption tree} →
    QuietOption tree state → (world : World A) → AlertOption tree state world
  | none, _, _, _ => trivial
  | some tree, _, h, world => Quiet.alert tree h world

end

theorem QuietList.alert {trees : List (Tree A)} {states : StateList trees}
    (h : QuietList trees states) (world : World A) : AlertAt trees 0 states world := by
  cases trees with
  | nil => trivial
  | cons tree trees =>
    exact ⟨fun keeper hmem => (Quiet.idle tree h.1 keeper hmem).going, Quiet.alert tree h.1 world⟩

theorem AlertAt.ofList {trees : List (Tree A)} {current : Nat} {states : StateList trees}
    {world : World A} (hfit : FitAt trees current states) (h : AlertAt trees current states world) :
    ∀ child ∈ Subtree.ofList trees states, child.tree.Alert child.state world := by
  induction trees generalizing current with
  | nil => exact List.forall_mem_nil _
  | cons tree trees ih =>
    obtain ⟨state, states⟩ := states
    cases current with
    | zero =>
      refine List.forall_mem_cons.mpr ⟨h.2, fun child hchild => ?_⟩
      exact Quiet.alert child.tree (Subtree.quiet_ofList hfit.2 child hchild) world
    | succ current => exact List.forall_mem_cons.mpr ⟨Quiet.alert tree hfit.1 world, ih hfit.2 h.2⟩

theorem AlertOption.ofOption {tree : Option (Tree A)} {state : StateOption tree} {world : World A}
    (h : AlertOption tree state world) :
    ∀ child ∈ Subtree.ofOption tree state, child.tree.Alert child.state world := by
  cases tree with
  | none => exact List.forall_mem_nil _
  | some tree => exact List.forall_mem_singleton.mpr h

end Tree

namespace Subtree

variable {node lower : Subtree A} {position : List Nat} {world : World A}

theorem Fit.alert_children (hfit : node.Fit) (h : node.tree.Alert node.state world) :
    ∀ child ∈ node.children, child.tree.Alert child.state world := by
  obtain ⟨tree, state⟩ := node
  cases tree with
  | action _ _ | wait _ _ | leaf _ => exact List.forall_mem_nil _
  | sequence _ | selector _ =>
    by_cases hrun : state.status = .running
    · exact (h hrun).ofList (hfit.1 hrun).1
    · intro child hchild
      exact Tree.Quiet.alert child.tree (quiet_ofList (hfit.2 hrun) child hchild) world
  | condition _ _ _ | service _ _ _ _ => exact Tree.AlertOption.ofOption h

theorem Fit.alert_below (hfit : node.Fit) (h : node.tree.Alert node.state world)
    (hlower : node.at? position = some lower) : lower.tree.Alert lower.state world := by
  have hdown : lower.Fit ∧ lower.tree.Alert lower.state world :=
    hand_down (motive := fun node => node.Fit ∧ node.tree.Alert node.state world)
      (fun _ hnode child hchild =>
        ⟨hnode.1.children child hchild, hnode.1.alert_children hnode.2 child hchild⟩)
      ⟨hfit, h⟩ hlower
  exact hdown.2

end Subtree

end BehaviorTree
