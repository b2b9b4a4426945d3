import BehaviorTree.Proofs.Equivalence.LinkedObservers
import BehaviorTree.Proofs.Equivalence.LinkedTimers

namespace BehaviorTree

variable {A : Type} {S S' X X' : Type} {bond : Bond} {links more : Multiset Link}

/-- How two states may go together, and the links of their worlds. -/
abbrev Tie (S S' : Type) := S → S' → Multiset Link → Prop

/-- Two states that go together, and their worlds, which are linked. Others have the links `more`. -/
def Beside (bond : Bond) (tie : Tie S S') (more : Multiset Link) (here : S × World A)
    (there : S' × World A) : Prop :=
  ∃ links, tie here.1 there.1 links ∧ World.Linked bond (links + more) here.2 there.2

def Both (tie : Tie S S') (rest : Tie X X') : Tie (S × X) (S' × X') := fun here there links =>
  ∃ first second, links = first + second ∧ tie here.1 there.1 first ∧ rest here.2 there.2 second

namespace Beside

variable {tie tie' : Tie S S'} {rest : Tie X X'} {here : S × World A} {there : S' × World A}
variable {state : S} {state' : S'} {states : X} {states' : X'} {world world' : World A}

theorem mono (h : Beside bond tie more here there)
    (himp : ∀ links, tie here.1 there.1 links → tie' here.1 there.1 links) :
    Beside bond tie' more here there := by
  obtain ⟨links, htie, hlinked⟩ := h
  exact ⟨links, himp links htie, hlinked⟩

theorem first (h : Beside bond (Both tie rest) more ((state, states), world) ((state', states'), world')) :
    ∃ links, rest states states' links ∧
      Beside bond tie (links + more) (state, world) (state', world') := by
  obtain ⟨_, ⟨first, second, rfl, htie, hrest⟩, hlinked⟩ := h
  rw [add_assoc] at hlinked
  exact ⟨second, hrest, first, htie, hlinked⟩

theorem of_first (hrest : rest states states' links)
    (h : Beside bond tie (links + more) (state, world) (state', world')) :
    Beside bond (Both tie rest) more ((state, states), world) ((state', states'), world') := by
  obtain ⟨first, htie, hlinked⟩ := h
  rw [← add_assoc] at hlinked
  exact ⟨first + links, ⟨first, links, rfl, htie, hrest⟩, hlinked⟩

theorem second (h : Beside bond (Both tie rest) more ((state, states), world) ((state', states'), world')) :
    ∃ links, tie state state' links ∧
      Beside bond rest (links + more) (states, world) (states', world') := by
  obtain ⟨_, ⟨first, second, rfl, htie, hrest⟩, hlinked⟩ := h
  rw [add_comm first, add_assoc] at hlinked
  exact ⟨first, htie, second, hrest, hlinked⟩

theorem of_second (htie : tie state state' links)
    (h : Beside bond rest (links + more) (states, world) (states', world')) :
    Beside bond (Both tie rest) more ((state, states), world) ((state', states'), world') := by
  obtain ⟨second, hrest, hlinked⟩ := h
  rw [← add_assoc, add_comm second] at hlinked
  exact ⟨links + second, ⟨links, second, rfl, htie, hrest⟩, hlinked⟩

end Beside

/-- How states rest: which do so, what their leaves remember, and the observers that nobody asks. -/
structure Rest (S : Type) where
  Quiet : S → Prop
  leaves : S → List (ActionState ⊕ WaitState)
  loose : S → Multiset Link

def Rest.prod (first : Rest S) (second : Rest X) : Rest (S × X) where
  Quiet states := first.Quiet states.1 ∧ second.Quiet states.2
  leaves states := first.leaves states.1 ++ second.leaves states.2
  loose states := first.loose states.1 + second.loose states.2

namespace Tree

mutual

def leaves : (tree : Tree A) → tree.State → List (ActionState ⊕ WaitState)
  | .action _ _, state => [.inl state]
  | .wait _ _, state => [.inr state]
  | .leaf _, _ => []
  | .sequence children, state => leavesList children state.children
  | .selector children, state => leavesList children state.children
  | .condition _ _ child, state => leavesOption child state.child
  | .service _ _ _ child, state => leavesOption child state.child

def leavesList : (trees : List (Tree A)) → StateList trees → List (ActionState ⊕ WaitState)
  | [], _ => []
  | tree :: trees, (state, states) => tree.leaves state ++ leavesList trees states

def leavesOption : (tree : Option (Tree A)) → StateOption tree → List (ActionState ⊕ WaitState)
  | none, _ => []
  | some tree, state => tree.leaves state

end

mutual

/-- The observers of the conditions, none of which is paired with another. -/
def loose : (tree : Tree A) → tree.State → Multiset Link
  | .action _ _, _ => 0
  | .wait _ _, _ => 0
  | .leaf _, _ => 0
  | .sequence children, state => looseList children state.children
  | .selector children, state => looseList children state.children
  | .condition guard _ child, state =>
    Link.observers guard.key state.observer none + looseOption child state.child
  | .service _ _ _ child, state => looseOption child state.child

def looseList : (trees : List (Tree A)) → StateList trees → Multiset Link
  | [], _ => 0
  | tree :: trees, (state, states) => tree.loose state + looseList trees states

def looseOption : (tree : Option (Tree A)) → StateOption tree → Multiset Link
  | none, _ => 0
  | some tree, state => tree.loose state

end

def rest (tree : Tree A) : Rest tree.State := ⟨tree.Quiet, tree.leaves, tree.loose⟩

def restList (trees : List (Tree A)) : Rest (StateList trees) :=
  ⟨QuietList trees, leavesList trees, looseList trees⟩

def restOption (tree : Option (Tree A)) : Rest (StateOption tree) :=
  ⟨QuietOption tree, leavesOption tree, looseOption tree⟩

theorem restList_cons (tree : Tree A) (trees : List (Tree A)) :
    restList (tree :: trees) = tree.rest.prod (restList trees) := rfl

mutual

theorem timer_not_mem_loose : (tree : Tree A) → (state : tree.State) → ∀ a b,
    Link.timer a b ∉ tree.loose state
  | .action _ _, _ => fun _ _ => Multiset.notMem_zero _
  | .wait _ _, _ => fun _ _ => Multiset.notMem_zero _
  | .leaf _, _ => fun _ _ => Multiset.notMem_zero _
  | .sequence children, state => timer_not_mem_looseList children state.children
  | .selector children, state => timer_not_mem_looseList children state.children
  | .condition guard _ child, state => fun a b hmem => by
    obtain hmem | hmem := Multiset.mem_add.mp hmem
    · cases hobserver : state.observer with
      | none => exact Multiset.notMem_zero _ (hobserver ▸ hmem)
      | some id => cases Multiset.mem_singleton.mp (hobserver ▸ hmem)
    · exact timer_not_mem_looseOption child state.child a b hmem
  | .service _ _ _ child, state => timer_not_mem_looseOption child state.child

theorem timer_not_mem_looseList : (trees : List (Tree A)) → (states : StateList trees) → ∀ a b,
    Link.timer a b ∉ looseList trees states
  | [], _ => fun _ _ => Multiset.notMem_zero _
  | tree :: trees, (state, states) => fun a b hmem => (Multiset.mem_add.mp hmem).elim
    (timer_not_mem_loose tree state a b) (timer_not_mem_looseList trees states a b)

theorem timer_not_mem_looseOption : (tree : Option (Tree A)) → (state : StateOption tree) → ∀ a b,
    Link.timer a b ∉ looseOption tree state
  | none, _ => fun _ _ => Multiset.notMem_zero _
  | some tree, state => timer_not_mem_loose tree state

end

end Tree

/-- Both states rest, and their leaves remember the same. -/
structure Slumber (rest : Rest S) (rest' : Rest S') (state : S) (state' : S') (links : Multiset Link) :
    Prop where
  left : rest.Quiet state
  right : rest'.Quiet state'
  leaves_eq : rest.leaves state = rest'.leaves state'
  links_eq : links = rest.loose state + Link.swaps (rest'.loose state')

/-- A step of one state at rest that nobody sees. -/
structure Stirs (bond : Bond) (rest : Rest S) (before after : S × World A) : Prop where
  quiet : rest.Quiet after.1
  leaves_eq : rest.leaves after.1 = rest.leaves before.1
  linked : ∀ {more : Multiset Link} {right : World A},
    World.Linked bond (rest.loose before.1 + more) before.2 right →
      World.Linked bond (rest.loose after.1 + more) after.2 right

namespace Slumber

variable {rest : Rest S} {rest' : Rest S'} {others : Rest X} {others' : Rest X'}
variable {here after : S × World A} {there after' : S' × World A}
variable {state : S} {state' : S'} {states : X} {states' : X'}

theorem swap (h : Slumber rest rest' state state' links) :
    Slumber rest' rest state' state (Link.swaps links) := by
  refine ⟨h.right, h.left, h.leaves_eq.symm, ?_⟩
  rw [h.links_eq, Link.swaps_add, Link.swaps_swaps, add_comm]

theorem beside_swap (h : Beside bond (Slumber rest rest') more here there) :
    Beside bond (Slumber rest' rest) (Link.swaps more) there here := by
  obtain ⟨links, htie, hlinked⟩ := h
  have hswap := hlinked.swap
  rw [Link.swaps_add] at hswap
  exact ⟨_, htie.swap, hswap⟩

theorem stirs (h : Beside bond (Slumber rest rest') more here there)
    (hstirs : Stirs bond rest here after) : Beside bond (Slumber rest rest') more after there := by
  obtain ⟨links, htie, hlinked⟩ := h
  rw [htie.links_eq, add_assoc] at hlinked
  have hafter := hstirs.linked hlinked
  rw [← add_assoc] at hafter
  exact ⟨_, ⟨hstirs.quiet, htie.right, hstirs.leaves_eq.trans htie.leaves_eq, rfl⟩, hafter⟩

theorem stirs_right (h : Beside bond (Slumber rest rest') more here there)
    (hstirs : Stirs bond rest' there after') : Beside bond (Slumber rest rest') more here after' := by
  have hswap := beside_swap (stirs (beside_swap h) hstirs)
  rwa [Link.swaps_swaps] at hswap

theorem prod_iff (hlength : ∀ state state', (rest.leaves state).length = (rest'.leaves state').length) :
    Slumber (rest.prod others) (rest'.prod others') (state, states) (state', states') links ↔
      Both (Slumber rest rest') (Slumber others others') (state, states) (state', states') links := by
  constructor
  · intro h
    obtain ⟨hfirst, hsecond⟩ := List.append_inj h.leaves_eq (hlength state state')
    refine ⟨_, _, ?_, ⟨h.left.1, h.right.1, hfirst, rfl⟩, ⟨h.left.2, h.right.2, hsecond, rfl⟩⟩
    rw [h.links_eq]
    simp only [Rest.prod, Link.swaps_add]
    exact add_add_add_comm _ _ _ _
  · rintro ⟨first, second, rfl, hfirst, hsecond⟩
    refine ⟨⟨hfirst.left, hsecond.left⟩, ⟨hfirst.right, hsecond.right⟩, ?_, ?_⟩
    · exact congrArg₂ (· ++ ·) hfirst.leaves_eq hsecond.leaves_eq
    · rw [hfirst.links_eq, hsecond.links_eq]
      simp only [Rest.prod, Link.swaps_add]
      exact add_add_add_comm _ _ _ _

end Slumber

namespace Stirs

variable {rest : Rest S} {others : Rest X} {before middle after : S × World A}

theorem refl (h : rest.Quiet before.1) : Stirs bond rest before before := ⟨h, rfl, fun h => h⟩

theorem trans (h : Stirs bond rest before middle) (k : Stirs bond rest middle after) :
    Stirs bond rest before after :=
  ⟨k.quiet, k.leaves_eq.trans h.leaves_eq, fun hlinked => k.linked (h.linked hlinked)⟩

theorem first {state next : S} {states : X} {world after : World A}
    (h : Stirs bond rest (state, world) (next, after)) (hothers : others.Quiet states) :
    Stirs bond (rest.prod others) ((state, states), world) ((next, states), after) := by
  refine ⟨⟨h.quiet, hothers⟩, congrArg (· ++ _) h.leaves_eq, fun hlinked => ?_⟩
  simp only [Rest.prod, add_assoc] at hlinked ⊢
  exact h.linked hlinked

theorem second {state : S} {states next : X} {world after : World A} (hfirst : rest.Quiet state)
    (h : Stirs bond others (states, world) (next, after)) :
    Stirs bond (rest.prod others) ((state, states), world) ((state, next), after) := by
  refine ⟨⟨hfirst, h.quiet⟩, congrArg (_ ++ ·) h.leaves_eq, fun hlinked => ?_⟩
  simp only [Rest.prod] at hlinked ⊢
  rw [add_comm (rest.loose state), add_assoc] at hlinked ⊢
  exact h.linked hlinked

end Stirs

namespace Tree

theorem stop_stirs (tree : Tree A) (state : tree.State) (world : World A) (h : tree.Quiet state) :
    Stirs bond tree.rest (state, world) (tree.stop state world) := by
  cases tree with
  | action _ _ =>
    have hsame : ({ state with status := .inactive } : ActionState) = state := by rw [← h]
    rw [stop, hsame]
    exact .refl h
  | wait _ _ =>
    have hsame : ({ state with status := .inactive } : WaitState) = state := by rw [← h]
    rw [stop, hsame]
    exact .refl h
  | leaf _ => exact h.elim
  | sequence children | selector children =>
    rw [stop, if_pos h.1]
    exact .refl h
  | condition guard policy child =>
    rw [stop_condition guard policy child state world (if_pos h.1)]
    have hdismissed {more : Multiset Link} {right : World A}
        (hlinked : World.Linked bond (Link.observers guard.key state.observer none +
          looseOption child state.child + more) world right) :
        World.Linked bond (Link.observers guard.key state.observer none +
          (looseOption child state.child + more)) (world.dismiss? state.observer) right := by
      rw [add_assoc] at hlinked
      exact hlinked.dismiss?_left
    split
    · refine ⟨⟨rfl, h.2⟩, rfl, fun hlinked => ?_⟩
      have hgone := (hdismissed hlinked).unsubscribe?_left
      rwa [← zero_add (looseOption child state.child)] at hgone
    · refine ⟨⟨rfl, h.2⟩, rfl, fun hlinked => ?_⟩
      have hkept := hdismissed hlinked
      rwa [← add_assoc] at hkept
  | service label interval callback child =>
    rw [stop_service, if_pos h.1, h.2.1]
    exact ⟨⟨h.1, rfl, h.2.2⟩, rfl, fun hlinked => hlinked⟩

theorem dismiss?_dismiss? (world : World A) (observer : Option ObserverId) :
    (world.dismiss? observer).dismiss? observer = world.dismiss? observer := by
  cases observer with
  | none => rfl
  | some id =>
    have hdown : (world.dismiss id).board.isPending id = false :=
      World.Linked.isPending_dismiss_self world id
    exact if_neg (Bool.eq_false_iff.mp hdown)

theorem stop_stop (tree : Tree A) (state : tree.State) (world : World A)
    (h : tree.Quiet (tree.stop state world).1) :
    tree.stop (tree.stop state world).1 (tree.stop state world).2 = tree.stop state world := by
  cases tree with
  | action _ _ | wait _ _ => rfl
  | leaf _ => exact h.elim
  | sequence children =>
    by_cases hidle : state.status = .inactive
    · have hstop : (Tree.sequence children).stop state world = (state, world) := by
        rw [stop, if_pos hidle]
      rw [hstop]
      exact hstop
    · have hstop : (Tree.sequence children).stop state world =
          (⟨.inactive, state.current, (stopAt children state.current state.children world).1⟩,
            (stopAt children state.current state.children world).2) := by
        rw [stop, if_neg hidle]
      rw [hstop, stop, if_pos rfl]
  | selector children =>
    by_cases hidle : state.status = .inactive
    · have hstop : (Tree.selector children).stop state world = (state, world) := by
        rw [stop, if_pos hidle]
      rw [hstop]
      exact hstop
    · have hstop : (Tree.selector children).stop state world =
          (⟨.inactive, state.current, (stopAt children state.current state.children world).1⟩,
            (stopAt children state.current state.children world).2) := by
        rw [stop, if_neg hidle]
      rw [hstop, stop, if_pos rfl]
  | condition guard policy child =>
    rw [stop_condition guard policy child state world Prod.mk.eta.symm]
    split
    · rename_i hnone
      rw [stop_condition guard policy child _ _ (if_pos rfl), if_pos hnone]
      rfl
    · rename_i hsome
      rw [stop_condition guard policy child _ _ (if_pos rfl), if_neg hsome, dismiss?_dismiss?]
  | service label interval callback child =>
    rw [stop_service label interval callback child state world]
    split
    · rename_i hidle
      rw [stop_service, if_pos hidle]
      rfl
    · rw [stop_service, if_pos rfl]
      rfl

/-- To stop a tree before it is released makes no difference. -/
theorem release_stop (tree : Tree A) (state : tree.State) (world : World A)
    (h : tree.Quiet (tree.stop state world).1) :
    tree.release (tree.stop state world).1 (tree.stop state world).2 = tree.release state world := by
  have hstop := stop_stop tree state world h
  cases tree with
  | leaf _ => exact h.elim
  | action _ _ | wait _ _ | sequence _ | selector _ | condition _ _ _ | service _ _ _ _ =>
    rw [release, release, hstop]

theorem stopAt_stirs (trees : List (Tree A)) (i : Nat) (states : StateList trees) (world : World A)
    (h : QuietList trees states) :
    Stirs bond (restList trees) (states, world) (stopAt trees i states world) := by
  induction trees generalizing i with
  | nil => exact .refl h
  | cons tree trees ih =>
    obtain ⟨state, states⟩ := states
    cases i with
    | zero =>
      rw [restList_cons]
      exact (stop_stirs tree state world h.1).first h.2
    | succ i =>
      rw [restList_cons]
      exact .second h.1 (ih i states h.2)

mutual

theorem release_stirs : (tree : Tree A) → (state : tree.State) → (world : World A) →
    tree.Quiet state → Stirs bond tree.rest (state, world) (tree.release state world) ∧
      tree.loose (tree.release state world).1 = 0
  | .action label command, state, world, h => by
    rw [release]
    exact ⟨stop_stirs (.action label command) state world h, rfl⟩
  | .wait duration variance, state, world, h => by
    rw [release]
    exact ⟨stop_stirs (.wait duration variance) state world h, rfl⟩
  | .sequence children, state, world, h => by
    have hbelow := releaseList_stirs children state.children world h.2
    rw [release, stop, if_pos h.1]
    exact ⟨⟨⟨h.1, hbelow.1.quiet⟩, hbelow.1.leaves_eq, hbelow.1.linked⟩, hbelow.2⟩
  | .selector children, state, world, h => by
    have hbelow := releaseList_stirs children state.children world h.2
    rw [release, stop, if_pos h.1]
    exact ⟨⟨⟨h.1, hbelow.1.quiet⟩, hbelow.1.leaves_eq, hbelow.1.linked⟩, hbelow.2⟩
  | .condition guard policy child, state, world, h => by
    have hstop : Stirs bond (Tree.condition guard policy child).rest (state, world)
        ((Tree.condition guard policy child).stop state world) :=
      stop_stirs (.condition guard policy child) state world h
    have hbelow := releaseOption_stirs child _ ((Tree.condition guard policy child).stop state world).2
      hstop.quiet.2
    rw [release]
    refine ⟨⟨⟨hstop.quiet.1, hbelow.1.quiet⟩, hbelow.1.leaves_eq.trans hstop.leaves_eq,
      fun hlinked => ?_⟩, ?_⟩
    · have hstopped := hstop.linked hlinked
      simp only [rest, loose] at hstopped ⊢
      rw [add_comm (Link.observers _ _ _), add_assoc] at hstopped
      have hgone := hbelow.1.linked hstopped
      simp only [restOption, hbelow.2, Link.observers_none, zero_add] at hgone ⊢
      exact hgone.unsubscribe?_left
    · exact (congrArg (_ + ·) hbelow.2).trans (add_zero _)
  | .service label interval callback child, state, world, h => by
    have hbelow := releaseOption_stirs child state.child world h.2.2
    rw [release, stop_service, if_pos h.1, h.2.1]
    exact ⟨⟨⟨h.1, rfl, hbelow.1.quiet⟩, hbelow.1.leaves_eq, hbelow.1.linked⟩, hbelow.2⟩

theorem releaseList_stirs : (trees : List (Tree A)) → (states : StateList trees) →
    (world : World A) → QuietList trees states →
    Stirs bond (restList trees) (states, world) (releaseList trees states world) ∧
      looseList trees (releaseList trees states world).1 = 0
  | [], _, _, h => ⟨.refl h, rfl⟩
  | tree :: trees, (state, states), world, h => by
    have hfirst := release_stirs tree state world h.1
    have hrest := releaseList_stirs trees states (tree.release state world).2 h.2
    rw [releaseList, restList_cons]
    exact ⟨(hfirst.1.first h.2).trans (.second hfirst.1.quiet hrest.1),
      (congrArg₂ (· + ·) hfirst.2 hrest.2).trans (add_zero 0)⟩

theorem releaseOption_stirs : (tree : Option (Tree A)) → (state : StateOption tree) →
    (world : World A) → QuietOption tree state →
    Stirs bond (restOption tree) (state, world) (releaseOption tree state world) ∧
      looseOption tree (releaseOption tree state world).1 = 0
  | none, _, _, h => ⟨.refl h, rfl⟩
  | some tree, state, world, h => release_stirs tree state world h

end

end Tree

namespace Slumber

theorem left_quiet {rest : Rest S} {rest' : Rest S'} {here : S × World A} {there : S' × World A}
    (h : Beside bond (Slumber rest rest') more here there) : rest.Quiet here.1 := by
  obtain ⟨_, htie, _⟩ := h
  exact htie.left

theorem right_quiet {rest : Rest S} {rest' : Rest S'} {here : S × World A} {there : S' × World A}
    (h : Beside bond (Slumber rest rest') more here there) : rest'.Quiet there.1 := by
  obtain ⟨_, htie, _⟩ := h
  exact htie.right

theorem linked {rest : Rest S} {rest' : Rest S'} {here : S × World A} {there : S' × World A}
    (h : Beside bond (Slumber rest rest') more here there) (hleft : rest.loose here.1 = 0)
    (hright : rest'.loose there.1 = 0) :
    Slumber rest rest' here.1 there.1 0 ∧ World.Linked bond more here.2 there.2 := by
  obtain ⟨links, htie, hlinked⟩ := h
  have hnone : links = 0 := by
    rw [htie.links_eq, hleft, hright]
    rfl
  rw [hnone] at htie hlinked
  rw [zero_add] at hlinked
  exact ⟨htie, hlinked⟩

section Trees

variable {tree other : Tree A} {state : tree.State} {state' : other.State} {world world' : World A}

theorem timer_not_mem (h : Slumber tree.rest other.rest state state' links) (a b : Option TimerId) :
    .timer a b ∉ links := by
  rw [h.links_eq]
  intro hmem
  obtain hmem | hmem := Multiset.mem_add.mp hmem
  · exact Tree.timer_not_mem_loose tree state a b hmem
  · exact Tree.timer_not_mem_loose other state' b a (Link.mem_swaps.mp hmem)

theorem stop (h : Beside bond (Slumber tree.rest other.rest) more (state, world) (state', world')) :
    Beside bond (Slumber tree.rest other.rest) more (tree.stop state world)
      (other.stop state' world') :=
  stirs_right (stirs h (Tree.stop_stirs tree state world (left_quiet h)))
    (Tree.stop_stirs other state' world' (right_quiet h))

theorem release
    (h : Beside bond (Slumber tree.rest other.rest) more (state, world) (state', world')) :
    Slumber tree.rest other.rest (tree.release state world).1 (other.release state' world').1 0 ∧
      World.Linked bond more (tree.release state world).2 (other.release state' world').2 := by
  obtain ⟨hstirs, hnone⟩ := Tree.release_stirs tree state world (left_quiet h)
  obtain ⟨hstirs', hnone'⟩ := Tree.release_stirs other state' world' (right_quiet h)
  exact linked (stirs_right (stirs h hstirs) hstirs') hnone hnone'

end Trees

section Lists

variable {trees others : List (Tree A)} {states : Tree.StateList trees}
variable {states' : Tree.StateList others} {world world' : World A}

theorem timer_not_mem_list (h : Slumber (Tree.restList trees) (Tree.restList others) states states' links)
    (a b : Option TimerId) : .timer a b ∉ links := by
  rw [h.links_eq]
  intro hmem
  obtain hmem | hmem := Multiset.mem_add.mp hmem
  · exact Tree.timer_not_mem_looseList trees states a b hmem
  · exact Tree.timer_not_mem_looseList others states' b a (Link.mem_swaps.mp hmem)

theorem releaseList (h : Beside bond (Slumber (Tree.restList trees) (Tree.restList others)) more
      (states, world) (states', world')) :
    Beside bond (Slumber (Tree.restList trees) (Tree.restList others)) more
      (Tree.releaseList trees states world) (Tree.releaseList others states' world') :=
  stirs_right (stirs h (Tree.releaseList_stirs trees states world (left_quiet h)).1)
    (Tree.releaseList_stirs others states' world' (right_quiet h)).1

end Lists

end Slumber

end BehaviorTree
