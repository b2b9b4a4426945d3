import BehaviorTree.Proofs.Lifecycle.Visits

/-!
A fit state says more than `Tree.Orderly` does, but only of trees without leaves that the host wrote. This
holds of all trees whose leaves are inactive once they are stopped.
-/

namespace BehaviorTree

variable {A : Type}

namespace Subtree

variable {node : Subtree A} {nodes front : List (Subtree A)} {i : Nat}

def Idle (nodes : List (Subtree A)) : Prop := ∀ node ∈ nodes, node.status = .inactive

def OnlyAt (nodes : List (Subtree A)) (i : Nat) : Prop :=
  ∀ j node, nodes[j]? = some node → node.status ≠ .inactive → j = i

theorem idle_cons : Idle (node :: nodes) ↔ node.status = .inactive ∧ Idle nodes :=
  List.forall_mem_cons

theorem idle_append : Idle (front ++ nodes) ↔ Idle front ∧ Idle nodes := List.forall_mem_append

theorem Idle.onlyAt (h : Idle nodes) (i : Nat) : OnlyAt nodes i :=
  fun _ node hnode hactive => absurd (h node (List.mem_of_getElem? hnode)) hactive

theorem onlyAt_zero : OnlyAt (node :: nodes) 0 ↔ Idle nodes := by
  constructor
  · intro h other hmem
    obtain ⟨j, hother⟩ := List.getElem?_of_mem hmem
    by_contra hactive
    exact absurd (h (j + 1) other hother hactive) (Nat.succ_ne_zero j)
  · rintro h (_ | j) other hother hactive
    · rfl
    · exact absurd (h other (List.mem_of_getElem? hother)) hactive

theorem onlyAt_succ : OnlyAt (node :: nodes) (i + 1) ↔ node.status = .inactive ∧ OnlyAt nodes i := by
  constructor
  · intro h
    refine ⟨?_, fun j other hother hactive => Nat.succ_injective (h (j + 1) other hother hactive)⟩
    by_contra hactive
    exact absurd (h 0 node rfl hactive) (Nat.succ_ne_zero i).symm
  · rintro ⟨hidle, h⟩ (_ | j) other hother hactive
    · cases hother
      exact absurd hidle hactive
    · exact congrArg Nat.succ (h j other hother hactive)

theorem onlyAt_append : OnlyAt (front ++ nodes) (front.length + i) ↔ Idle front ∧ OnlyAt nodes i := by
  induction front with
  | nil => simp [Idle]
  | cons first front ih =>
    rw [List.cons_append, List.length_cons, Nat.succ_add, onlyAt_succ, ih, idle_cons, and_assoc]

end Subtree

namespace Tree

open Subtree (Idle OnlyAt ofList)

mutual

/-- The leaves of the tree that the host wrote are inactive once they are stopped. -/
def Obedient : Tree A → Prop
  | .action _ _ => True
  | .wait _ _ => True
  | .leaf node => ∀ state world, (node.stop state world).1.status = .inactive
  | .sequence children => ObedientList children
  | .selector children => ObedientList children
  | .condition _ _ child => ObedientOption child
  | .service _ _ _ child => ObedientOption child

def ObedientList : List (Tree A) → Prop
  | [] => True
  | tree :: trees => tree.Obedient ∧ ObedientList trees

def ObedientOption : Option (Tree A) → Prop
  | none => True
  | some tree => tree.Obedient

end

mutual

theorem BuiltIn.obedient : (tree : Tree A) → tree.BuiltIn → tree.Obedient
  | .action _ _, _ => trivial
  | .wait _ _, _ => trivial
  | .sequence children, h => BuiltInList.obedient children h
  | .selector children, h => BuiltInList.obedient children h
  | .condition _ _ child, h => BuiltInOption.obedient child h
  | .service _ _ _ child, h => BuiltInOption.obedient child h

theorem BuiltInList.obedient : (trees : List (Tree A)) → BuiltInList trees → ObedientList trees
  | [], _ => trivial
  | tree :: trees, h => ⟨BuiltIn.obedient tree h.1, BuiltInList.obedient trees h.2⟩

theorem BuiltInOption.obedient : (tree : Option (Tree A)) → BuiltInOption tree → ObedientOption tree
  | none, _ => trivial
  | some tree, h => BuiltIn.obedient tree h

end

/-- The children of a sequence or a selector are active in turn. -/
structure InTurn (children : List (Tree A)) (state : CompositeState (StateList children)) : Prop where
  running : state.status = .running → OnlyAt (ofList children state.children) state.current
  bound : state.status = .running → state.current = 0 ∨ state.current < children.length
  idle : state.status ≠ .running → Idle (ofList children state.children)

mutual

/-- The children of each composite are active in turn. -/
def Orderly : (tree : Tree A) → tree.State → Prop
  | .action _ _, _ => True
  | .wait _ _, _ => True
  | .leaf _, _ => True
  | .sequence children, state => InTurn children state ∧ OrderlyList children state.children
  | .selector children, state => InTurn children state ∧ OrderlyList children state.children
  | .condition _ _ child, state => OrderlyOption child state.child
  | .service _ _ _ child, state => OrderlyOption child state.child

def OrderlyList : (trees : List (Tree A)) → StateList trees → Prop
  | [], _ => True
  | tree :: trees, (state, states) => tree.Orderly state ∧ OrderlyList trees states

def OrderlyOption : (tree : Option (Tree A)) → StateOption tree → Prop
  | none, _ => True
  | some tree, state => tree.Orderly state

end

theorem fresh_status (tree : Tree A) (random : Random) :
    tree.status (tree.fresh random).1 = .inactive := by
  cases tree <;> rfl

theorem freshList_idle (trees : List (Tree A)) (random : Random) :
    Idle (ofList trees (freshList trees random).1) := by
  induction trees generalizing random with
  | nil => exact List.forall_mem_nil _
  | cons tree trees ih => exact Subtree.idle_cons.mpr ⟨tree.fresh_status random, ih _⟩

theorem InTurn.of_idle {children : List (Tree A)} {state : CompositeState (StateList children)}
    (h : Idle (ofList children state.children)) (hrun : state.status ≠ .running) :
    InTurn children state :=
  ⟨fun hr => absurd hr hrun, fun hr => absurd hr hrun, fun _ => h⟩

mutual

theorem fresh_orderly : (tree : Tree A) → (random : Random) → tree.Orderly (tree.fresh random).1
  | .action _ _, _ => trivial
  | .wait _ _, _ => trivial
  | .leaf _, _ => trivial
  | .sequence children, random =>
    ⟨.of_idle (freshList_idle children random) (by simp [fresh]), freshList_orderly children random⟩
  | .selector children, random =>
    ⟨.of_idle (freshList_idle children random) (by simp [fresh]), freshList_orderly children random⟩
  | .condition _ _ child, random => freshOption_orderly child random
  | .service _ _ _ child, random => freshOption_orderly child random

theorem freshList_orderly : (trees : List (Tree A)) → (random : Random) →
    OrderlyList trees (freshList trees random).1
  | [], _ => trivial
  | tree :: trees, random => ⟨fresh_orderly tree random, freshList_orderly trees _⟩

theorem freshOption_orderly : (tree : Option (Tree A)) → (random : Random) →
    OrderlyOption tree (freshOption tree random).1
  | none, _ => trivial
  | some tree, random => fresh_orderly tree random

end

theorem InTurn.begin {children : List (Tree A)} {state : CompositeState (StateList children)}
    (h : InTurn children state) : InTurn children state.begin := by
  unfold CompositeState.begin
  split
  · rename_i hidle
    have hnone : Idle (ofList children state.children) := h.idle (by simp [hidle])
    exact ⟨fun _ => hnone.onlyAt 0, fun _ => .inl rfl, fun hne => absurd rfl hne⟩
  · exact h

mutual

theorem start_orderly : (tree : Tree A) → (state : tree.State) → (world : World A) →
    tree.Orderly state → tree.Orderly (tree.start state world).1
  | .action _ _, _, _, _ => trivial
  | .wait _ _, _, _, _ => trivial
  | .leaf _, _, _, _ => trivial
  | .sequence children, state, world, h => by
    rw [Orderly] at h
    refine ⟨h.1.begin, ?_⟩
    rw [start, state.begin_children]
    exact h.2
  | .selector children, state, world, h => by
    rw [Orderly] at h
    refine ⟨h.1.begin, ?_⟩
    rw [start, state.begin_children]
    exact h.2
  | .condition guard policy child, state, world, h => by
    by_cases hidle : state.status = .inactive
    · rcases hobserve : world.observe state.observer guard.key with ⟨id, observed⟩
      rcases hjudge : observed.judge guard id with ⟨holds, judged⟩
      rw [start_condition guard policy child state world hidle hobserve hjudge]
      split
      · exact h
      · split
        · exact startOption_orderly child state.child judged h
        · exact h
    · rw [start, if_pos hidle]
      exact h
  | .service label interval callback child, state, world, h => by
    by_cases hidle : state.status = .inactive
    · rw [start_service label interval callback child state world hidle rfl]
      exact startOption_orderly child state.child _ h
    · rw [start, if_pos hidle]
      exact h

theorem startOption_orderly : (tree : Option (Tree A)) → (state : StateOption tree) →
    (world : World A) → OrderlyOption tree state →
    OrderlyOption tree (startOption tree state world).1
  | none, _, _, _ => trivial
  | some tree, state, world, h => start_orderly tree state world h

end

theorem stop_status (tree : Tree A) (state : tree.State) (world : World A) (h : tree.Obedient) :
    tree.status (tree.stop state world).1 = .inactive := by
  cases tree with
  | action _ _ | wait _ _ => rfl
  | leaf node => exact h state world
  | sequence children | selector children =>
    rw [stop]
    split
    · assumption
    · rfl
  | condition guard policy child =>
    rw [stop]
    dsimp only
    split <;> rfl
  | service label interval callback child =>
    rw [stop]
    dsimp only
    split
    · assumption
    · rfl

theorem stopAt_idle (trees : List (Tree A)) (i : Nat) (states : StateList trees) (world : World A)
    (htrees : ObedientList trees) (h : OnlyAt (ofList trees states) i) :
    Idle (ofList trees (stopAt trees i states world).1) := by
  induction trees generalizing i with
  | nil => exact List.forall_mem_nil _
  | cons tree trees ih =>
    obtain ⟨state, states⟩ := states
    cases i with
    | zero =>
      exact Subtree.idle_cons.mpr ⟨stop_status tree state world htrees.1, Subtree.onlyAt_zero.mp h⟩
    | succ i =>
      obtain ⟨hidle, hrest⟩ := Subtree.onlyAt_succ.mp h
      exact Subtree.idle_cons.mpr ⟨hidle, ih i states htrees.2 hrest⟩

theorem InTurn.onlyAt {children : List (Tree A)} {state : CompositeState (StateList children)}
    (h : InTurn children state) : OnlyAt (ofList children state.children) state.current := by
  by_cases hrun : state.status = .running
  · exact h.running hrun
  · exact (h.idle hrun).onlyAt _

theorem InTurn.stop {children : List (Tree A)} {state : CompositeState (StateList children)}
    {world : World A} (htree : ObedientList children) (h : InTurn children state)
    (hbelow : OrderlyList children state.children)
    (hstopped : OrderlyList children (stopAt children state.current state.children world).1) :
    (Tree.sequence children).Orderly ((Tree.sequence children).stop state world).1 := by
  have hidle := stopAt_idle children state.current state.children world htree h.onlyAt
  rw [Tree.stop]
  split
  · exact ⟨h, hbelow⟩
  · exact ⟨.of_idle hidle (by simp), hstopped⟩

mutual

theorem stop_orderly : (tree : Tree A) → (state : tree.State) → (world : World A) → tree.Obedient →
    tree.Orderly state → tree.Orderly (tree.stop state world).1
  | .action _ _, _, _, _, _ => trivial
  | .wait _ _, _, _, _, _ => trivial
  | .leaf _, _, _, _, _ => trivial
  | .sequence children, state, world, htree, h =>
    h.1.stop htree h.2 (stopAt_orderly children state.current state.children world htree h.2)
  | .selector children, state, world, htree, h => by
    rw [stop_selector]
    exact h.1.stop htree h.2 (stopAt_orderly children state.current state.children world htree h.2)
  | .condition guard policy child, state, world, htree, h => by
    rcases hbelow : (if state.status = .inactive then (state.child, world)
      else stopOption child state.child world) with ⟨below, stopped⟩
    have horderly : OrderlyOption child below := by
      split at hbelow
      · cases hbelow
        exact h
      · simpa only [hbelow] using stopOption_orderly child state.child world htree h
    rw [stop_condition guard policy child state world hbelow]
    split <;> exact horderly
  | .service label interval callback child, state, world, htree, h => by
    rw [stop_service]
    split
    · exact h
    · exact stopOption_orderly child state.child _ htree h

theorem stopAt_orderly : (trees : List (Tree A)) → (i : Nat) → (states : StateList trees) →
    (world : World A) → ObedientList trees → OrderlyList trees states →
    OrderlyList trees (stopAt trees i states world).1
  | [], _, _, _, _, _ => trivial
  | tree :: _, 0, (state, _), world, htrees, h => ⟨stop_orderly tree state world htrees.1 h.1, h.2⟩
  | _ :: trees, i + 1, (_, states), world, htrees, h =>
    ⟨h.1, stopAt_orderly trees i states world htrees.2 h.2⟩

theorem stopOption_orderly : (tree : Option (Tree A)) → (state : StateOption tree) →
    (world : World A) → ObedientOption tree → OrderlyOption tree state →
    OrderlyOption tree (stopOption tree state world).1
  | none, _, _, _, _ => trivial
  | some tree, state, world, htree, h => stop_orderly tree state world htree h

end

theorem release_status (tree : Tree A) (state : tree.State) (world : World A) (h : tree.Obedient) :
    tree.status (tree.release state world).1 = .inactive := by
  have hstopped := stop_status tree state world h
  cases tree with
  | action _ _ | wait _ _ | leaf _ => exact hstopped
  | sequence _ | selector _ | condition _ _ _ | service _ _ _ _ =>
    rw [release]
    exact hstopped

theorem releaseList_idle (trees : List (Tree A)) (states : StateList trees) (world : World A)
    (htrees : ObedientList trees) : Idle (ofList trees (releaseList trees states world).1) := by
  induction trees generalizing world with
  | nil => exact List.forall_mem_nil _
  | cons tree trees ih =>
    obtain ⟨state, states⟩ := states
    exact Subtree.idle_cons.mpr ⟨release_status tree state world htrees.1, ih states _ htrees.2⟩

theorem released_orderly {children : List (Tree A)} {state : (Tree.sequence children).State}
    {world : World A} (htree : ObedientList children)
    (hreleased : OrderlyList children
      (releaseList children ((Tree.sequence children).stop state world).1.children
        ((Tree.sequence children).stop state world).2).1) :
    (Tree.sequence children).Orderly ((Tree.sequence children).release state world).1 := by
  have hstatus := stop_status (.sequence children) state world htree
  rw [release]
  refine ⟨.of_idle (releaseList_idle children _ _ htree) ?_, hreleased⟩
  exact fun hrun => absurd (hrun.symm.trans hstatus) (by simp)

mutual

theorem release_orderly : (tree : Tree A) → (state : tree.State) → (world : World A) →
    tree.Obedient → tree.Orderly state → tree.Orderly (tree.release state world).1
  | .action _ _, _, _, _, _ => trivial
  | .wait _ _, _, _, _, _ => trivial
  | .leaf _, _, _, _, _ => trivial
  | .sequence children, state, world, htree, h => by
    have hstopped := stop_orderly (.sequence children) state world htree h
    exact released_orderly htree (releaseList_orderly children _ _ htree hstopped.2)
  | .selector children, state, world, htree, h => by
    have hstopped := stop_orderly (.sequence children) state world htree h
    rw [release_selector]
    exact released_orderly htree (releaseList_orderly children _ _ htree hstopped.2)
  | .condition guard policy child, state, world, htree, h => by
    have hstopped := stop_orderly (.condition guard policy child) state world htree h
    rw [release]
    exact releaseOption_orderly child _ _ htree hstopped
  | .service label interval callback child, state, world, htree, h => by
    have hstopped := stop_orderly (.service label interval callback child) state world htree h
    rw [release]
    exact releaseOption_orderly child _ _ htree hstopped

theorem releaseList_orderly : (trees : List (Tree A)) → (states : StateList trees) →
    (world : World A) → ObedientList trees → OrderlyList trees states →
    OrderlyList trees (releaseList trees states world).1
  | [], _, _, _, _ => trivial
  | tree :: trees, (state, states), world, htrees, h =>
    ⟨release_orderly tree state world htrees.1 h.1, releaseList_orderly trees states _ htrees.2 h.2⟩

theorem releaseOption_orderly : (tree : Option (Tree A)) → (state : StateOption tree) →
    (world : World A) → ObedientOption tree → OrderlyOption tree state →
    OrderlyOption tree (releaseOption tree state world).1
  | none, _, _, _, _ => trivial
  | some tree, state, world, htree, h => release_orderly tree state world htree h

end

/-- What is left of the children's turns once they were ticked. -/
structure TickedInTurn (trees : List (Tree A)) (after : Outcome × Nat × StateList trees × World A) :
    Prop where
  orderly : OrderlyList trees after.2.2.1
  running : after.1 = .running →
    OnlyAt (ofList trees after.2.2.1) after.2.1 ∧ after.2.1 < trees.length
  ended : after.1 ≠ .running → Idle (ofList trees after.2.2.1)

theorem settle_orderly {trees : List (Tree A)} {outcome : Outcome} {current : Nat}
    {states : StateList trees} {world : World A} (htrees : ObedientList trees)
    (h : TickedInTurn trees (outcome, current, states, world)) :
    InTurn trees (settle trees outcome current states world).2.1 ∧
      OrderlyList trees (settle trees outcome current states world).2.1.children := by
  unfold settle
  by_cases hrun : outcome = .running
  · rw [if_pos hrun]
    refine ⟨⟨fun _ => (h.running hrun).1, fun _ => .inr (h.running hrun).2, ?_⟩, h.orderly⟩
    rw [hrun]
    exact fun hne => absurd rfl hne
  · rw [if_neg hrun]
    refine ⟨.of_idle (releaseList_idle trees states world htrees) ?_,
      releaseList_orderly trees states world htrees h.orderly⟩
    exact fun hr => hrun (Outcome.eq_running_of_status hr)

theorem TickedInTurn.rest {goOn : Outcome} {trees : List (Tree A)} {current : Nat}
    {states : StateList trees} {world : World A} (htrees : ObedientList trees)
    (h : TickedInTurn trees (tickFrom goOn trees current states world)) :
    InTurn trees (tickRest goOn trees current states world).2.1 ∧
      OrderlyList trees (tickRest goOn trees current states world).2.1.children := by
  unfold tickRest
  exact settle_orderly htrees h

/-- Before a selector goes on at another child, the one whose turn it was is stopped. -/
theorem arbitrate_orderly {children : List (Tree A)} {state : CompositeState (StateList children)}
    (world : World A) (htrees : ObedientList children) (h : InTurn children state)
    (hbelow : OrderlyList children state.children) :
    OrderlyList children (arbitrate children state world).2.1 ∧
      (∀ i, (arbitrate children state world).1 = some i →
        OnlyAt (ofList children (arbitrate children state world).2.1) i) ∧
      ((arbitrate children state world).1 = none →
        Idle (ofList children (arbitrate children state world).2.1)) := by
  unfold arbitrate
  rcases firstPreempting children state.current state.children world with
    ⟨_ | ⟨winner, preemption⟩, asked⟩
  · refine ⟨hbelow, fun i hi => ?_, (nomatch ·)⟩
    cases hi
    exact h.onlyAt
  · have hidle := stopAt_idle children state.current state.children
      (asked.record (.preempted winner state.current preemption)) htrees h.onlyAt
    exact ⟨stopAt_orderly children _ _ _ htrees hbelow, fun i _ => hidle.onlyAt i, fun _ => hidle⟩

mutual

theorem tick_orderly : (tree : Tree A) → (state : tree.State) → (world : World A) → tree.Obedient →
    tree.Orderly state → tree.Orderly (tree.tick state world).2.1
  | .action _ _, _, _, _, _ => trivial
  | .wait _ _, _, _, _, _ => trivial
  | .leaf _, _, _, _, _ => trivial
  | .sequence children, state, world, htree, h => by
    have hbegin := start_orderly (.sequence children) state world h
    rw [start] at hbegin
    rw [tick_sequence]
    split
    · exact hbegin
    · exact (tickFrom_orderly .success (by simp) children _ _ world htree hbegin.2
        hbegin.1.onlyAt).rest htree
  | .selector children, state, world, htree, h => by
    have hbegin := start_orderly (.selector children) state world h
    rw [start] at hbegin
    obtain ⟨hbelow, hgo, hgiveUp⟩ := arbitrate_orderly world htree hbegin.1 hbegin.2
    rw [tick_selector]
    split
    · exact hbegin
    · rcases harb : arbitrate children state.begin world with ⟨_ | current, states, asked⟩ <;>
        rw [harb] at hbelow hgo hgiveUp
      · exact settle_orderly htree ⟨hbelow, nofun, fun _ => hgiveUp rfl⟩
      · exact (tickFrom_orderly .fail (by simp) children current states asked htree hbelow
          (hgo current rfl)).rest htree
  | .condition guard policy child, state, world, htree, h => by
    have hstarted := start_orderly (.condition guard policy child) state world h
    rcases hstart : (Tree.condition guard policy child).start state world with ⟨started, begun⟩
    rcases hbroken : (if policy.abortsSelf then begun.stoppedHolding guard started.observer
      else (false, begun)) with ⟨broken, checked⟩
    rw [hstart] at hstarted
    rw [tick_condition guard policy child state world hstart hbroken]
    split
    · exact hstarted
    · split
      · exact stopOption_orderly child started.child checked htree hstarted
      · exact tickOption_orderly child started.child checked htree hstarted
  | .service label interval callback child, state, world, htree, h => by
    have hstarted := start_orderly (.service label interval callback child) state world h
    rcases hstart : (Tree.service label interval callback child).start state world with
      ⟨started, begun⟩
    rw [hstart] at hstarted
    rw [tick_service label interval callback child state world hstart]
    split
    · exact hstarted
    · exact tickOption_orderly child started.child begun htree hstarted

theorem tickFrom_orderly : (goOn : Outcome) → goOn ≠ .running → (trees : List (Tree A)) →
    (i : Nat) → (states : StateList trees) → (world : World A) → ObedientList trees →
    OrderlyList trees states → OnlyAt (ofList trees states) i →
    TickedInTurn trees (tickFrom goOn trees i states world)
  | goOn, hgo, [], _, _, _, _, _, _ => by
    rw [tickFrom]
    exact ⟨trivial, fun hr => absurd hr hgo, fun _ => List.forall_mem_nil _⟩
  | goOn, hgo, tree :: trees, 0, (state, states), world, htrees, h, honly => by
    have hrest := Subtree.onlyAt_zero.mp honly
    have hticked := tick_orderly tree state world htrees.1 h.1
    rcases htick : tree.tick state world with ⟨outcome, ticked, after⟩
    rw [htick] at hticked
    have hstopped := stop_orderly tree ticked after htrees.1 hticked
    have hstatus := stop_status tree ticked after htrees.1
    rw [tickFrom_zero goOn tree trees state states world htick]
    split
    · exact ⟨⟨hticked, h.2⟩, fun _ => ⟨Subtree.onlyAt_zero.mpr hrest, Nat.succ_pos _⟩,
        fun hne => absurd rfl hne⟩
    · rename_i hended
      split
      · have hlater := tickFrom_orderly goOn hgo trees 0 states (tree.stop ticked after).2 htrees.2
          h.2 (hrest.onlyAt 0)
        exact ⟨⟨hstopped, hlater.orderly⟩,
          fun hr => ⟨Subtree.onlyAt_succ.mpr ⟨hstatus, (hlater.running hr).1⟩,
            Nat.succ_lt_succ (hlater.running hr).2⟩,
          fun hne => Subtree.idle_cons.mpr ⟨hstatus, hlater.ended hne⟩⟩
      · exact ⟨⟨hstopped, h.2⟩, fun hr => absurd hr hended,
          fun _ => Subtree.idle_cons.mpr ⟨hstatus, hrest⟩⟩
  | goOn, hgo, tree :: trees, i + 1, (state, states), world, htrees, h, honly => by
    obtain ⟨hidle, honly⟩ := Subtree.onlyAt_succ.mp honly
    have hlater := tickFrom_orderly goOn hgo trees i states world htrees.2 h.2 honly
    rw [tickFrom]
    exact ⟨⟨h.1, hlater.orderly⟩,
      fun hr => ⟨Subtree.onlyAt_succ.mpr ⟨hidle, (hlater.running hr).1⟩,
        Nat.succ_lt_succ (hlater.running hr).2⟩,
      fun hne => Subtree.idle_cons.mpr ⟨hidle, hlater.ended hne⟩⟩

theorem tickOption_orderly : (tree : Option (Tree A)) → (state : StateOption tree) →
    (world : World A) → ObedientOption tree → OrderlyOption tree state →
    OrderlyOption tree (tickOption tree state world).2.1
  | none, _, _, _, _ => trivial
  | some tree, state, world, htree, h => tick_orderly tree state world htree h

end

end Tree

namespace Subtree

variable {node child lower : Subtree A} {position : List Nat}

/-- The node's children, and those of each composite below it, are active in turn. Its leaves can be
stopped. -/
structure Orderly (node : Subtree A) : Prop where
  obedient : node.tree.Obedient
  orderly : node.tree.Orderly node.state

theorem orderly_ofList {trees : List (Tree A)} {states : Tree.StateList trees}
    (htrees : Tree.ObedientList trees) (h : Tree.OrderlyList trees states) :
    ∀ child ∈ ofList trees states, child.Orderly := by
  induction trees with
  | nil => exact List.forall_mem_nil _
  | cons tree trees ih =>
    obtain ⟨state, states⟩ := states
    exact List.forall_mem_cons.mpr ⟨⟨htrees.1, h.1⟩, ih htrees.2 h.2⟩

theorem orderly_ofOption {tree : Option (Tree A)} {state : Tree.StateOption tree}
    (htree : Tree.ObedientOption tree) (h : Tree.OrderlyOption tree state) :
    ∀ child ∈ ofOption tree state, child.Orderly := by
  cases tree with
  | none => exact List.forall_mem_nil _
  | some tree => exact List.forall_mem_singleton.mpr ⟨htree, h⟩

namespace Orderly

theorem children (h : node.Orderly) : ∀ child ∈ node.children, child.Orderly := by
  obtain ⟨tree, state⟩ := node
  obtain ⟨htree, h⟩ := h
  cases tree with
  | action _ _ | wait _ _ | leaf _ => exact List.forall_mem_nil _
  | sequence _ | selector _ => exact orderly_ofList htree h.2
  | condition _ _ _ | service _ _ _ _ => exact orderly_ofOption htree h

theorem below (h : node.Orderly) (hbelow : node.at? position = some lower) : lower.Orderly :=
  hand_down (fun _ => Orderly.children) h hbelow

theorem start (h : node.Orderly) (world : World A) :
    Orderly ⟨node.tree, (node.tree.start node.state world).1⟩ :=
  ⟨h.obedient, Tree.start_orderly _ _ world h.orderly⟩

theorem release (h : node.Orderly) (world : World A) :
    Orderly ⟨node.tree, (node.tree.release node.state world).1⟩ :=
  ⟨h.obedient, Tree.release_orderly _ _ world h.obedient h.orderly⟩

theorem tick (h : node.Orderly) (world : World A) :
    Orderly ⟨node.tree, (node.tree.tick node.state world).2.1⟩ :=
  ⟨h.obedient, Tree.tick_orderly _ _ world h.obedient h.orderly⟩

end Orderly

end Subtree

namespace Root

variable {root : Root A}

theorem orderly_readied (h : root.node.Orderly) : root.readied.node.Orderly := by
  unfold readied
  split
  · exact h.release root.world
  · exact h

theorem orderly_tick (h : root.node.Orderly) : root.tick.node.Orderly := by
  by_cases hactive : root.active = true
  · rw [root.tick_eq hactive]
    exact (orderly_readied h).tick root.readied.world
  · rw [tick, if_pos (by simpa using hactive)]
    exact h

theorem orderly_call (h : root.node.Orderly) (call : Call A) : (root.call call).node.Orderly := by
  cases call with
  | start =>
    unfold Root.call start
    dsimp only
    split
    · exact h
    · exact Subtree.Orderly.start h root.world
  | tick => exact orderly_tick h
  | update dt =>
    have hadvanced : (root.advance dt).node.Orderly := h
    exact orderly_tick hadvanced
  | stop =>
    unfold Root.call stop
    dsimp only
    split
    · exact h
    · exact Subtree.Orderly.release h root.world
  | advance _ | steer _ | set _ _ | remove _ | getNumber _ | getBool _ | clear | watch _ _
  | unwatch _ => exact h

end Root

theorem Session.Reachable.orderly {tree : Tree A} {initial : Values} {session : Session A}
    (htree : tree.Obedient) (h : session.Reachable tree initial) : session.root.node.Orderly := by
  induction h with
  | opened _ _ _ hroot =>
    obtain ⟨-, rfl⟩ := Root.withBoard_eq_ok.mp hroot
    exact ⟨htree, tree.fresh_orderly _⟩
  | called call _ ih => exact Root.orderly_call ih call

namespace Tree

mutual

theorem visits_orderly : (tree : Tree A) → (state : tree.State) → (world : World A) →
    Subtree.Orderly ⟨tree, state⟩ → ∀ visit ∈ tree.visits state world, visit.node.Orderly
  | .action _ _, state, world, h => by
    rw [visits]
    exact List.forall_mem_singleton.mpr h
  | .wait _ _, state, world, h => by
    rw [visits]
    exact List.forall_mem_singleton.mpr h
  | .leaf _, state, world, h => by
    rw [visits]
    exact List.forall_mem_singleton.mpr h
  | .sequence children, state, world, h => by
    have hbegin := start_orderly (.sequence children) state world h.orderly
    rw [start] at hbegin
    rw [visits]
    refine List.forall_mem_cons.mpr ⟨h, ?_⟩
    split
    · exact List.forall_mem_nil _
    · exact visitsFrom_orderly .success children _ _ world h.obedient hbegin.2
  | .selector children, state, world, h => by
    have hbegin := start_orderly (.selector children) state world h.orderly
    rw [start] at hbegin
    obtain ⟨hbelow, -⟩ := arbitrate_orderly world h.obedient hbegin.1 hbegin.2
    rw [visits]
    refine List.forall_mem_cons.mpr ⟨h, ?_⟩
    split
    · exact List.forall_mem_nil _
    · rcases harb : arbitrate children state.begin world with ⟨_ | current, states, asked⟩
      · exact List.forall_mem_nil _
      · rw [harb] at hbelow
        exact visitsFrom_orderly .fail children current states asked h.obedient hbelow
  | .condition guard policy child, state, world, h => by
    have hstarted := start_orderly (.condition guard policy child) state world h.orderly
    rw [visits]
    refine List.forall_mem_cons.mpr ⟨h, ?_⟩
    rcases hstart : (Tree.condition guard policy child).start state world with ⟨started, begun⟩
    rcases hbroken : (if policy.abortsSelf then begun.stoppedHolding guard started.observer
      else (false, begun)) with ⟨broken, checked⟩
    rw [hstart] at hstarted
    dsimp only
    rw [hbroken]
    split
    · exact List.forall_mem_nil _
    · cases broken with
      | true => exact List.forall_mem_nil _
      | false => exact visitsOption_orderly child started.child checked h.obedient hstarted
  | .service label interval callback child, state, world, h => by
    have hstarted := start_orderly (.service label interval callback child) state world h.orderly
    rw [visits]
    refine List.forall_mem_cons.mpr ⟨h, ?_⟩
    dsimp only
    split
    · exact List.forall_mem_nil _
    · exact visitsOption_orderly child _ _ h.obedient hstarted

theorem visitsFrom_orderly : (goOn : Outcome) → (trees : List (Tree A)) → (i : Nat) →
    (states : StateList trees) → (world : World A) → ObedientList trees → OrderlyList trees states →
    ∀ visit ∈ visitsFrom goOn trees i states world, visit.node.Orderly
  | _, [], _, _, _, _, _ => List.forall_mem_nil _
  | goOn, tree :: trees, 0, (state, states), world, htrees, h => by
    rw [visitsFrom]
    refine List.forall_mem_append.mpr ⟨visits_orderly tree state world ⟨htrees.1, h.1⟩, ?_⟩
    dsimp only
    split
    · exact visitsFrom_orderly goOn trees 0 states _ htrees.2 h.2
    · exact List.forall_mem_nil _
  | goOn, _ :: trees, i + 1, (_, states), world, htrees, h => by
    rw [visitsFrom]
    exact visitsFrom_orderly goOn trees i states world htrees.2 h.2

theorem visitsOption_orderly : (tree : Option (Tree A)) → (state : StateOption tree) →
    (world : World A) → ObedientOption tree → OrderlyOption tree state →
    ∀ visit ∈ visitsOption tree state world, visit.node.Orderly
  | none, _, _, _, _ => List.forall_mem_nil _
  | some tree, state, world, htree, h => visits_orderly tree state world ⟨htree, h⟩

end

end Tree

end BehaviorTree
