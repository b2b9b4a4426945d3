import BehaviorTree.Proofs.Time.Cadence

namespace BehaviorTree

variable {A : Type}

namespace Tree

def children : Tree A → List (Tree A)
  | .sequence children => children
  | .selector children => children
  | .condition _ _ child => child.toList
  | .service _ _ _ child => child.toList
  | .action _ _ | .wait _ _ | .leaf _ => []

/-- The subtree at a position, which is a row of indices from the top downwards. -/
def at? (tree : Tree A) : List Nat → Option (Tree A)
  | [] => some tree
  | i :: position => tree.children[i]?.bind (·.at? position)

/-- The nodes above a position, the nearest one first. -/
def above (tree : Tree A) : List Nat → List (Tree A)
  | [] => []
  | i :: position =>
    match tree.children[i]? with
    | none => []
    | some child => child.above position ++ [tree]

def isService : Tree A → Bool
  | .service _ _ _ _ => true
  | _ => false

/-- The nearest node above a position that is not a service. -/
def parent? (tree : Tree A) (position : List Nat) : Option (Tree A) :=
  (tree.above position).find? (!·.isService)

/-- A decorator has its child, and what it needs besides. -/
def Complete : Tree A → Prop
  | .condition guard _ child =>
    guard.key ≠ "" ∧ child ≠ none ∧
      (guard.operator ∈ [.less, .lessOrEqual, .greater, .greaterOrEqual] →
        guard.threshold.kind = .number)
  | .service _ interval _ child => child ≠ none ∧ interval ≠ 0
  | _ => True

def IsSelector (parent : Option (Tree A)) : Prop := ∃ children, parent = some (.selector children)

/-- A condition that acts on siblings of lower priority alone has a selector above it. -/
def Placed (parent : Option (Tree A)) : Tree A → Prop
  | .condition _ policy _ => policy = .lowerPriority → IsSelector parent
  | _ => True

/-- Each node of the tree is complete and in its place, where `parent` is the nearest node above the tree
that is not a service. -/
def SoundBelow (parent : Option (Tree A)) (tree : Tree A) : Prop :=
  ∀ position node, tree.at? position = some node →
    node.Complete ∧ node.Placed ((tree.parent? position).or parent)

/-- The nearest node above a child that is not a service. -/
def parentBelow (parent : Option (Tree A)) (tree : Tree A) : Option (Tree A) :=
  if tree.isService then parent else some tree

theorem parent?_cons {tree child : Tree A} {i : Nat} (hchild : tree.children[i]? = some child)
    (position : List Nat) (parent : Option (Tree A)) :
    (tree.parent? (i :: position)).or parent =
      (child.parent? position).or (tree.parentBelow parent) := by
  have hown : ([tree].find? (!·.isService)).or parent = tree.parentBelow parent := by
    rw [List.find?_singleton, parentBelow]
    cases tree.isService <;> simp
  rw [parent?, above, hchild, List.find?_append, Option.or_assoc, hown]
  rfl

theorem soundBelow_children (parent : Option (Tree A)) (tree : Tree A) :
    tree.SoundBelow parent ↔ (tree.Complete ∧ tree.Placed parent) ∧
      ∀ child ∈ tree.children, child.SoundBelow (tree.parentBelow parent) := by
  constructor
  · intro h
    refine ⟨h [] tree rfl, fun child hmem position node hnode => ?_⟩
    obtain ⟨i, hchild⟩ := List.getElem?_of_mem hmem
    rw [← parent?_cons hchild]
    exact h (i :: position) node (by rw [at?, hchild, Option.bind_some, hnode])
  · rintro ⟨hown, hbelow⟩ position node hnode
    cases position with
    | nil =>
      cases hnode
      exact hown
    | cons i position =>
      obtain ⟨child, hchild, hnode⟩ := Option.bind_eq_some_iff.mp hnode
      rw [parent?_cons hchild]
      exact hbelow child (List.mem_of_getElem? hchild) position node hnode

theorem checkOutsideSelector_eq_ok {tree : Tree A} :
    tree.checkOutsideSelector = .ok () ↔ tree.selectorOnlyPolicy = none := by
  rw [checkOutsideSelector]
  cases tree.selectorOnlyPolicy <;> simp

theorem checkGuard_eq_ok {guard : Guard} :
    checkGuard guard = .ok () ↔ guard.key ≠ "" ∧
      (guard.operator ∈ [.less, .lessOrEqual, .greater, .greaterOrEqual] →
        guard.threshold.kind = .number) := by
  have hordering : guard.operator.isOrdering = true ↔
      guard.operator ∈ [.less, .lessOrEqual, .greater, .greaterOrEqual] := by
    cases guard.operator <;> decide
  rw [checkGuard, ← hordering]
  by_cases hkey : guard.key = ""
  · simp [hkey]
  · cases guard.operator.isOrdering <;> simp [hkey]

theorem soundBelow_of_leaf {tree : Tree A} {parent : Option (Tree A)} (hleaf : tree.children = [])
    (hown : tree.Complete ∧ tree.Placed parent) : tree.SoundBelow parent :=
  (soundBelow_children parent tree).mpr ⟨hown, by simp [hleaf]⟩

mutual

/-- What validation accepts below a node, and what a tree demands of that node, come to the same as the
soundness of each node in its place. -/
theorem soundBelow_iff : (tree : Tree A) → (parent : Option (Tree A)) →
    (tree.SoundBelow parent ↔
      tree.validate = .ok () ∧ (tree.selectorOnlyPolicy = none ∨ IsSelector parent))
  | .action _ _, _ => iff_of_true (soundBelow_of_leaf rfl ⟨trivial, trivial⟩) ⟨rfl, .inl rfl⟩
  | .wait _ _, _ => iff_of_true (soundBelow_of_leaf rfl ⟨trivial, trivial⟩) ⟨rfl, .inl rfl⟩
  | .leaf _, _ => iff_of_true (soundBelow_of_leaf rfl ⟨trivial, trivial⟩) ⟨rfl, .inl rfl⟩
  | .sequence trees, parent => by
    have hbelow := soundBelow_outside trees (some (.sequence trees)) (by simp [IsSelector])
    rw [soundBelow_children, validate]
    exact ⟨fun h => ⟨hbelow.mp h.2, .inl rfl⟩, fun h => ⟨⟨trivial, trivial⟩, hbelow.mpr h.1⟩⟩
  | .selector trees, parent => by
    have hbelow := soundBelow_list trees (some (.selector trees)) ⟨trees, rfl⟩
    rw [soundBelow_children, validate]
    exact ⟨fun h => ⟨hbelow.mp h.2, .inl rfl⟩, fun h => ⟨⟨trivial, trivial⟩, hbelow.mpr h.1⟩⟩
  | .condition guard policy none, parent => by
    rw [soundBelow_children, validate, andThen_eq_ok]
    simp [Complete]
  | .condition guard policy (some child), parent => by
    have hbelow := soundBelow_iff child (some (.condition guard policy (some child)))
    have hpolicy : (Tree.condition guard policy (some child)).selectorOnlyPolicy = none ↔
        policy ≠ .lowerPriority := by
      cases policy <;> simp [selectorOnlyPolicy]
    rw [soundBelow_children, validate, andThen_eq_ok, andThen_eq_ok, hpolicy, checkGuard_eq_ok,
      checkOutsideSelector_eq_ok]
    simp only [IsSelector, Option.some.injEq, reduceCtorEq, exists_false, or_false] at hbelow
    simp only [Complete, Placed, children, Option.toList_some, List.forall_mem_singleton, parentBelow,
      isService, Bool.false_eq_true, if_false, hbelow]
    tauto
  | .service label interval callback none, parent => by
    rw [soundBelow_children, validate]
    by_cases hzero : interval = 0 <;> simp [Complete, hzero]
  | .service label interval callback (some child), parent => by
    have hbelow := soundBelow_iff child parent
    rw [soundBelow_children, validate, selectorOnlyPolicy]
    simp only [Complete, Placed, children, Option.toList_some, List.forall_mem_singleton, parentBelow,
      isService, if_true, hbelow]
    by_cases hzero : interval = 0 <;> simp [hzero]

theorem soundBelow_list : (trees : List (Tree A)) → (parent : Option (Tree A)) →
    IsSelector parent → ((∀ tree ∈ trees, tree.SoundBelow parent) ↔ validateList trees = .ok ())
  | [], _, _ => by simp [validateList]
  | tree :: trees, parent, h => by
    have hfirst := (soundBelow_iff tree parent).trans (and_iff_left (.inr h))
    rw [List.forall_mem_cons, validateList, andThen_eq_ok, hfirst, soundBelow_list trees parent h]

theorem soundBelow_outside : (trees : List (Tree A)) → (parent : Option (Tree A)) →
    ¬IsSelector parent → ((∀ tree ∈ trees, tree.SoundBelow parent) ↔ validateOutside trees = .ok ())
  | [], _, _ => by simp [validateOutside]
  | tree :: trees, parent, h => by
    rw [List.forall_mem_cons, validateOutside, andThen_eq_ok, andThen_eq_ok, soundBelow_iff tree parent,
      soundBelow_outside trees parent h, or_iff_left h, checkOutsideSelector_eq_ok]
    tauto

end

end Tree

/-- A tree can be wrapped, with any board, just if each of its nodes is complete and in its place. -/
theorem Root.exists_withBoard_iff (tree : Tree A) (board : Board) (agent : A)
    (react : Notice → A → A) (random : Random) :
    (∃ root, Root.withBoard tree board agent react random = .ok root) ↔
      ∀ position node, tree.at? position = some node →
        node.Complete ∧ node.Placed (tree.parent? position) := by
  have hroot : (∃ root, Root.withBoard tree board agent react random = .ok root) ↔
      tree.checkOutsideSelector = .ok () ∧ tree.validate = .ok () := by
    simp only [Root.withBoard_eq_ok]
    simp
  have hsound := Tree.soundBelow_iff tree none
  rw [or_iff_left (by simp [Tree.IsSelector]), Tree.SoundBelow] at hsound
  simp only [Option.or_none] at hsound
  rw [hroot, Tree.checkOutsideSelector_eq_ok, and_comm, ← hsound]

end BehaviorTree
