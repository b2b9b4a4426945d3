import BehaviorTree.Proofs.Loading.Breaks
import BehaviorTree.Proofs.Lifecycle.Validation

namespace BehaviorTree

variable {A : Type}

namespace Tree

/-- How many children a node has, where its type says. -/
def arity? : Tree A → Option Nat
  | .sequence _ | .selector _ => none
  | .condition _ _ _ | .service _ _ _ _ => some 1
  | .action _ _ | .wait _ _ | .leaf _ => some 0

/-- Each node of the tree has as many children as its type says. -/
def Filled (tree : Tree A) : Prop :=
  ∀ position node, tree.at? position = some node → ∀ count ∈ node.arity?, node.children.length = count

theorem filled_iff (tree : Tree A) : tree.Filled ↔
    (∀ count ∈ tree.arity?, tree.children.length = count) ∧ ∀ child ∈ tree.children, child.Filled := by
  constructor
  · intro h
    refine ⟨h [] tree rfl, fun child hmem position node hnode => ?_⟩
    obtain ⟨i, hchild⟩ := List.getElem?_of_mem hmem
    exact h (i :: position) node (by rw [at?, hchild, Option.bind_some, hnode])
  · rintro ⟨hown, hbelow⟩ position node hnode
    cases position with
    | nil =>
      cases hnode
      exact hown
    | cons i position =>
      obtain ⟨child, hchild, hnode⟩ := Option.bind_eq_some_iff.mp hnode
      exact hbelow child (List.mem_of_getElem? hchild) position node hnode

end Tree

/-- The error tells of a node's arguments or place, and not of its children. -/
def BuildError.IsOfOwn : BuildError → Prop
  | .emptyKey | .operatorMismatch _ _ _ | .zeroInterval _ | .preemptionOutsideSelector _ _ => True
  | .missingChild _ => False

namespace Tree

variable {error : BuildError}

theorem checkGuard_error {guard : Guard} (h : checkGuard guard = .error error) : error.IsOfOwn := by
  rw [checkGuard] at h
  split_ifs at h <;> cases h <;> trivial

theorem checkOutsideSelector_error {tree : Tree A} (h : tree.checkOutsideSelector = .error error) :
    error.IsOfOwn := by
  rw [checkOutsideSelector] at h
  split at h <;> cases h
  trivial

mutual

theorem Filled.validate_error : (tree : Tree A) → tree.Filled → tree.validate = .error error →
    error.IsOfOwn
  | .action _ _, _, h => nomatch h
  | .wait _ _, _, h => nomatch h
  | .leaf _, _, h => nomatch h
  | .sequence trees, hfilled, h =>
    validateOutside_error trees ((filled_iff _).mp hfilled).2 (by rwa [validate] at h)
  | .selector trees, hfilled, h =>
    validateList_error trees ((filled_iff _).mp hfilled).2 (by rwa [validate] at h)
  | .condition guard policy none, hfilled, _ => nomatch ((filled_iff _).mp hfilled).1 1 rfl
  | .condition guard policy (some child), hfilled, h => by
    have hchild := ((filled_iff _).mp hfilled).2 child (List.mem_singleton_self child)
    rw [validate] at h
    obtain h | ⟨_, _, h⟩ := error_of_bind h
    · exact checkGuard_error h
    obtain h | ⟨_, _, h⟩ := error_of_bind h
    · exact checkOutsideSelector_error h
    · exact Filled.validate_error child hchild h
  | .service label interval callback none, hfilled, _ =>
    nomatch ((filled_iff _).mp hfilled).1 1 rfl
  | .service label interval callback (some child), hfilled, h => by
    have hchild := ((filled_iff _).mp hfilled).2 child (List.mem_singleton_self child)
    rw [validate] at h
    split_ifs at h
    · cases h
      trivial
    · exact Filled.validate_error child hchild h

theorem validateList_error : (trees : List (Tree A)) → (∀ tree ∈ trees, tree.Filled) →
    validateList trees = .error error → error.IsOfOwn
  | [], _, h => nomatch h
  | tree :: trees, hfilled, h => by
    obtain ⟨hfirst, hrest⟩ := List.forall_mem_cons.mp hfilled
    rw [validateList] at h
    obtain h | ⟨_, _, h⟩ := error_of_bind h
    · exact Filled.validate_error tree hfirst h
    · exact validateList_error trees hrest h

theorem validateOutside_error : (trees : List (Tree A)) → (∀ tree ∈ trees, tree.Filled) →
    validateOutside trees = .error error → error.IsOfOwn
  | [], _, h => nomatch h
  | tree :: trees, hfilled, h => by
    obtain ⟨hfirst, hrest⟩ := List.forall_mem_cons.mp hfilled
    rw [validateOutside] at h
    obtain h | ⟨_, _, h⟩ := error_of_bind h
    · exact checkOutsideSelector_error h
    obtain h | ⟨_, _, h⟩ := error_of_bind h
    · exact Filled.validate_error tree hfirst h
    · exact validateOutside_error trees hrest h

end

theorem Filled.withBoard_error {tree : Tree A} (h : tree.Filled) {board : Board} {agent : A}
    {react : Notice → A → A} {random : Random}
    (herror : Root.withBoard tree board agent react random = .error error) : error.IsOfOwn := by
  obtain herror | ⟨_, _, herror⟩ := error_of_bind herror
  · exact checkOutsideSelector_error herror
  obtain herror | ⟨_, _, herror⟩ := error_of_bind herror
  · exact h.validate_error tree herror
  · cases herror

end Tree

namespace Registry

/-- A node of a type that is built from children. The built-in types are told by their names; an action may
go by any name, and hides a built-in type of that name. -/
inductive Takes : String → List (Tree A) → Tree A → Prop where
  | sequence (children : List (Tree A)) : Takes "Sequence" children (.sequence children)
  | selector (children : List (Tree A)) : Takes "Selector" children (.selector children)
  | condition (guard : Guard) (policy : RestartPolicy) (child : Tree A) :
    Takes "Condition" [child] (.condition guard policy (some child))
  | service (label : String) (interval : Duration) (callback : Routine A) (child : Tree A) :
    Takes "Service" [child] (.service label interval callback (some child))
  | wait (duration variance : Duration) : Takes "Wait" [] (.wait duration variance)
  | action (type : String) (command : Command A) : Takes type [] (.action type command)

/-- The built-in types, and actions and services that were registered after them. -/
inductive Extended : Registry A → Prop where
  | builtIn : Extended builtIn
  | action {registry : Registry A} (type : String) (accepted : List String)
    (make : Arguments → Except LoadError (Command A)) :
    Extended registry → Extended (registry.registerAction type accepted make)
  | service {registry : Registry A} (name : String) (callback : Routine A) :
    Extended registry → Extended (registry.registerService name callback)

section Shapes

variable (registry : Registry A) (source : Source)

mutual

/-- A tree has the shape of a written node: its children have the shapes of the written ones, in their
order, and a reference has the shape of the definition that it names. -/
inductive Shapes : SourceNode → Tree A → Prop where
  | build {node : SourceNode} {trees : List (Tree A)} {tree : Tree A} :
    registry.contains node.type = true → ShapesList node.children trees →
    Takes node.type trees tree → Shapes node tree
  | refer {node : SourceNode} {definition : Definition} {tree : Tree A} :
    registry.contains node.type = false → source.find? node.type = some definition →
    node.args = [] → node.children = [] → Shapes definition.root tree → Shapes node tree

inductive ShapesList : List SourceNode → List (Tree A) → Prop where
  | nil : ShapesList [] []
  | cons {node : SourceNode} {nodes : List SourceNode} {tree : Tree A} {trees : List (Tree A)} :
    Shapes node tree → ShapesList nodes trees → ShapesList (node :: nodes) (tree :: trees)

end

end Shapes

section Takes

variable {type : String} {children : List (Tree A)} {tree : Tree A}

theorem Takes.children_eq (h : Takes type children tree) : tree.children = children := by
  cases h <;> rfl

theorem Takes.arity (h : Takes type children tree) : ∀ count ∈ tree.arity?, tree.children.length = count := by
  cases h <;> simp [Tree.arity?, Tree.children]

variable {args : Arguments} {services : String → Option (Routine A)}

theorem eq_nil_of_noChildren (h : noChildren args children = .ok ()) : children = [] := by
  rw [noChildren] at h
  split_ifs at h with hempty
  exact List.isEmpty_iff.mp hempty

theorem eq_singleton_of_singleChild {child : Tree A} (h : singleChild args children = .ok child) :
    children = [child] := by
  rw [singleChild.eq_def] at h
  split at h <;> cases h
  rfl

theorem takes_condition (h : Constructor.condition args children services = .ok tree) :
    Takes "Condition" children tree := by
  obtain ⟨operator, _, h⟩ := ok_of_bind h
  have hrest (threshold : Value) (h : (do
      let key ← args.required "key"
      let policy ← args.readOr RestartPolicy.ofKeyword? "restart" .none
      let child ← singleChild args children
      return Tree.condition ⟨key, operator, threshold⟩ policy (some child)) = .ok tree) :
      Takes "Condition" children tree := by
    obtain ⟨key, _, h⟩ := ok_of_bind h
    obtain ⟨policy, _, h⟩ := ok_of_bind h
    obtain ⟨child, hchild, h⟩ := ok_of_bind h
    cases h
    rw [eq_singleton_of_singleChild hchild]
    exact .condition _ _ child
  dsimp only at h
  split at h
  · exact hrest _ h
  · exact hrest _ h
  · obtain ⟨threshold, _, h⟩ := ok_of_bind h
    exact hrest threshold h

theorem takes_service (h : Constructor.service args children services = .ok tree) :
    Takes "Service" children tree := by
  obtain ⟨name, _, h⟩ := ok_of_bind h
  cases hcallback : services name with
  | none =>
    rw [hcallback] at h
    cases h
  | some callback =>
    rw [hcallback] at h
    obtain ⟨interval, _, h⟩ := ok_of_bind h
    obtain ⟨child, hchild, h⟩ := ok_of_bind h
    cases h
    rw [eq_singleton_of_singleChild hchild]
    exact .service _ _ _ child

theorem takes_wait (h : Constructor.wait args children services = .ok tree) :
    Takes "Wait" children tree := by
  obtain ⟨_, hnone, h⟩ := ok_of_bind h
  obtain ⟨duration, _, h⟩ := ok_of_bind h
  obtain ⟨variance, _, h⟩ := ok_of_bind h
  cases h
  rw [eq_nil_of_noChildren hnone]
  exact .wait duration variance

end Takes

/-- Each type of the registry takes its children. -/
def Tidy (registry : Registry A) : Prop :=
  ∀ entry ∈ registry.types, ∀ args children services tree, args.node = entry.1 →
    entry.2.build args children services = .ok tree → Takes entry.1 children tree

variable {registry : Registry A} {source : Source}

theorem Tidy.register (h : registry.Tidy) {type : String} {accepted : List String}
    {build : Constructor A}
    (hbuild : ∀ args children services tree, args.node = type →
      build args children services = .ok tree → Takes type children tree) :
    (registry.register type accepted build).Tidy :=
  List.forall_mem_cons.mpr ⟨hbuild, h⟩

theorem builtIn_tidy : (builtIn : Registry A).Tidy := by
  have hempty : (empty : Registry A).Tidy := by rintro _ ⟨⟩
  refine Tidy.register (Tidy.register (Tidy.register (hempty.register ?_ |>.register ?_) ?_) ?_) ?_
  · rintro _ children _ _ _ ⟨⟩
    exact .sequence children
  · rintro _ children _ _ _ ⟨⟩
    exact .selector children
  · exact fun _ _ _ _ _ h => takes_condition h
  · exact fun _ _ _ _ _ h => takes_service h
  · exact fun _ _ _ _ _ h => takes_wait h

theorem Extended.tidy (h : registry.Extended) : registry.Tidy := by
  induction h with
  | builtIn => exact builtIn_tidy
  | action type accepted make _ ih =>
    refine ih.register ?_
    rintro args children _ _ rfl hbuild
    obtain ⟨_, hnone, hbuild⟩ := ok_of_bind hbuild
    obtain ⟨command, _, hbuild⟩ := ok_of_bind hbuild
    cases hbuild
    rw [eq_nil_of_noChildren hnone]
    exact .action args.node command
  | service name callback _ ih => exact ih

theorem Tidy.build (h : registry.Tidy) {args : Arguments} {trees : List (Tree A)} {tree : Tree A}
    (hbuild : registry.build args trees = .ok tree) : Takes args.node trees tree := by
  rw [Registry.build] at hbuild
  cases htype : registry.type? args.node with
  | none =>
    rw [htype] at hbuild
    cases hbuild
  | some type =>
    rw [htype] at hbuild
    obtain ⟨before, after, htypes, -⟩ := List.lookup_eq_some_iff.mp htype
    obtain ⟨_, _, hbuild⟩ := ok_of_bind hbuild
    refine h (args.node, type) ?_ args trees _ tree rfl hbuild
    rw [htypes]
    exact List.mem_append_right _ List.mem_cons_self

mutual

theorem Tidy.shapes (h : registry.Tidy) {expanding : List String} {node : SourceNode}
    {result : Except LoadError (Tree A)} : registry.Expands source expanding node result →
      ∀ tree, result = .ok tree → registry.Shapes source node tree
  | .build hown hlist, _, hbuild => .build hown (h.shapesList hlist _ rfl) (h.build hbuild)
  | .fault _ _, _, herror => nomatch herror
  | .refuse _ _, _, herror => nomatch herror
  | .refer hown hrefer hroot, tree, htree => by
    obtain ⟨hfind, hargs, hchildren, -⟩ := referred_eq_ok.mp hrefer
    exact .refer hown hfind hargs hchildren (h.shapes hroot tree htree)

theorem Tidy.shapesList (h : registry.Tidy) {expanding : List String} {nodes : List SourceNode}
    {result : Except LoadError (List (Tree A))} : registry.ExpandsList source expanding nodes result →
      ∀ trees, result = .ok trees → registry.ShapesList source nodes trees
  | .nil, _, rfl => .nil
  | .cons hnode hnodes, _, rfl => .cons (h.shapes hnode _ rfl) (h.shapesList hnodes _ rfl)
  | .first _, _, herror => nomatch herror
  | .rest _ _, _, herror => nomatch herror

end

mutual

theorem Shapes.filled {node : SourceNode} {tree : Tree A} :
    registry.Shapes source node tree → tree.Filled
  | .build _ hlist htakes => by
    rw [Tree.filled_iff]
    refine ⟨htakes.arity, ?_⟩
    rw [htakes.children_eq]
    exact hlist.filled
  | .refer _ _ _ _ hroot => hroot.filled

theorem ShapesList.filled {nodes : List SourceNode} {trees : List (Tree A)} :
    registry.ShapesList source nodes trees → ∀ tree ∈ trees, tree.Filled
  | .nil => List.forall_mem_nil _
  | .cons hnode hnodes => List.forall_mem_cons.mpr ⟨hnode.filled, hnodes.filled⟩

end

/-- A tree that is loaded has the shape of the definition of its name. Each node of it has as many children
as its type says, so where no root can be made of it, the error tells of a key, a threshold, an interval
or the place of a condition. -/
theorem Extended.load_shapes (h : registry.Extended) {name : String} {tree : Tree A}
    (hload : registry.load source name = .ok tree) :
    (∃ definition, source.find? name = some definition ∧
      registry.Shapes source definition.root tree) ∧
    (∀ position node, tree.at? position = some node →
      ∀ count ∈ node.arity?, node.children.length = count) ∧
    ∀ board agent react random error, Root.withBoard tree board agent react random = .error error →
      error = .emptyKey ∨ (∃ key operator threshold, error = .operatorMismatch key operator threshold) ∨
        (∃ owner, error = .zeroInterval owner) ∨
        ∃ owner policy, error = .preemptionOutsideSelector owner policy := by
  cases hfind : source.find? name with
  | none =>
    rw [load, hfind] at hload
    cases hload
  | some definition =>
    have hshapes := h.tidy.shapes (load_expands hfind) tree hload
    refine ⟨⟨definition, rfl, hshapes⟩, hshapes.filled, fun board agent react random error herror => ?_⟩
    have hown := hshapes.filled.withBoard_error herror
    cases error with
    | missingChild owner => exact hown.elim
    | emptyKey => exact .inl rfl
    | operatorMismatch key operator threshold => exact .inr (.inl ⟨key, operator, threshold, rfl⟩)
    | zeroInterval owner => exact .inr (.inr (.inl ⟨owner, rfl⟩))
    | preemptionOutsideSelector owner policy => exact .inr (.inr (.inr ⟨owner, policy, rfl⟩))

def lamplighter : Registry Nat :=
  Registry.builtIn
    |>.registerAction "Light" [] (fun _ => .ok (.always (· + 1)))
    |>.registerService "look" .done
    |>.registerAction "Wait" [] (fun _ => .ok (.always id))

/-- A round of lamps that is made at dusk, with a condition where no selector is above it. -/
def lampSource : Source where
  definitions := [
    ⟨"evening", .mk "Sequence" [] [
      .mk "Condition"
        [⟨"key", .bare "dusk"⟩, ⟨"op", .bare "is_set"⟩, ⟨"restart", .bare "lower_priority"⟩]
        [.mk "round" [] []],
      .mk "Wait" [] []]⟩,
    ⟨"round", .mk "Selector" [] [.mk "Light" [] [], .mk "Light" [] []]⟩]

def lampTree : Tree Nat :=
  .sequence [
    .condition ⟨"dusk", .isSet, .bool true⟩ .lowerPriority
      (some (.selector [.action "Light" (.always (· + 1)), .action "Light" (.always (· + 1))])),
    .action "Wait" (.always id)]

theorem lampTree_misplaced : lamplighter.Extended ∧ lamplighter.load lampSource "evening" = .ok lampTree ∧
    (∃ definition, lampSource.find? "evening" = some definition ∧
      lamplighter.Shapes lampSource definition.root lampTree) ∧
    Root.withBoard lampTree {} 0 =
      .error (.preemptionOutsideSelector "BlackboardCondition" .lowerPriority) := by
  have hextended : lamplighter.Extended := .action _ _ _ (.service _ _ (.action _ _ _ .builtIn))
  have hload : lamplighter.load lampSource "evening" = .ok lampTree := by rfl
  exact ⟨hextended, hload, (hextended.load_shapes hload).1, rfl⟩

end Registry

end BehaviorTree
