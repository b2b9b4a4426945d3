import Mathlib.Data.Finset.Card
import Mathlib.Logic.Relation
import BehaviorTree.Registry.Assembly
import BehaviorTree.Registry.BuiltIn

namespace BehaviorTree

open Relation

variable {A : Type}

/-- A node stands somewhere in a written tree. -/
inductive SourceNode.Occurs (node : SourceNode) : SourceNode → Prop where
  | self : Occurs node node
  | inner {type : String} {args : List Arg} {children : List SourceNode} {child : SourceNode} :
    child ∈ children → Occurs node child → Occurs node (.mk type args children)

theorem SourceNode.Occurs.child {node child root : SourceNode} (hchild : child ∈ node.children)
    (h : node.Occurs root) : child.Occurs root := by
  induction h with
  | self =>
    cases node
    exact .inner hchild .self
  | inner hmem _ ih => exact .inner hmem ih

theorem SourceNode.occurs_mk {node : SourceNode} {type : String} {args : List Arg}
    {children : List SourceNode} : node.Occurs (.mk type args children) ↔
      node = .mk type args children ∨ ∃ child ∈ children, node.Occurs child := by
  constructor
  · intro h
    cases h with
    | self => exact .inl rfl
    | inner hmem hchild => exact .inr ⟨_, hmem, hchild⟩
  · rintro (rfl | ⟨child, hmem, hchild⟩)
    · exact .self
    · exact .inner hmem hchild

namespace Source

theorem name_of_find? {source : Source} {name : String} {definition : Definition}
    (h : source.find? name = some definition) : definition.name = name := by
  simpa using List.find?_some h

def Within (source : Source) (name : String) (node : SourceNode) : Prop :=
  ∃ definition, source.find? name = some definition ∧ node.Occurs definition.root

theorem Within.child {source : Source} {name : String} {node child : SourceNode}
    (h : source.Within name node) (hchild : child ∈ node.children) : source.Within name child := by
  obtain ⟨definition, hfind, hoccurs⟩ := h
  exact ⟨definition, hfind, hoccurs.child hchild⟩

def names (source : Source) : Finset String := (source.definitions.map (·.name)).toFinset

theorem mem_names_of_find? {source : Source} {name : String} {definition : Definition}
    (h : source.find? name = some definition) : name ∈ source.names := by
  rw [names, List.mem_toFinset, ← name_of_find? h]
  exact List.mem_map_of_mem (List.mem_of_find?_eq_some h)

def left (source : Source) (expanding : List String) : Nat :=
  (source.names \ expanding.toFinset).card

theorem left_cons {source : Source} {name : String} {expanding : List String}
    (hmem : name ∈ source.names) (hnew : name ∉ expanding) :
    source.left (name :: expanding) < source.left expanding := by
  have hopen : name ∈ source.names \ expanding.toFinset := by simp [hmem, hnew]
  rw [left, left, List.toFinset_cons, Finset.sdiff_insert]
  exact Finset.card_erase_lt_of_mem hopen

theorem left_singleton {source : Source} {name : String} (hmem : name ∈ source.names) :
    source.left [name] < source.definitions.length :=
  calc source.left [name] < source.left [] := left_cons hmem (by simp)
    _ = source.names.card := by simp [left]
    _ ≤ source.definitions.length := by
      simpa [names] using (source.definitions.map (·.name)).toFinset_card_le

end Source

namespace Registry

theorem referred_eq_ok {source : Source} {expanding : List String} {node : SourceNode}
    {definition : Definition} : referred source expanding node = .ok definition ↔
      source.find? node.type = some definition ∧ node.args = [] ∧ node.children = [] ∧
        node.type ∉ expanding := by
  rw [referred]
  cases source.find? node.type with
  | none => simp
  | some found =>
    by_cases hbare : node.args = [] ∧ node.children = []
    · by_cases hmem : node.type ∈ expanding <;> simp [hbare, hmem]
    · have hrefuse : (!node.args.isEmpty || !node.children.isEmpty) = true := by
        simpa [-not_and, not_and_or] using hbare
      simp only [hrefuse, if_true, reduceCtorEq, false_iff]
      tauto

section Expands

variable (registry : Registry A) (source : Source)

mutual

/-- A node expands with a result, within the expansions of the definitions of some names. -/
inductive Expands : List String → SourceNode → Except LoadError (Tree A) → Prop where
  | build {expanding : List String} {node : SourceNode} {trees : List (Tree A)} :
    registry.contains node.type = true →
    ExpandsList expanding node.children (.ok trees) →
    Expands expanding node (registry.build (.ofNode node) trees)
  | fault {expanding : List String} {node : SourceNode} {error : LoadError} :
    registry.contains node.type = true →
    ExpandsList expanding node.children (.error error) →
    Expands expanding node (.error error)
  | refuse {expanding : List String} {node : SourceNode} {error : LoadError} :
    registry.contains node.type = false →
    referred source expanding node = .error error →
    Expands expanding node (.error error)
  | refer {expanding : List String} {node : SourceNode} {definition : Definition}
      {result : Except LoadError (Tree A)} :
    registry.contains node.type = false →
    referred source expanding node = .ok definition →
    Expands (node.type :: expanding) definition.root result →
    Expands expanding node result

/-- The first error ends the expansion of a row of nodes. -/
inductive ExpandsList : List String → List SourceNode → Except LoadError (List (Tree A)) → Prop where
  | nil {expanding : List String} : ExpandsList expanding [] (.ok [])
  | cons {expanding : List String} {node : SourceNode} {nodes : List SourceNode} {tree : Tree A}
      {trees : List (Tree A)} :
    Expands expanding node (.ok tree) → ExpandsList expanding nodes (.ok trees) →
    ExpandsList expanding (node :: nodes) (.ok (tree :: trees))
  | first {expanding : List String} {node : SourceNode} {nodes : List SourceNode}
      {error : LoadError} :
    Expands expanding node (.error error) → ExpandsList expanding (node :: nodes) (.error error)
  | rest {expanding : List String} {node : SourceNode} {nodes : List SourceNode} {tree : Tree A}
      {error : LoadError} :
    Expands expanding node (.ok tree) → ExpandsList expanding nodes (.error error) →
    ExpandsList expanding (node :: nodes) (.error error)

end

end Expands

variable {registry : Registry A} {source : Source}

mutual

theorem Expands.unique {expanding : List String} {node : SourceNode}
    {result other : Except LoadError (Tree A)} : registry.Expands source expanding node result →
      registry.Expands source expanding node other → result = other
  | .build hown hlist, hother => by
    cases hother with
    | build _ hlist' => cases hlist.unique hlist'; rfl
    | fault _ hlist' => cases hlist.unique hlist'
    | refuse hown' _ => simp [hown] at hown'
    | refer hown' _ _ => simp [hown] at hown'
  | .fault hown hlist, hother => by
    cases hother with
    | build _ hlist' => cases hlist.unique hlist'
    | fault _ hlist' => cases hlist.unique hlist'; rfl
    | refuse hown' _ => simp [hown] at hown'
    | refer hown' _ _ => simp [hown] at hown'
  | .refuse hown hrefer, hother => by
    cases hother with
    | build hown' _ => simp [hown] at hown'
    | fault hown' _ => simp [hown] at hown'
    | refuse _ hrefer' => cases hrefer.symm.trans hrefer'; rfl
    | refer _ hrefer' _ => cases hrefer.symm.trans hrefer'
  | .refer hown hrefer hroot, hother => by
    cases hother with
    | build hown' _ => simp [hown] at hown'
    | fault hown' _ => simp [hown] at hown'
    | refuse _ hrefer' => cases hrefer.symm.trans hrefer'
    | refer _ hrefer' hroot' =>
      cases hrefer.symm.trans hrefer'
      exact hroot.unique hroot'

theorem ExpandsList.unique {expanding : List String} {nodes : List SourceNode}
    {result other : Except LoadError (List (Tree A))} :
    registry.ExpandsList source expanding nodes result →
      registry.ExpandsList source expanding nodes other → result = other
  | .nil, .nil => rfl
  | .cons hnode hnodes, hother => by
    cases hother with
    | cons hnode' hnodes' =>
      cases hnode.unique hnode'
      cases hnodes.unique hnodes'
      rfl
    | first hnode' => cases hnode.unique hnode'
    | rest _ hnodes' => cases hnodes.unique hnodes'
  | .first hnode, hother => by
    cases hother with
    | cons hnode' _ => cases hnode.unique hnode'
    | first hnode' => cases hnode.unique hnode'; rfl
    | rest hnode' _ => cases hnode.unique hnode'
  | .rest hnode hnodes, hother => by
    cases hother with
    | cons _ hnodes' => cases hnodes.unique hnodes'
    | first hnode' => cases hnode.unique hnode'
    | rest _ hnodes' => cases hnodes.unique hnodes'; rfl

end

section Assemble

variable {refer : SourceNode → Except LoadError (Tree A)} {expanding : List String}

mutual

theorem assemble_expands (hrefer : ∀ node, registry.contains node.type = false →
      registry.Expands source expanding node (refer node)) : (node : SourceNode) →
    registry.Expands source expanding node (registry.assemble refer node)
  | .mk type args children => by
    have hchildren := assembleList_expands hrefer children
    rw [assemble]
    cases hown : registry.contains type with
    | false => exact hrefer (.mk type args children) hown
    | true =>
      cases hbuilt : registry.assembleList refer children with
      | error error => exact .fault hown (hbuilt ▸ hchildren)
      | ok trees => exact .build hown (hbuilt ▸ hchildren)

theorem assembleList_expands (hrefer : ∀ node, registry.contains node.type = false →
      registry.Expands source expanding node (refer node)) : (nodes : List SourceNode) →
    registry.ExpandsList source expanding nodes (registry.assembleList refer nodes)
  | [] => .nil
  | node :: nodes => by
    have hnode := assemble_expands hrefer node
    have hnodes := assembleList_expands hrefer nodes
    rw [assembleList]
    cases hfirst : registry.assemble refer node with
    | error error => exact .first (hfirst ▸ hnode)
    | ok tree =>
      cases hrest : registry.assembleList refer nodes with
      | error error => exact .rest (hfirst ▸ hnode) (hrest ▸ hnodes)
      | ok trees => exact .cons (hfirst ▸ hnode) (hrest ▸ hnodes)

end

end Assemble

/-- A depth beyond the number of names that are left is never used up. -/
theorem expand_expands {depth : Nat} {expanding : List String} (hdepth : source.left expanding < depth)
    (node : SourceNode) :
    registry.Expands source expanding node (registry.expand source depth expanding node) := by
  -- Each definition that is opened leaves one name fewer, so the depth outlasts the names.
  induction depth generalizing expanding node with
  | zero => omega
  | succ depth ih =>
    refine assemble_expands (fun node hown => ?_) node
    cases hrefer : referred source expanding node with
    | error error => exact .refuse hown hrefer
    | ok definition =>
      obtain ⟨hfind, -, -, hnew⟩ := referred_eq_ok.mp hrefer
      have hleft := Source.left_cons (Source.mem_names_of_find? hfind) hnew
      exact .refer hown hrefer (ih (by omega) definition.root)

theorem load_expands {name : String} {definition : Definition}
    (hname : source.find? name = some definition) :
    registry.Expands source [name] definition.root (registry.load source name) := by
  rw [load, hname]
  exact expand_expands (Source.left_singleton (Source.mem_names_of_find? hname)) definition.root

section References

variable (registry : Registry A) (source : Source)

/-- A definition refers to another by a node whose type is not registered. -/
def Refers (outer inner : String) : Prop :=
  registry.contains inner = false ∧ (source.find? inner).isSome ∧
    ∃ node, source.Within outer node ∧ node.type = inner

/-- Some definition in reach refers to itself, perhaps by way of others. -/
def Recurs (name : String) : Prop :=
  ∃ other, ReflTransGen (registry.Refers source) name other ∧
    TransGen (registry.Refers source) other other

/-- A node is built from what its children expand to, or is a mere reference. -/
structure Resolves (node : SourceNode) : Prop where
  builds : registry.contains node.type = true → ∀ expanding trees,
    registry.ExpandsList source expanding node.children (.ok trees) →
      ∃ tree, registry.build (.ofNode node) trees = .ok tree
  refers : registry.contains node.type = false →
    (source.find? node.type).isSome ∧ node.args = [] ∧ node.children = []

end References

/-- The definition of `name`, which is in reach of `top`, is being expanded, and all that are being
expanded lead to it. -/
structure Inside (registry : Registry A) (source : Source) (top name : String)
    (expanding : List String) : Prop where
  reached : ReflTransGen (registry.Refers source) top name
  leads : ∀ other ∈ expanding, ReflTransGen (registry.Refers source) other name

theorem Inside.refer {top name inner : String} {expanding : List String}
    (h : registry.Inside source top name expanding) (hrefers : registry.Refers source name inner) :
    registry.Inside source top inner (inner :: expanding) where
  reached := h.reached.tail hrefers
  leads other hother := by
    rcases List.mem_cons.mp hother with rfl | hother
    · exact .refl
    · exact (h.leads other hother).tail hrefers

theorem Inside.recurs {top name inner : String} {expanding : List String}
    (h : registry.Inside source top name expanding) (hrefers : registry.Refers source name inner)
    (hmem : inner ∈ expanding) : registry.Recurs source top :=
  ⟨inner, h.reached.tail hrefers, TransGen.tail' (h.leads inner hmem) hrefers⟩

section Outcome

variable {top : String}

/-- An expansion ends with a value, unless it meets a recursion. -/
def Ends {α : Type} (registry : Registry A) (source : Source) (top : String)
    (result : Except LoadError α) : Prop :=
  (∃ value, result = .ok value) ∨
    (∃ type, result = .error (.infiniteRecursion type)) ∧ registry.Recurs source top

theorem Ends.of_error {α β : Type} {error : LoadError}
    (h : registry.Ends source top (.error error : Except LoadError α)) :
    registry.Ends source top (.error error : Except LoadError β) := by
  obtain ⟨_, hvalue⟩ | ⟨⟨type, htype⟩, hrecurs⟩ := h
  · cases hvalue
  · cases htype
    exact .inr ⟨⟨type, rfl⟩, hrecurs⟩

mutual

theorem Expands.ends (hresolves : ∀ name node, ReflTransGen (registry.Refers source) top name →
      source.Within name node → registry.Resolves source node)
    {expanding : List String} {node : SourceNode} {result : Except LoadError (Tree A)} {name : String}
    (hwithin : source.Within name node) (hinside : registry.Inside source top name expanding) :
    registry.Expands source expanding node result → registry.Ends source top result
  | .build hown hlist =>
    .inl ((hresolves name node hinside.reached hwithin).builds hown expanding _ hlist)
  | .fault _ hlist => (hlist.ends hresolves (fun _ => hwithin.child) hinside).of_error
  | .refuse hown hrefer => by
    obtain ⟨hdefined, hargs, hchildren⟩ :=
      (hresolves name node hinside.reached hwithin).refers hown
    have hrefers : registry.Refers source name node.type := ⟨hown, hdefined, node, hwithin, rfl⟩
    obtain ⟨definition, hfind⟩ := Option.isSome_iff_exists.mp hdefined
    -- A mere reference to a definition is refused for one reason alone.
    by_cases hmem : node.type ∈ expanding
    · have hagain : referred source expanding node = .error (.infiniteRecursion node.type) := by
        rw [referred, hfind]
        simp [hargs, hchildren, hmem]
      cases hrefer.symm.trans hagain
      exact .inr ⟨⟨node.type, rfl⟩, hinside.recurs hrefers hmem⟩
    · have hok := referred_eq_ok.mpr ⟨hfind, hargs, hchildren, hmem⟩
      cases hrefer.symm.trans hok
  | .refer hown hrefer hroot => by
    obtain ⟨hfind, -⟩ := referred_eq_ok.mp hrefer
    have hrefers : registry.Refers source name node.type :=
      ⟨hown, by rw [hfind]; rfl, node, hwithin, rfl⟩
    exact hroot.ends hresolves ⟨_, hfind, .self⟩ (hinside.refer hrefers)

theorem ExpandsList.ends (hresolves : ∀ name node, ReflTransGen (registry.Refers source) top name →
      source.Within name node → registry.Resolves source node)
    {expanding : List String} {nodes : List SourceNode} {result : Except LoadError (List (Tree A))}
    {name : String} (hwithin : ∀ node ∈ nodes, source.Within name node)
    (hinside : registry.Inside source top name expanding) :
    registry.ExpandsList source expanding nodes result → registry.Ends source top result
  | .nil => .inl ⟨[], rfl⟩
  | .cons _ _ => .inl ⟨_, rfl⟩
  | .first hnode => (hnode.ends hresolves (hwithin _ List.mem_cons_self) hinside).of_error
  | .rest _ hnodes =>
    hnodes.ends hresolves (fun node hnode => hwithin node (List.mem_cons_of_mem _ hnode)) hinside

end

end Outcome

theorem ExpandsList.of_mem {expanding : List String} {nodes : List SourceNode} {trees : List (Tree A)}
    (h : registry.ExpandsList source expanding nodes (.ok trees)) {node : SourceNode}
    (hmem : node ∈ nodes) : ∃ tree, registry.Expands source expanding node (.ok tree) := by
  induction nodes generalizing trees with
  | nil => cases hmem
  | cons first rest ih =>
    cases h with
    | cons hfirst hrest =>
      rcases List.mem_cons.mp hmem with rfl | hmem
      · exact ⟨_, hfirst⟩
      · exact ih hrest hmem

theorem Expands.of_occurs {expanding : List String} {root node : SourceNode} {tree : Tree A}
    (h : registry.Expands source expanding root (.ok tree)) (hoccurs : node.Occurs root) :
    ∃ tree, registry.Expands source expanding node (.ok tree) := by
  induction hoccurs generalizing tree with
  | self => exact ⟨tree, h⟩
  | @inner _ _ children _ hmem _ ih =>
    generalize hresult : (.ok tree : Except LoadError (Tree A)) = result at h
    cases h with
    | build _ hlist =>
      obtain ⟨_, hchild⟩ := hlist.of_mem hmem
      exact ih hchild
    | fault _ _ => cases hresult
    | refuse _ _ => cases hresult
    | refer _ hrefer _ =>
      -- Nothing stands below a reference.
      obtain ⟨-, -, hchildren, -⟩ := referred_eq_ok.mp hrefer
      have hnone : children = [] := hchildren
      simp [hnone] at hmem

/-- The expansion of the definition of `name` is open, and ends with a tree. -/
structure Opened (registry : Registry A) (source : Source) (name : String) (expanding : List String) :
    Prop where
  isOpen : name ∈ expanding
  expands : ∃ definition tree, source.find? name = some definition ∧
    registry.Expands source expanding definition.root (.ok tree)

theorem Opened.refer {outer inner : String} {expanding : List String}
    (h : registry.Opened source outer expanding) (hrefers : registry.Refers source outer inner) :
    inner ∉ expanding ∧ registry.Opened source inner (inner :: expanding) := by
  obtain ⟨hown, -, node, ⟨definition, hfind, hoccurs⟩, rfl⟩ := hrefers
  obtain ⟨opened, _, hopened, hroot⟩ := h.expands
  cases hfind.symm.trans hopened
  obtain ⟨tree, hnode⟩ := hroot.of_occurs hoccurs
  generalize hresult : (.ok tree : Except LoadError (Tree A)) = result at hnode
  cases hnode with
  | build hown' _ => simp [hown] at hown'
  | fault hown' _ => simp [hown] at hown'
  | refuse _ _ => cases hresult
  | refer _ hrefer hinner =>
    obtain ⟨hinnerFind, -, -, hnew⟩ := referred_eq_ok.mp hrefer
    exact ⟨hnew, List.mem_cons_self, _, tree, hinnerFind, hresult ▸ hinner⟩

theorem Opened.of_reach {outer inner : String} {expanding : List String}
    (h : registry.Opened source outer expanding)
    (hreach : ReflTransGen (registry.Refers source) outer inner) :
    ∃ expanding, registry.Opened source inner expanding := by
  induction hreach with
  | refl => exact ⟨expanding, h⟩
  | tail _ hrefers ih =>
    obtain ⟨_, hmiddle⟩ := ih
    exact ⟨_, (hmiddle.refer hrefers).2⟩

theorem Opened.not_mem_of_path {outer inner : String} {expanding : List String}
    (h : registry.Opened source outer expanding)
    (hpath : TransGen (registry.Refers source) outer inner) :
    inner ∉ expanding ∧ ∃ wider, expanding ⊆ wider ∧ registry.Opened source inner wider := by
  induction hpath with
  | single hrefers =>
    obtain ⟨hnew, hopened⟩ := h.refer hrefers
    exact ⟨hnew, _, List.subset_cons_self _ _, hopened⟩
  | tail _ hrefers ih =>
    obtain ⟨-, wider, hsubset, hmiddle⟩ := ih
    obtain ⟨hnew, hopened⟩ := hmiddle.refer hrefers
    exact ⟨fun hmem => hnew (hsubset hmem), _, List.subset_cons_of_subset _ hsubset, hopened⟩

theorem Opened.not_recurs {name : String} {expanding : List String}
    (h : registry.Opened source name expanding) : ¬registry.Recurs source name := by
  rintro ⟨other, hreach, hcycle⟩
  obtain ⟨_, hother⟩ := h.of_reach hreach
  exact (hother.not_mem_of_path hcycle).1 hother.isOpen

/-- A name that exists is loaded with the one result of its expansion. If each type in reach is
registered and builds its nodes, or is a mere reference to a definition, then this is an error just if the
references recur. -/
theorem load_recursion_iff (registry : Registry A) (source : Source) {name : String}
    {definition : Definition} (hname : source.find? name = some definition) :
    (∀ result, registry.Expands source [name] definition.root result ↔
      registry.load source name = result) ∧
    ((∀ other node, ReflTransGen (registry.Refers source) name other → source.Within other node →
        registry.Resolves source node) →
      ((∃ type, registry.load source name = .error (.infiniteRecursion type)) ↔
        registry.Recurs source name) ∧
      (¬registry.Recurs source name → ∃ tree, registry.load source name = .ok tree)) := by
  have hload : registry.Expands source [name] definition.root (registry.load source name) :=
    load_expands hname
  refine ⟨fun result => ⟨fun h => hload.unique h, fun h => h ▸ hload⟩, fun hresolves => ?_⟩
  have hends : registry.Ends source name (registry.load source name) :=
    hload.ends hresolves ⟨definition, hname, .self⟩ ⟨.refl, fun other hother => by
      rw [List.mem_singleton.mp hother]⟩
  have hok : ∀ tree, registry.load source name = .ok tree → ¬registry.Recurs source name := by
    intro tree htree
    exact Opened.not_recurs ⟨List.mem_singleton_self name, definition, tree, hname, htree ▸ hload⟩
  obtain ⟨tree, htree⟩ | ⟨⟨type, htype⟩, hrecurs⟩ := hends
  · refine ⟨⟨?_, fun hrecurs => (hok tree htree hrecurs).elim⟩, fun _ => ⟨tree, htree⟩⟩
    rintro ⟨type, htype⟩
    cases htree.symm.trans htype
  · exact ⟨iff_of_true ⟨type, htype⟩ hrecurs, fun hnone => (hnone hrecurs).elim⟩

/-- A watch of two rounds, where a later definition of the round is hidden, and a patrol that leads back
to itself. -/
def watches : Source where
  definitions := [
    ⟨"watch", .mk "Sequence" [] [.mk "round" [] [], .mk "round" [] []]⟩,
    ⟨"round", .mk "Selector" [] []⟩,
    ⟨"round", .mk "Sequence" [] [.mk "round" [] []]⟩,
    ⟨"patrol", .mk "Selector" [] [.mk "round" [] [], .mk "beat" [] []]⟩,
    ⟨"beat", .mk "Sequence" [] [.mk "patrol" [] []]⟩]

theorem watches_resolve {name : String} {node : SourceNode} (h : watches.Within name node) :
    (builtIn : Registry Nat).Resolves watches node := by
  obtain ⟨definition, hfind, hoccurs⟩ := h
  have hmem := List.mem_of_find?_eq_some hfind
  have hcomposite : ∀ type children, type = "Sequence" ∨ type = "Selector" →
      (builtIn : Registry Nat).Resolves watches (.mk type [] children) := by
    rintro type children (rfl | rfl)
    · exact ⟨fun _ _ trees _ => ⟨.sequence trees, rfl⟩, nofun⟩
    · exact ⟨fun _ _ trees _ => ⟨.selector trees, rfl⟩, nofun⟩
  have hreference : ∀ type, type = "round" ∨ type = "patrol" ∨ type = "beat" →
      (builtIn : Registry Nat).Resolves watches (.mk type [] []) := by
    rintro type (rfl | rfl | rfl) <;> exact ⟨nofun, fun _ => ⟨by decide, rfl, rfl⟩⟩
  simp only [watches, List.mem_cons, List.not_mem_nil, or_false] at hmem
  rcases hmem with rfl | rfl | rfl | rfl | rfl <;>
    simp only [SourceNode.occurs_mk, List.mem_cons, List.not_mem_nil, or_false, exists_eq_or_imp,
      exists_eq_left, false_and, exists_false] at hoccurs <;>
    rcases hoccurs with rfl | rfl | rfl <;> simp [hcomposite, hreference]

/-- The watch is loaded, as its two references to the round are no recursion. The patrol is refused. -/
theorem watch_loads_patrol_recurs :
    (builtIn : Registry Nat).load watches "watch" = .ok (.sequence [.selector [], .selector []]) ∧
      ¬(builtIn : Registry Nat).Recurs watches "watch" ∧
      (builtIn : Registry Nat).load watches "patrol" = .error (.infiniteRecursion "patrol") ∧
      (builtIn : Registry Nat).Recurs watches "patrol" := by
  have hresolves : ∀ name other node, ReflTransGen ((builtIn : Registry Nat).Refers watches) name other →
      watches.Within other node → (builtIn : Registry Nat).Resolves watches node :=
    fun _ _ _ _ => watches_resolve
  have hwatchFound : watches.find? "watch" = some _ := rfl
  have hpatrolFound : watches.find? "patrol" = some _ := rfl
  have hwatch := (load_recursion_iff builtIn watches hwatchFound).2 (hresolves "watch")
  have hpatrol := (load_recursion_iff builtIn watches hpatrolFound).2 (hresolves "patrol")
  have hloads : (builtIn : Registry Nat).load watches "watch" =
      .ok (.sequence [.selector [], .selector []]) := by rfl
  have hrefused : (builtIn : Registry Nat).load watches "patrol" =
      .error (.infiniteRecursion "patrol") := by rfl
  refine ⟨hloads, fun hrecurs => ?_, hrefused, hpatrol.1.mp ⟨"patrol", hrefused⟩⟩
  obtain ⟨type, htype⟩ := hwatch.1.mpr hrecurs
  cases hloads.symm.trans htype

end Registry

end BehaviorTree
