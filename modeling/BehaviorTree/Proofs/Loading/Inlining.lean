import BehaviorTree.Proofs.Loading.Recursion

namespace BehaviorTree

open Relation

variable {A : Type}

namespace Registry

section SpellsOut

variable (registry : Registry A) (source : Source)

mutual

/-- A written tree and the same with each reference in it replaced by a definition's root, in which the
references have been replaced in turn. -/
inductive SpellsOut : SourceNode → SourceNode → Prop where
  | keep {type : String} {args : List Arg} {children written : List SourceNode} :
    registry.contains type = true ∨ source.find? type = none →
    SpellsOutList children written →
    SpellsOut (.mk type args children) (.mk type args written)
  | replace {node written : SourceNode} {definition : Definition} :
    registry.contains node.type = false →
    source.find? node.type = some definition →
    SpellsOut definition.root written →
    SpellsOut node written

inductive SpellsOutList : List SourceNode → List SourceNode → Prop where
  | nil : SpellsOutList [] []
  | cons {node written : SourceNode} {nodes rest : List SourceNode} :
    SpellsOut node written → SpellsOutList nodes rest → SpellsOutList (node :: nodes) (written :: rest)

end

/-- What is left of a source for a name once its references are replaced: the definition of the name, if
there is one. -/
inductive Inlines (name : String) : Source → Prop where
  | missing : source.find? name = none → Inlines name ⟨[]⟩
  | defined {definition : Definition} {root : SourceNode} :
    source.find? name = some definition → registry.SpellsOut source definition.root root →
    Inlines name ⟨[⟨name, root⟩]⟩

/-- A node carries neither arguments nor children if it is a reference. -/
def Mere (node : SourceNode) : Prop :=
  registry.contains node.type = false → (source.find? node.type).isSome →
    node.args = [] ∧ node.children = []

/-- The references in reach of a name have no cycle and are nothing but names. -/
structure Inlinable (name : String) : Prop where
  acyclic : ¬registry.Recurs source name
  mere : ∀ other node, ReflTransGen (registry.Refers source) name other →
    source.Within other node → registry.Mere source node

end SpellsOut

variable {registry : Registry A} {source : Source}

theorem SpellsOut.of_kept {node written : SourceNode} (h : registry.SpellsOut source node written)
    (hkept : registry.contains node.type = true ∨ source.find? node.type = none) :
    ∃ rest, written = .mk node.type node.args rest ∧
      registry.SpellsOutList source node.children rest := by
  cases h with
  | keep _ hchildren => exact ⟨_, rfl, hchildren⟩
  | replace hown hfind _ =>
    obtain hcontains | hnone := hkept
    · cases hown.symm.trans hcontains
    · cases hnone.symm.trans hfind

theorem SpellsOut.of_replaced {node written : SourceNode} {definition : Definition}
    (h : registry.SpellsOut source node written) (hown : registry.contains node.type = false)
    (hfind : source.find? node.type = some definition) :
    registry.SpellsOut source definition.root written := by
  cases h with
  | keep hkept _ =>
    obtain hcontains | hnone := hkept
    · cases hown.symm.trans hcontains
    · cases hnone.symm.trans hfind
  | replace _ hfind' hroot =>
    cases hfind.symm.trans hfind'
    exact hroot

mutual

theorem SpellsOut.unique {node written other : SourceNode} :
    registry.SpellsOut source node written → registry.SpellsOut source node other → written = other
  | .keep hkept hlist, hother => by
    obtain ⟨rest, rfl, hrest⟩ := hother.of_kept hkept
    rw [hlist.unique hrest]
    rfl
  | .replace hown hfind hroot, hother => hroot.unique (hother.of_replaced hown hfind)

theorem SpellsOutList.unique {nodes written other : List SourceNode} :
    registry.SpellsOutList source nodes written → registry.SpellsOutList source nodes other →
      written = other
  | .nil, .nil => rfl
  | .cons hnode hnodes, .cons hnode' hnodes' => by rw [hnode.unique hnode', hnodes.unique hnodes']

end

theorem Inlines.unique {name : String} {spelled other : Source}
    (h : registry.Inlines source name spelled) (hother : registry.Inlines source name other) :
    spelled = other := by
  cases h with
  | missing hnone =>
    cases hother with
    | missing _ => rfl
    | defined hfind _ => cases hnone.symm.trans hfind
  | defined hfind hroot =>
    cases hother with
    | missing hnone => cases hnone.symm.trans hfind
    | defined hfind' hroot' =>
      cases hfind.symm.trans hfind'
      rw [hroot.unique hroot']

section Existence

variable {name : String}

mutual

theorem exists_spellsOut_of (hrefers : ∀ inner definition, registry.Refers source name inner →
      source.find? inner = some definition → ∃ written, registry.SpellsOut source definition.root written) :
    (node : SourceNode) → source.Within name node → ∃ written, registry.SpellsOut source node written
  | .mk type args children, hwithin => by
    obtain ⟨rest, hrest⟩ := exists_spellsOutList_of hrefers children fun _ => hwithin.child
    cases hfind : source.find? type with
    | none => exact ⟨_, .keep (.inr hfind) hrest⟩
    | some definition =>
      cases hown : registry.contains type with
      | true => exact ⟨_, .keep (.inl hown) hrest⟩
      | false =>
        obtain ⟨written, hwritten⟩ :=
          hrefers type definition ⟨hown, by rw [hfind]; rfl, _, hwithin, rfl⟩ hfind
        exact ⟨written, .replace hown hfind hwritten⟩

theorem exists_spellsOutList_of (hrefers : ∀ inner definition, registry.Refers source name inner →
      source.find? inner = some definition → ∃ written, registry.SpellsOut source definition.root written) :
    (nodes : List SourceNode) → (∀ node ∈ nodes, source.Within name node) →
      ∃ written, registry.SpellsOutList source nodes written
  | [], _ => ⟨[], .nil⟩
  | node :: nodes, hwithin => by
    obtain ⟨written, hwritten⟩ := exists_spellsOut_of hrefers node (hwithin node List.mem_cons_self)
    obtain ⟨rest, hrest⟩ := exists_spellsOutList_of hrefers nodes fun other hother =>
      hwithin other (List.mem_cons_of_mem _ hother)
    exact ⟨written :: rest, .cons hwritten hrest⟩

end

theorem exists_spellsOut {top : String} (hacyclic : ¬registry.Recurs source top) {depth : Nat}
    {expanding : List String} (hdepth : source.left expanding < depth)
    (hinside : registry.Inside source top name expanding) {node : SourceNode}
    (hwithin : source.Within name node) : ∃ written, registry.SpellsOut source node written := by
  -- A definition that is opened is not open yet, or it would recur, so fewer and fewer names are left.
  induction depth generalizing name expanding node with
  | zero => omega
  | succ depth ih =>
    refine exists_spellsOut_of (fun inner definition hrefers hfind => ?_) node hwithin
    have hnew : inner ∉ expanding := fun hmem => hacyclic (hinside.recurs hrefers hmem)
    have hleft := Source.left_cons (Source.mem_names_of_find? hfind) hnew
    exact ih (by omega) (hinside.refer hrefers) ⟨definition, hfind, .self⟩

end Existence

theorem Inside.top (registry : Registry A) (source : Source) (name : String) :
    registry.Inside source name name [name] where
  reached := .refl
  leads other hother := by rw [List.mem_singleton.mp hother]

theorem exists_inlines {name : String} (hacyclic : ¬registry.Recurs source name) :
    ∃ spelled, registry.Inlines source name spelled := by
  cases hfind : source.find? name with
  | none => exact ⟨_, .missing hfind⟩
  | some definition =>
    obtain ⟨root, hroot⟩ := exists_spellsOut hacyclic (Nat.lt_succ_self _)
      (Inside.top registry source name) ⟨definition, hfind, .self⟩
    exact ⟨_, .defined hfind hroot⟩

section Transfer

variable {top : String}

theorem Inlinable.find?_eq_none (h : registry.Inlinable source top) {name : String}
    {expanding : List String} {node : SourceNode} {error : LoadError}
    (hwithin : source.Within name node) (hinside : registry.Inside source top name expanding)
    (hown : registry.contains node.type = false)
    (hrefer : referred source expanding node = .error error) : source.find? node.type = none := by
  cases hfind : source.find? node.type with
  | none => rfl
  | some definition =>
    have hsome : (source.find? node.type).isSome := by rw [hfind]; rfl
    obtain ⟨hargs, hchildren⟩ := h.mere name node hinside.reached hwithin hown hsome
    have hnew : node.type ∉ expanding := fun hmem =>
      h.acyclic (hinside.recurs ⟨hown, hsome, node, hwithin, rfl⟩ hmem)
    cases hrefer.symm.trans (referred_eq_ok.mpr ⟨hfind, hargs, hchildren, hnew⟩)

variable {root : SourceNode}

/-- The one definition of `top` does not help where the source leaves a type undefined. -/
theorem referred_single (htop : (source.find? top).isSome) {type : String}
    (hnone : source.find? type = none) (expanding : List String) (args : List Arg)
    (children : List SourceNode) :
    referred ⟨[⟨top, root⟩]⟩ expanding (.mk type args children) = .error (.missingNode type) := by
  have hother : top ≠ type := by
    rintro rfl
    simp [hnone] at htop
  simp [referred, Source.find?, SourceNode.type, hother]

mutual

theorem Expands.spelled (h : registry.Inlinable source top) (htop : (source.find? top).isSome)
    {expanding expanding' : List String} {node written : SourceNode}
    {result : Except LoadError (Tree A)} {name : String} (hwithin : source.Within name node)
    (hinside : registry.Inside source top name expanding)
    (hspelled : registry.SpellsOut source node written) :
    registry.Expands source expanding node result →
      registry.Expands ⟨[⟨top, root⟩]⟩ expanding' written result
  | .build hown hlist => by
    obtain ⟨rest, rfl, hrest⟩ := hspelled.of_kept (.inl hown)
    exact .build hown (hlist.spelled h htop (fun _ => hwithin.child) hinside hrest)
  | .fault hown hlist => by
    obtain ⟨rest, rfl, hrest⟩ := hspelled.of_kept (.inl hown)
    exact .fault hown (hlist.spelled h htop (fun _ => hwithin.child) hinside hrest)
  | .refuse hown hrefer => by
    have hnone := h.find?_eq_none hwithin hinside hown hrefer
    have hmissing : referred source expanding node = .error (.missingNode node.type) := by
      rw [referred, hnone]
    cases hrefer.symm.trans hmissing
    obtain ⟨rest, rfl, -⟩ := hspelled.of_kept (.inr hnone)
    exact .refuse hown (referred_single htop hnone expanding' node.args rest)
  | .refer hown hrefer hroot => by
    obtain ⟨hfind, -⟩ := referred_eq_ok.mp hrefer
    have hrefers : registry.Refers source name node.type :=
      ⟨hown, by rw [hfind]; rfl, node, hwithin, rfl⟩
    exact hroot.spelled h htop ⟨_, hfind, .self⟩ (hinside.refer hrefers)
      (hspelled.of_replaced hown hfind)

theorem ExpandsList.spelled (h : registry.Inlinable source top) (htop : (source.find? top).isSome)
    {expanding expanding' : List String} {nodes written : List SourceNode}
    {result : Except LoadError (List (Tree A))} {name : String}
    (hwithin : ∀ node ∈ nodes, source.Within name node)
    (hinside : registry.Inside source top name expanding)
    (hspelled : registry.SpellsOutList source nodes written) :
    registry.ExpandsList source expanding nodes result →
      registry.ExpandsList ⟨[⟨top, root⟩]⟩ expanding' written result
  | .nil => by
    cases hspelled
    exact .nil
  | .cons hnode hnodes => by
    obtain ⟨hfirst, hrest⟩ := List.forall_mem_cons.mp hwithin
    cases hspelled with
    | cons hwritten hwrittens =>
      exact .cons (hnode.spelled h htop hfirst hinside hwritten)
        (hnodes.spelled h htop hrest hinside hwrittens)
  | .first hnode => by
    cases hspelled with
    | cons hwritten _ =>
      exact .first (hnode.spelled h htop (hwithin _ List.mem_cons_self) hinside hwritten)
  | .rest hnode hnodes => by
    obtain ⟨hfirst, hrest⟩ := List.forall_mem_cons.mp hwithin
    cases hspelled with
    | cons hwritten hwrittens =>
      exact .rest (hnode.spelled h htop hfirst hinside hwritten)
        (hnodes.spelled h htop hrest hinside hwrittens)

end

end Transfer

theorem Inlines.load_eq {name : String} {spelled : Source} (h : registry.Inlinable source name)
    (hspelled : registry.Inlines source name spelled) :
    registry.load spelled name = registry.load source name := by
  cases hspelled with
  | missing hnone => rw [load, load, hnone]; rfl
  | @defined definition root hfind hroot =>
    have hsingle : Source.find? ⟨[⟨name, root⟩]⟩ name = some ⟨name, root⟩ := by simp [Source.find?]
    have hsome : (source.find? name).isSome := by rw [hfind]; rfl
    have hexpands : registry.Expands ⟨[⟨name, root⟩]⟩ [name] root (registry.load source name) :=
      (load_expands hfind).spelled h hsome ⟨definition, hfind, .self⟩
        (Inside.top registry source name) hroot
    exact (load_expands hsingle).unique hexpands

/-- References without a cycle, arguments or children can be replaced in one way, and what is left for a
name is loaded with the outcome of the whole source. -/
theorem Inlinable.load_inlined {name : String} (h : registry.Inlinable source name) :
    ∃ spelled, (∀ other, registry.Inlines source name other ↔ other = spelled) ∧
      registry.load spelled name = registry.load source name := by
  obtain ⟨spelled, hspelled⟩ := exists_inlines h.acyclic
  exact ⟨spelled, fun other => ⟨fun hother => hother.unique hspelled, fun heq => heq ▸ hspelled⟩,
    hspelled.load_eq h⟩

theorem watch_is_inlined :
    (builtIn : Registry Nat).Inlinable watches "watch" ∧
      (builtIn : Registry Nat).load
        ⟨[⟨"watch", .mk "Sequence" [] [.mk "Selector" [] [], .mk "Selector" [] []]⟩]⟩ "watch" =
          (builtIn : Registry Nat).load watches "watch" := by
  have hfound : watches.find? "watch" = some _ := rfl
  have hround : watches.find? "round" = some _ := rfl
  have hloads : (builtIn : Registry Nat).load watches "watch" =
      .ok (.sequence [.selector [], .selector []]) := by rfl
  have hopened : (builtIn : Registry Nat).Opened watches "watch" ["watch"] :=
    ⟨List.mem_singleton_self _, _, _, hfound, hloads ▸ load_expands hfound⟩
  have hinlinable : (builtIn : Registry Nat).Inlinable watches "watch" :=
    ⟨hopened.not_recurs, fun _ _ _ hwithin hown _ => ((watches_resolve hwithin).refers hown).2⟩
  have hreference : (builtIn : Registry Nat).SpellsOut watches (.mk "round" [] []) (.mk "Selector" [] []) :=
    .replace rfl hround (.keep (.inl rfl) .nil)
  have hinlines : (builtIn : Registry Nat).Inlines watches "watch" _ :=
    .defined hfound (.keep (.inl rfl) (.cons hreference (.cons hreference .nil)))
  obtain ⟨spelled, hunique, hsame⟩ := hinlinable.load_inlined
  rw [← (hunique _).mp hinlines] at hsame
  exact ⟨hinlinable, hsame⟩

end Registry

end BehaviorTree
