import BehaviorTree.Proofs.Lifecycle.KeeperInvariants

namespace BehaviorTree

variable {A : Type}

/-- A node that is ticked, and the world by then. -/
structure Visit (A : Type) where
  node : Subtree A
  world : World A

namespace Tree

mutual

/-- The nodes that are ticked while the tree is, in the order in which their ticks begin. -/
def visits : (tree : Tree A) → tree.State → World A → List (Visit A)
  | .action label command, state, world => [⟨⟨.action label command, state⟩, world⟩]
  | .wait duration variance, state, world => [⟨⟨.wait duration variance, state⟩, world⟩]
  | .leaf node, state, world => [⟨⟨.leaf node, state⟩, world⟩]
  | .sequence children, state, world =>
    ⟨⟨.sequence children, state⟩, world⟩ ::
      match state.begin.status.outcome? with
      | some _ => []
      | none => visitsFrom .success children state.begin.current state.begin.children world
  | .selector children, state, world =>
    ⟨⟨.selector children, state⟩, world⟩ ::
      match state.begin.status.outcome? with
      | some _ => []
      | none =>
        match arbitrate children state.begin world with
        | (some current, states, world) => visitsFrom .fail children current states world
        | (none, _, _) => []
  | .condition guard policy child, state, world =>
    ⟨⟨.condition guard policy child, state⟩, world⟩ ::
      let (started, begun) := (Tree.condition guard policy child).start state world
      match started.status.outcome? with
      | some _ => []
      | none =>
        let (broken, checked) :=
          if policy.abortsSelf then begun.stoppedHolding guard started.observer else (false, begun)
        if broken then [] else visitsOption child started.child checked
  | .service label interval callback child, state, world =>
    ⟨⟨.service label interval callback child, state⟩, world⟩ ::
      let (started, begun) := (Tree.service label interval callback child).start state world
      match started.status.outcome? with
      | some _ => []
      | none => visitsOption child started.child begun

/-- The nodes that are ticked while the children are, from an index on, as long as they come to
`goOn`. -/
def visitsFrom (goOn : Outcome) : (trees : List (Tree A)) → Nat → StateList trees → World A →
    List (Visit A)
  | [], _, _, _ => []
  | tree :: trees, 0, (state, states), world =>
    tree.visits state world ++
      let (outcome, ticked, after) := tree.tick state world
      if outcome = goOn then visitsFrom goOn trees 0 states (tree.stop ticked after).2 else []
  | _ :: trees, i + 1, (_, states), world => visitsFrom goOn trees i states world

def visitsOption : (tree : Option (Tree A)) → StateOption tree → World A → List (Visit A)
  | none, _, _ => []
  | some tree, state, world => tree.visits state world

end

/-- The steps that lead from a world with the keepers to the visit. -/
def Reaches (world : World A) (keepers : Multiset Keeper) (visit : Visit A) : Prop :=
  visit.node.Fit ∧ ∃ rest, world.Deals visit.world keepers (visit.node.keepers + rest)

theorem Reaches.self {tree : Tree A} {state : tree.State} (h : tree.Fit state) (world : World A) :
    Reaches world (tree.keepers state) ⟨⟨tree, state⟩, world⟩ := by
  refine ⟨h, 0, ?_⟩
  rw [add_zero]
  exact .refl world _

theorem Reaches.after {world later : World A} {given kept more : Multiset Keeper} {visit : Visit A}
    (hdeals : world.Deals later given (more + kept)) (h : Reaches later kept visit) :
    Reaches world given visit := by
  obtain ⟨hfit, rest, hreach⟩ := h
  refine ⟨hfit, more + rest, ?_⟩
  rw [add_left_comm]
  exact hdeals.trans (hreach.frame_left more)

mutual

theorem visits_deals : (tree : Tree A) → (state : tree.State) → (world : World A) →
    tree.Fit state → ∀ visit ∈ tree.visits state world, Reaches world (tree.keepers state) visit
  | .action label command, state, world, h => by
    rw [visits]
    exact List.forall_mem_singleton.mpr (.self h world)
  | .wait duration variance, state, world, h => by
    rw [visits]
    exact List.forall_mem_singleton.mpr (.self h world)
  | .sequence children, state, world, h => by
    have hself := Reaches.self h world
    rw [fit_sequence] at h
    rw [visits]
    refine List.forall_mem_cons.mpr ⟨hself, ?_⟩
    cases houtcome : state.begin.status.outcome? with
    | some outcome => exact List.forall_mem_nil _
    | none =>
      rw [keepers, ← state.begin_children]
      exact visitsFrom_deals .success (by simp) children _ _ world
        (h.begin.current (state.begin_running houtcome))
  | .selector children, state, world, h => by
    have hself := Reaches.self h world
    rw [fit_selector] at h
    rw [visits]
    refine List.forall_mem_cons.mpr ⟨hself, ?_⟩
    cases houtcome : state.begin.status.outcome? with
    | some outcome => exact List.forall_mem_nil _
    | none =>
      obtain ⟨hgo, -, hdeals⟩ := arbitrate_fit children state.begin world
        (h.begin.current (state.begin_running houtcome))
      rw [keepers, ← state.begin_children]
      dsimp only
      rcases harb : arbitrate children state.begin world with ⟨_ | current, states, asked⟩ <;>
        rw [harb] at hgo hdeals
      · exact List.forall_mem_nil _
      · have hasked : world.Deals asked (keepersList children state.begin.children)
            (0 + keepersList children states) := by
          rw [zero_add]
          exact hdeals
        intro visit hmem
        exact .after hasked (visitsFrom_deals .fail (by simp) children current states asked
          (hgo current rfl) visit hmem)
  | .condition guard policy child, state, world, h => by
    have hbegun := start_fit (.condition guard policy child) state world h
    have hactive := start_condition_active guard policy child state world
    rw [visits]
    refine List.forall_mem_cons.mpr ⟨.self h world, ?_⟩
    rcases hstart : (Tree.condition guard policy child).start state world with ⟨started, begun⟩
    rw [hstart] at hbegun hactive
    dsimp only
    cases houtcome : started.status.outcome? with
    | some outcome => exact List.forall_mem_nil _
    | none =>
      dsimp only
      rcases hbroken : (if policy.abortsSelf then begun.stoppedHolding guard started.observer
        else (false, begun)) with ⟨broken, checked⟩
      have hkept := hbegun.2
      rw [keepers, keepers, Status.eq_running houtcome hactive] at hkept
      have hfit := hbegun.1
      rw [Fit] at hfit
      cases broken with
      | true => exact List.forall_mem_nil _
      | false =>
        intro visit hmem
        exact .after (hkept.trans ((World.deals_check hbroken).frame _))
          (visitsOption_deals child started.child checked hfit.1 visit hmem)
  | .service label interval callback child, state, world, h => by
    have hbegun := start_fit (.service label interval callback child) state world h
    rw [visits]
    refine List.forall_mem_cons.mpr ⟨.self h world, ?_⟩
    rcases hstart : (Tree.service label interval callback child).start state world with
      ⟨started, begun⟩
    rw [hstart] at hbegun
    dsimp only
    cases started.status.outcome? with
    | some outcome => exact List.forall_mem_nil _
    | none =>
      have hfit := hbegun.1
      rw [Fit] at hfit
      intro visit hmem
      exact .after hbegun.2 (visitsOption_deals child started.child begun hfit.1 visit hmem)

theorem visitsFrom_deals : (goOn : Outcome) → goOn ≠ .running → (trees : List (Tree A)) →
    (i : Nat) → (states : StateList trees) → (world : World A) → FitAt trees i states →
    ∀ visit ∈ visitsFrom goOn trees i states world, Reaches world (keepersList trees states) visit
  | _, _, [], _, _, _, _ => List.forall_mem_nil _
  | goOn, hgo, tree :: trees, 0, (state, states), world, h => by
    rw [FitAt] at h
    have hticked := tick_fit tree state world h.1
    have hstop := stop_quiet tree _ (tree.tick state world).2.2 hticked.fit
    rw [visitsFrom]
    refine List.forall_mem_append.mpr ⟨fun visit hmem => ?_, ?_⟩
    · have hstay := World.Deals.refl world (keepersList trees states + tree.keepers state)
      rw [keepersList, add_comm]
      exact .after hstay (visits_deals tree state world h.1 visit hmem)
    · dsimp only
      split
      · intro visit hmem
        exact .after ((hticked.deals.trans hstop.2).frame _)
          (visitsFrom_deals goOn hgo trees 0 states _ (QuietList.fitAt _ _ _ h.2) visit hmem)
      · exact List.forall_mem_nil _
  | goOn, hgo, tree :: trees, i + 1, (state, states), world, h => by
    rw [FitAt] at h
    rw [visitsFrom]
    intro visit hmem
    exact .after (.refl world _) (visitsFrom_deals goOn hgo trees i states world h.2 visit hmem)

theorem visitsOption_deals : (tree : Option (Tree A)) → (state : StateOption tree) →
    (world : World A) → FitOption tree state →
    ∀ visit ∈ visitsOption tree state world, Reaches world (keepersOption tree state) visit
  | none, _, _, _ => List.forall_mem_nil _
  | some tree, state, world, h => by
    rw [FitOption] at h
    exact visits_deals tree state world h

end

mutual

/-- A tick of a tree comes to the tree itself, and otherwise to smaller trees. -/
theorem visits_smaller : (tree : Tree A) → (state : tree.State) → (world : World A) →
    ∀ visit ∈ tree.visits state world, visit = ⟨⟨tree, state⟩, world⟩ ∨
      sizeOf visit.node.tree < sizeOf tree
  | .action label command, state, world => by
    rw [visits]
    exact List.forall_mem_singleton.mpr (.inl rfl)
  | .wait duration variance, state, world => by
    rw [visits]
    exact List.forall_mem_singleton.mpr (.inl rfl)
  | .leaf node, state, world => by
    rw [visits]
    exact List.forall_mem_singleton.mpr (.inl rfl)
  | .sequence children, state, world => by
    rw [visits]
    refine List.forall_mem_cons.mpr ⟨.inl rfl, fun visit hmem => .inr ?_⟩
    split at hmem
    · cases hmem
    · have hsmaller := visitsFrom_smaller _ _ _ _ _ visit hmem
      rw [sequence.sizeOf_spec]
      omega
  | .selector children, state, world => by
    rw [visits]
    refine List.forall_mem_cons.mpr ⟨.inl rfl, fun visit hmem => .inr ?_⟩
    split at hmem
    · cases hmem
    · split at hmem
      · have hsmaller := visitsFrom_smaller _ _ _ _ _ visit hmem
        rw [selector.sizeOf_spec]
        omega
      · cases hmem
  | .condition guard policy child, state, world => by
    rw [visits]
    refine List.forall_mem_cons.mpr ⟨.inl rfl, fun visit hmem => .inr ?_⟩
    rcases hstart : (Tree.condition guard policy child).start state world with ⟨started, begun⟩
    rcases hbroken : (if policy.abortsSelf then begun.stoppedHolding guard started.observer
      else (false, begun)) with ⟨broken, checked⟩
    rw [hstart] at hmem
    dsimp only at hmem
    rw [hbroken] at hmem
    split at hmem
    · cases hmem
    · cases broken with
      | true => cases hmem
      | false =>
        have hsmaller := visitsOption_smaller _ _ _ visit hmem
        rw [condition.sizeOf_spec]
        omega
  | .service label interval callback child, state, world => by
    rw [visits]
    refine List.forall_mem_cons.mpr ⟨.inl rfl, fun visit hmem => .inr ?_⟩
    dsimp only at hmem
    split at hmem
    · cases hmem
    · have hsmaller := visitsOption_smaller _ _ _ visit hmem
      rw [service.sizeOf_spec]
      omega

theorem visitsFrom_smaller : (goOn : Outcome) → (trees : List (Tree A)) → (i : Nat) →
    (states : StateList trees) → (world : World A) →
    ∀ visit ∈ visitsFrom goOn trees i states world, sizeOf visit.node.tree < sizeOf trees
  | _, [], _, _, _ => List.forall_mem_nil _
  | goOn, tree :: trees, 0, (state, states), world => by
    rw [visitsFrom, List.cons.sizeOf_spec]
    refine List.forall_mem_append.mpr ⟨fun visit hmem => ?_, fun visit hmem => ?_⟩
    · obtain rfl | hsmaller := visits_smaller tree state world visit hmem
      · change sizeOf tree < _
        omega
      · omega
    · dsimp only at hmem
      split at hmem
      · have hsmaller := visitsFrom_smaller goOn trees 0 states _ visit hmem
        omega
      · cases hmem
  | goOn, tree :: trees, i + 1, (_, states), world => by
    rw [visitsFrom, List.cons.sizeOf_spec]
    intro visit hmem
    have hsmaller := visitsFrom_smaller goOn trees i states world visit hmem
    omega

theorem visitsOption_smaller : (tree : Option (Tree A)) → (state : StateOption tree) →
    (world : World A) → ∀ visit ∈ visitsOption tree state world, sizeOf visit.node.tree < sizeOf tree
  | none, _, _ => List.forall_mem_nil _
  | some tree, state, world => by
    rw [visitsOption, Option.some.sizeOf_spec]
    intro visit hmem
    obtain rfl | hsmaller := visits_smaller tree state world visit hmem
    · change sizeOf tree < _
      omega
    · omega

end

theorem visits_service (label : String) (interval : Duration) (callback : Routine A)
    (child : Option (Tree A)) (state : (Tree.service label interval callback child).State)
    (world : World A) {started : (Tree.service label interval callback child).State} {begun : World A}
    (hstart : (Tree.service label interval callback child).start state world = (started, begun))
    (hgoing : started.status.outcome? = none) :
    (Tree.service label interval callback child).visits state world =
      ⟨⟨.service label interval callback child, state⟩, world⟩ ::
        visitsOption child started.child begun := by
  rw [visits, hstart]
  dsimp only
  rw [hgoing]

end Tree

namespace Root

/-- The root as it is when its tree is evaluated: a tree that has ended was released before. -/
def readied (root : Root A) : Root A := if root.status.isTerminated then root.released else root

def visits (root : Root A) : List (Visit A) :=
  if root.active then root.readied.tree.visits root.readied.state root.readied.world else []

end Root

namespace Session

variable {tree : Tree A} {initial : Values} {session : Session A}
variable {rule : World A → Keeper → Prop}

theorem Kept.readied (h : session.Kept) : Kept ⟨session.root.readied, session.own⟩ := by
  unfold Root.readied
  split
  · exact h.released.1.kept
  · exact h

theorem Kept.satisfies_readied {P : (tree : Tree A) → tree.State → World A → Prop} (h : session.Kept)
    (hP : Tree.Persists P) (hsession : session.Satisfies P) :
    Satisfies ⟨session.root.readied, session.own⟩ P := by
  unfold Root.readied
  split
  · exact h.satisfies_released hP hsession
  · exact hsession

/-- What each step of a keeper keeps also holds in the middle of a tick, of all keepers of the node whose
turn it is. -/
theorem Undisturbed.visits_obey (hrule : Keeper.Lasts rule) (htree : tree.BuiltIn)
    (h : Undisturbed tree initial session) {visit : Visit A} (hvisit : visit ∈ session.root.visits) :
    ∀ keeper ∈ visit.node.keepers, rule visit.world keeper := by
  have hkept := h.reachable.kept htree
  have hready := hkept.readied
  unfold Root.visits at hvisit
  split at hvisit
  · obtain ⟨-, rest, hdeals⟩ := Tree.visits_deals _ _ _ hready.fit visit hvisit
    have hhold := hready.holds
    rw [← Subtree.ofKeepers_keepers] at hhold
    have hobeys := hkept.satisfies_readied (Tree.persists_obeys hrule) (h.obeys hrule htree)
    intro keeper hmem
    exact hdeals.lasts hrule hhold hobeys keeper (Multiset.mem_add.mpr (.inl hmem))
  · cases hvisit

end Session

end BehaviorTree
