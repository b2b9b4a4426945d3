import BehaviorTree.Proofs.Lifecycle.Validation
import BehaviorTree.Proofs.Conditions.NoLostWakeUp

namespace BehaviorTree

variable {A : Type}

namespace Tree

/-- The child at an index when its turn comes, where the children are ticked from another index on, as
long as they come to `goOn`. -/
def turnFrom? (goOn : Outcome) : (trees : List (Tree A)) → (current : Nat) → StateList trees →
    World A → (i : Nat) → Option (Visit A)
  | [], _, _, _, _ => none
  | tree :: _, 0, (state, _), world, 0 => some ⟨⟨tree, state⟩, world⟩
  | tree :: trees, 0, (state, states), world, i + 1 =>
    let (outcome, ticked, after) := tree.tick state world
    if outcome = goOn then turnFrom? goOn trees 0 states (tree.stop ticked after).2 i else none
  | _ :: _, _ + 1, _, _, 0 => none
  | _ :: trees, current + 1, (_, states), world, i + 1 => turnFrom? goOn trees current states world i

def turnOption? : (tree : Option (Tree A)) → StateOption tree → World A → (i : Nat) → Option (Visit A)
  | some tree, state, world, 0 => some ⟨⟨tree, state⟩, world⟩
  | _, _, _, _ => none

/-- Each selector above a position comes to it after all its other children. -/
def LastResort (tree : Tree A) (position : List Nat) : Prop :=
  ∀ upper i lower children, position = upper ++ i :: lower →
    tree.at? upper = some (.selector children) → i + 1 = children.length

theorem lastResort_nil (tree : Tree A) : tree.LastResort [] := by
  intro upper i lower children hposition
  cases upper <;> cases hposition

theorem lastResort_cons {tree : Tree A} {i : Nat} {position : List Nat} :
    tree.LastResort (i :: position) ↔
      (∀ children, tree = .selector children → i + 1 = children.length) ∧
        ∀ child, tree.children[i]? = some child → child.LastResort position := by
  constructor
  · refine fun h => ⟨fun children htree => h [] i position children rfl (congrArg some htree),
      fun child hchild => ?_⟩
    rintro upper j lower children rfl hupper
    exact h (i :: upper) j lower children rfl (by rw [at?, hchild, Option.bind_some, hupper])
  · rintro ⟨hown, hbelow⟩ (_ | ⟨_, upper⟩) j lower children hposition hupper
    · cases hposition
      exact hown children (Option.some.inj hupper)
    · cases hposition
      obtain ⟨child, hchild, hupper⟩ := Option.bind_eq_some_iff.mp hupper
      exact hbelow child hchild upper j lower children rfl hupper

end Tree

namespace Visit

/-- What comes of the node's tick. -/
def tick (visit : Visit A) : Outcome × visit.node.tree.State × World A :=
  visit.node.tree.tick visit.node.state visit.world

/-- The child at an index when its turn comes in the node's tick, if it does. -/
def turn? : Visit A → Nat → Option (Visit A)
  | ⟨⟨.sequence children, state⟩, world⟩, i =>
    match state.begin.status.outcome? with
    | some _ => none
    | none => Tree.turnFrom? .success children state.begin.current state.begin.children world i
  | ⟨⟨.selector children, state⟩, world⟩, i =>
    match state.begin.status.outcome? with
    | some _ => none
    | none =>
      match Tree.arbitrate children state.begin world with
      | (some current, states, world) => Tree.turnFrom? .fail children current states world i
      | (none, _, _) => none
  | ⟨⟨.condition guard policy child, state⟩, world⟩, i =>
    let (started, begun) := (Tree.condition guard policy child).start state world
    match started.status.outcome? with
    | some _ => none
    | none =>
      let (broken, checked) :=
        if policy.abortsSelf then begun.stoppedHolding guard started.observer else (false, begun)
      if broken then none else Tree.turnOption? child started.child checked i
  | ⟨⟨.service label interval callback child, state⟩, world⟩, i =>
    let (started, begun) := (Tree.service label interval callback child).start state world
    match started.status.outcome? with
    | some _ => none
    | none => Tree.turnOption? child started.child begun i
  | ⟨⟨.action _ _, _⟩, _⟩, _ => none
  | ⟨⟨.wait _ _, _⟩, _⟩, _ => none
  | ⟨⟨.leaf _, _⟩, _⟩, _ => none

def at? : Visit A → List Nat → Option (Visit A)
  | visit, [] => some visit
  | visit, i :: position => (visit.turn? i).bind (·.at? position)

/-- The node is a running selector that lets a child take over, but not within this tick. -/
def GivesUp : Visit A → Prop
  | ⟨⟨.selector children, state⟩, world⟩ =>
    state.status = .running ∧
      (Tree.firstPreempting children state.current state.children world).1.map Prod.snd =
        some .deferred
  | _ => False

instance (visit : Visit A) : Decidable visit.GivesUp :=
  match visit with
  | ⟨⟨.selector _, _⟩, _⟩ => inferInstanceAs (Decidable (_ ∧ _))
  | ⟨⟨.action _ _, _⟩, _⟩ | ⟨⟨.wait _ _, _⟩, _⟩ | ⟨⟨.leaf _, _⟩, _⟩ | ⟨⟨.sequence _, _⟩, _⟩
  | ⟨⟨.condition _ _ _, _⟩, _⟩ | ⟨⟨.service _ _ _ _, _⟩, _⟩ => isFalse id

end Visit

namespace Tree

variable {trees : List (Tree A)} {states : StateList trees} {world : World A} {i : Nat} {next : Visit A}

theorem turnFrom?_child {goOn : Outcome} {current : Nat}
    (h : turnFrom? goOn trees current states world i = some next) : trees[i]? = some next.node.tree := by
  induction trees generalizing current world i with
  | nil => cases h
  | cons tree trees ih =>
    obtain ⟨state, states⟩ := states
    cases current with
    | succ current =>
      cases i with
      | zero => cases h
      | succ i => exact ih h
    | zero =>
      cases i with
      | zero =>
        cases h
        rfl
      | succ i =>
        rw [turnFrom?] at h
        dsimp only at h
        split at h
        · exact ih h
        · cases h

theorem tickFrom_fails {goOn : Outcome} (hgo : goOn ≠ .running) {current : Nat}
    (hturn : turnFrom? goOn trees current states world i = some next) (hfails : next.tick.1 = .fail)
    (hlast : goOn = .fail → i + 1 = trees.length) :
    (tickFrom goOn trees current states world).1 = .fail := by
  induction trees generalizing current world i with
  | nil => cases hturn
  | cons tree trees ih =>
    obtain ⟨state, states⟩ := states
    have hlast : goOn = .fail → i = trees.length := fun h => Nat.succ_injective (hlast h)
    cases current with
    | succ current =>
      cases i with
      | zero => cases hturn
      | succ i => exact ih hturn hlast
    | zero =>
      rcases htick : tree.tick state world with ⟨outcome, ticked, after⟩
      rw [tickFrom_zero goOn tree trees state states world htick]
      cases i with
      | zero =>
        cases hturn
        obtain rfl : outcome = .fail := (congrArg Prod.fst htick).symm.trans hfails
        rw [if_neg (by simp)]
        split
        · rename_i hfail
          -- A failure goes on to the next child only where there is none.
          obtain rfl : trees = [] := List.length_eq_zero_iff.mp (hlast hfail.symm).symm
          exact hfail.symm
        · rfl
      | succ i =>
        rw [turnFrom?, htick] at hturn
        dsimp only at hturn
        split at hturn
        · rename_i hsame
          rw [if_neg (hsame ▸ hgo), if_pos hsame]
          exact ih hturn hlast
        · cases hturn

theorem turnOption?_eq {tree : Option (Tree A)} {state : StateOption tree}
    (h : turnOption? tree state world i = some next) :
    tree.toList[i]? = some next.node.tree ∧ (tickOption tree state world).1 = next.tick.1 := by
  cases tree with
  | none => cases h
  | some tree =>
    cases i with
    | zero =>
      cases h
      exact ⟨rfl, rfl⟩
    | succ i => cases h

theorem status_of_fail (tree : Tree A) (state : tree.State) (world : World A) (htree : tree.BuiltIn)
    (h : (tree.tick state world).1 = .fail) : tree.status (tree.tick state world).2.1 = .failed := by
  have hended : ∀ {status : Status} {outcome : Outcome}, status.outcome? = some outcome →
      outcome = .fail → status = .failed := by
    rintro status outcome houtcome rfl
    exact (Status.eq_of_outcome? houtcome).1
  cases tree with
  | leaf node => exact htree.elim
  | action label command =>
    rw [tick] at h
    split at h <;> cases h
  | wait duration variance =>
    rw [tick] at h
    dsimp only at h
    split at h
    · cases h
    · split at h <;> cases h
  | sequence children =>
    rw [tick_sequence] at h ⊢
    cases houtcome : state.begin.status.outcome? with
    | some outcome =>
      rw [houtcome] at h
      exact hended houtcome h
    | none =>
      rw [houtcome] at h
      exact congrArg Outcome.status h
  | selector children =>
    rw [tick_selector] at h ⊢
    cases houtcome : state.begin.status.outcome? with
    | some outcome =>
      rw [houtcome] at h
      exact hended houtcome h
    | none =>
      rw [houtcome] at h
      dsimp only at h ⊢
      rcases harb : arbitrate children state.begin world with ⟨_ | current, states, asked⟩ <;>
        rw [harb] at h <;> exact congrArg Outcome.status h
  | condition guard policy child =>
    rcases hstart : (Tree.condition guard policy child).start state world with ⟨started, begun⟩
    rcases hbroken : (if policy.abortsSelf then begun.stoppedHolding guard started.observer
      else (false, begun)) with ⟨broken, checked⟩
    rw [tick_condition guard policy child state world hstart hbroken] at h ⊢
    cases houtcome : started.status.outcome? with
    | some outcome =>
      rw [houtcome] at h
      exact hended houtcome h
    | none =>
      rw [houtcome] at h
      cases broken with
      | true => rfl
      | false => exact congrArg Outcome.status h
  | service label interval callback child =>
    rcases hstart : (Tree.service label interval callback child).start state world with
      ⟨started, begun⟩
    rw [tick_service label interval callback child state world hstart] at h ⊢
    cases houtcome : started.status.outcome? with
    | some outcome =>
      rw [houtcome] at h
      exact hended houtcome h
    | none =>
      rw [houtcome] at h
      exact congrArg Outcome.status h

end Tree

namespace Visit

variable {visit next : Visit A} {i : Nat}

/-- A child whose turn comes is one of the node's own, and the node fails with it if it is not a selector
that has another one to try. -/
theorem turn?_eq_some (h : visit.turn? i = some next) :
    visit.node.tree.children[i]? = some next.node.tree ∧
      (next.tick.1 = .fail →
        (∀ children, visit.node.tree = .selector children → i + 1 = children.length) →
          visit.tick.1 = .fail) := by
  obtain ⟨⟨tree, state⟩, world⟩ := visit
  cases tree with
  | action _ _ | wait _ _ | leaf _ => cases h
  | sequence children =>
    have htick : tick ⟨⟨.sequence children, state⟩, world⟩ = _ := Tree.tick_sequence children state world
    rw [htick]
    rw [turn?] at h
    cases houtcome : state.begin.status.outcome? with
    | some outcome =>
      rw [houtcome] at h
      cases h
    | none =>
      rw [houtcome] at h
      exact ⟨Tree.turnFrom?_child h, fun hfails _ => Tree.tickFrom_fails (by simp) h hfails nofun⟩
  | selector children =>
    have htick : tick ⟨⟨.selector children, state⟩, world⟩ = _ := Tree.tick_selector children state world
    rw [htick]
    rw [turn?] at h
    cases houtcome : state.begin.status.outcome? with
    | some outcome =>
      rw [houtcome] at h
      cases h
    | none =>
      rw [houtcome] at h
      dsimp only at h ⊢
      rcases harb : Tree.arbitrate children state.begin world with ⟨_ | current, states, asked⟩ <;>
        rw [harb] at h
      · cases h
      · exact ⟨Tree.turnFrom?_child h, fun hfails hlast =>
          Tree.tickFrom_fails (by simp) h hfails fun _ => hlast children rfl⟩
  | condition guard policy child =>
    rcases hstart : (Tree.condition guard policy child).start state world with ⟨started, begun⟩
    rcases hbroken : (if policy.abortsSelf then begun.stoppedHolding guard started.observer
      else (false, begun)) with ⟨broken, checked⟩
    have htick : tick ⟨⟨.condition guard policy child, state⟩, world⟩ = _ :=
      Tree.tick_condition guard policy child state world hstart hbroken
    rw [htick]
    rw [turn?, hstart] at h
    dsimp only at h
    cases houtcome : started.status.outcome? with
    | some outcome =>
      rw [houtcome] at h
      cases h
    | none =>
      rw [houtcome, hbroken] at h
      cases broken with
      | true => cases h
      | false =>
        obtain ⟨hchild, hsame⟩ := Tree.turnOption?_eq h
        exact ⟨hchild, fun hfails _ => hsame.trans hfails⟩
  | service label interval callback child =>
    rcases hstart : (Tree.service label interval callback child).start state world with
      ⟨started, begun⟩
    have htick : tick ⟨⟨.service label interval callback child, state⟩, world⟩ = _ :=
      Tree.tick_service label interval callback child state world hstart
    rw [htick]
    rw [turn?, hstart] at h
    dsimp only at h
    cases houtcome : started.status.outcome? with
    | some outcome =>
      rw [houtcome] at h
      cases h
    | none =>
      rw [houtcome] at h
      obtain ⟨hchild, hsame⟩ := Tree.turnOption?_eq h
      exact ⟨hchild, fun hfails _ => hsame.trans hfails⟩

theorem GivesUp.fails (h : visit.GivesUp) : visit.tick.1 = .fail := by
  obtain ⟨⟨tree, state⟩, world⟩ := visit
  cases tree with
  | selector children =>
    obtain ⟨hrun, hkind⟩ := h
    obtain ⟨⟨winner, preemption⟩, hfound, rfl⟩ := Option.map_eq_some_iff.mp hkind
    obtain ⟨kind, asked, hfirst, htick⟩ :=
      Tree.takesOver_of_firstPreempting hrun (Prod.ext hfound rfl)
    rw [tick, htick]
    cases hfound.symm.trans (congrArg Prod.fst hfirst)
    rfl
  | _ => exact h.elim

theorem fails_of_at? {visit last : Visit A} {position : List Nat} (hat : visit.at? position = some last)
    (hfails : last.tick.1 = .fail) (hlast : visit.node.tree.LastResort position) :
    visit.tick.1 = .fail := by
  induction position generalizing visit with
  | nil =>
    cases hat
    exact hfails
  | cons i position ih =>
    obtain ⟨next, hturn, hat⟩ := Option.bind_eq_some_iff.mp hat
    obtain ⟨hchild, hpasses⟩ := turn?_eq_some hturn
    obtain ⟨hown, hbelow⟩ := Tree.lastResort_cons.mp hlast
    exact hpasses (ih hat (hbelow _ hchild)) hown

theorem turn?_zero {visit : Visit A} {first : Tree A} {rest : List (Tree A)}
    (hquiet : visit.node.Quiet) (htree : visit.node.tree = .sequence (first :: rest) ∨
      visit.node.tree = .selector (first :: rest)) :
    ∃ next, visit.turn? 0 = some next ∧ next.node.tree = first ∧ next.node.Quiet := by
  obtain ⟨⟨tree, state⟩, world⟩ := visit
  obtain rfl | rfl := htree
  all_goals
    have hbegin : state.begin = ⟨.running, 0, state.children⟩ := by
      rw [CompositeState.begin, if_pos hquiet.1]
    refine ⟨⟨⟨first, state.children.1⟩, world⟩, ?_, rfl, hquiet.2.1⟩
    rw [turn?, hbegin]
    rfl

end Visit

namespace Root

def turn? (root : Root A) (position : List Nat) : Option (Visit A) :=
  if root.active then Visit.at? ⟨root.readied.node, root.readied.world⟩ position else none

theorem turn?_eq_some {root : Root A} {position : List Nat} {visit : Visit A}
    (h : root.turn? position = some visit) : root.active = true ∧
      Visit.at? ⟨root.readied.node, root.readied.world⟩ position = some visit := by
  unfold turn? at h
  split at h
  · rename_i hactive
    exact ⟨hactive, h⟩
  · cases h

theorem readied_plan (root : Root A) :
    root.readied.tree = root.tree ∧ root.readied.active = root.active := by
  unfold readied
  split <;> exact ⟨rfl, rfl⟩

theorem tick_active {root : Root A} (hactive : root.active = true) : root.tick.active = true := by
  rw [root.tick_eq hactive]
  exact root.readied_plan.2.trans hactive

end Root

namespace Session

variable {tree : Tree A} {initial : Values} {session : Session A}

/-- Where a selector gives up in a tick and none of the selectors above it has another child to try, the
top node has failed after the tick. The next one releases the tree, so that no node of it is active, and
begins at the first child. -/
theorem Reachable.gives_up_to_top (htree : tree.BuiltIn) (h : Reachable tree initial session)
    {position : List Nat} {visit : Visit A} (hturn : session.root.turn? position = some visit)
    (hgives : visit.GivesUp) (hlast : tree.LastResort position) :
    session.root.tick.status = .failed ∧
      session.root.tick.tick = session.root.tick.released.evaluated ∧
      session.root.tick.released.node.Quiet ∧
      ∀ first rest, tree = .sequence (first :: rest) ∨ tree = .selector (first :: rest) →
        ∃ next, session.root.tick.turn? [0] = some next ∧ next.node.tree = first ∧ next.node.Quiet := by
  obtain ⟨hactive, hat⟩ := Root.turn?_eq_some hturn
  have hplan : session.root.readied.tree = tree := session.root.readied_plan.1.trans h.tree_eq
  have hfails := Visit.fails_of_at? hat hgives.fails (by rwa [← hplan] at hlast)
  have htick : session.root.tick = session.root.readied.evaluated := session.root.tick_eq hactive
  have hfailed : session.root.tick.status = .failed := by
    rw [htick]
    exact Tree.status_of_fail _ _ _ (by rwa [← hplan] at htree) hfails
  have hended : session.root.tick.status.isTerminated = true := by rw [hfailed]; rfl
  have hagain : session.root.tick.active = true := Root.tick_active hactive
  have hquiet : session.root.tick.released.node.Quiet :=
    (h.called .tick |>.kept htree).released.2.1
  refine ⟨hfailed, ?_, hquiet, fun first rest hfirst => ?_⟩
  · rw [Root.tick_eq _ hagain, if_pos hended]
  · have hready : session.root.tick.readied = session.root.tick.released := by
      rw [Root.readied, if_pos hended]
    have hshape : session.root.tick.released.tree = tree := (h.called .tick).tree_eq
    let top : Visit A := ⟨session.root.tick.released.node, session.root.tick.released.world⟩
    have hfirst : top.node.tree = .sequence (first :: rest) ∨
        top.node.tree = .selector (first :: rest) := by rwa [← hshape] at hfirst
    obtain ⟨next, hnext, hnode⟩ := Visit.turn?_zero hquiet hfirst
    refine ⟨next, ?_, hnode⟩
    rw [Root.turn?, if_pos hagain, hready, Visit.at?, hnext]
    rfl

def doorkeeper : Tree Nat :=
  .selector [.condition ⟨"bell", .isSet, .bool true⟩ .lowerPriority (some (.wait 5 0)), .wait 5 0]

/-- The bell rings while the doorkeeper of a house rests. He gives up, and the house begins anew. -/
theorem doorkeeper_gives_up :
    let house : Tree Nat := .sequence [doorkeeper]
    let session := Session.calls ⟨Root.opened house {} 0 (fun _ agent => agent) (.ofSeed 0), []⟩
      [.start, .tick, .set "bell" (.bool true)]
    house.BuiltIn ∧ session.Reachable house .empty ∧ house.LastResort [0] ∧
    (∃ visit, session.root.turn? [0] = some visit ∧ visit.GivesUp) ∧
    session.root.tick.status = .failed ∧
    ∃ next, session.root.tick.turn? [0] = some next ∧ next.node.tree = doorkeeper := by
  intro house session
  have hopened : Reachable house .empty
      ⟨Root.opened house {} 0 (fun _ agent => agent) (.ofSeed 0), []⟩ :=
    .opened (Board.sound_ofValues .empty) rfl (fun _ _ _ => rfl)
      (Root.withBoard_eq_ok.mpr ⟨⟨rfl, rfl⟩, rfl⟩)
  have hbuiltIn : house.BuiltIn := ⟨⟨trivial, trivial, trivial⟩, trivial⟩
  have h : session.Reachable house .empty := hopened.calls _
  have hlast : house.LastResort [0] :=
    Tree.lastResort_cons.mpr ⟨nofun, fun _ _ => Tree.lastResort_nil _⟩
  have hturns : (session.root.turn? [0]).any (·.GivesUp) = true := by decide
  obtain ⟨visit, hturn, hgives⟩ := Option.any_eq_true _ _ |>.mp hturns
  have hgives : visit.GivesUp := of_decide_eq_true hgives
  obtain ⟨hfailed, -, -, hfirst⟩ := h.gives_up_to_top hbuiltIn hturn hgives hlast
  obtain ⟨next, hnext, hnode, -⟩ := hfirst doorkeeper [] (.inl rfl)
  exact ⟨hbuiltIn, h, hlast, ⟨visit, hturn, hgives⟩, hfailed, next, hnext, hnode⟩

/-- The bell rings while the doorkeeper rests, but there is a spare. The doorkeeper gives up, the spare
begins in the same tick, and nobody comes back to the bell in the next. -/
theorem spare_ignores_bell :
    let house : Tree Nat := .selector [doorkeeper, .wait 5 0]
    let session := Session.calls ⟨Root.opened house {} 0 (fun _ agent => agent) (.ofSeed 0), []⟩
      [.start, .tick, .set "bell" (.bool true)]
    house.BuiltIn ∧ session.Reachable house .empty ∧
    (∃ visit, session.root.turn? [0] = some visit ∧ visit.GivesUp) ∧
    session.root.tick.status = .running ∧ session.root.tick.turn? [0] = none := by
  intro house session
  have hopened : Reachable house .empty
      ⟨Root.opened house {} 0 (fun _ agent => agent) (.ofSeed 0), []⟩ :=
    .opened (Board.sound_ofValues .empty) rfl (fun _ _ _ => rfl)
      (Root.withBoard_eq_ok.mpr ⟨⟨rfl, rfl⟩, rfl⟩)
  have hturns : (session.root.turn? [0]).any (·.GivesUp) = true := by decide
  obtain ⟨visit, hturn, hgives⟩ := Option.any_eq_true _ _ |>.mp hturns
  have hnone : (session.root.tick.turn? [0]).isNone = true := by decide
  exact ⟨⟨⟨trivial, trivial, trivial⟩, trivial, trivial⟩, hopened.calls _,
    ⟨visit, hturn, of_decide_eq_true hgives⟩, by decide, Option.isNone_iff_eq_none.mp hnone⟩

end Session

end BehaviorTree
