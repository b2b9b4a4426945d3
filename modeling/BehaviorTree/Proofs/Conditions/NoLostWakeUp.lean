import BehaviorTree.Proofs.Conditions.HeardInTick

namespace BehaviorTree

variable {A : Type}

namespace World

variable {world : World A} {guard : Guard} {status : Status} {id : ObserverId}

theorem startedHolding_of_pending (h : world.board.isPending id = true) :
    (world.startedHolding guard (some id)).1 = guard.holds world.board := by
  unfold startedHolding
  dsimp only
  rw [if_pos h, judge_eq]
  exact guard.holds_congr rfl

/-- A guard that holds but did not at the last look has its flag up. -/
theorem Watches.pending (h : world.Watches guard status id)
    (hverdict : world.lastVerdict id = some false) (hseen : ¬world.Dismissed id)
    (hholds : guard.holds world.board = true) :
    world.board.isPending id = true := by
  by_contra hdown
  have hsame := h.aware false (head_of_lastVerdict hverdict hseen) (by simpa using hdown)
  exact absurd (hsame.symm.trans hholds) (by simp)

theorem startedHolding_still (world : World A) (guard : Guard) (observer : Option ObserverId) :
    (world.startedHolding guard observer).2.board.values = world.board.values ∧
      world.Still (world.startedHolding guard observer).2 := by
  cases observer with
  | none => exact ⟨rfl, .refl world⟩
  | some id =>
    unfold startedHolding
    dsimp only
    split
    · have hvalues := (guard.evaluate_board (world.acknowledge id).board).1
      rw [judge_eq]
      refine ⟨(congrArg Board.values (board_withReport _ _ _)).trans hvalues, fun other hdown => ?_⟩
      refine (isPending_evaluate (world.acknowledge id) guard other).trans ?_
      exact (Board.isPending_acknowledge _ _ _).trans (by rw [hdown, Bool.false_and])
    · exact ⟨rfl, .refl world⟩

end World

namespace Tree

mutual

theorem preempts_still : (tree : Tree A) → (state : tree.State) → (world : World A) →
    (tree.preempts state world).2.board.values = world.board.values ∧
      world.Still (tree.preempts state world).2
  | .action _ _, _, world => ⟨rfl, .refl world⟩
  | .wait _ _, _, world => ⟨rfl, .refl world⟩
  | .leaf _, _, world => ⟨rfl, .refl world⟩
  | .sequence _, _, world => ⟨rfl, .refl world⟩
  | .selector _, _, world => ⟨rfl, .refl world⟩
  | .condition guard policy child, state, world => by
    rw [preempts]
    split
    · exact ⟨rfl, .refl world⟩
    · split
      · exact ⟨rfl, .refl world⟩
      · exact world.startedHolding_still guard state.observer
  | .service _ _ _ child, state, world => preemptsOption_still child state.child world

theorem preemptsOption_still : (tree : Option (Tree A)) → (state : StateOption tree) →
    (world : World A) → (preemptsOption tree state world).2.board.values = world.board.values ∧
      world.Still (preemptsOption tree state world).2
  | none, _, world => ⟨rfl, .refl world⟩
  | some tree, state, world => preempts_still tree state world

end

theorem preempts_condition {guard : Guard} {policy : RestartPolicy} {child : Option (Tree A)}
    {state : (Tree.condition guard policy child).State} {world : World A} {kind : Preemption}
    {id : ObserverId} (hpolicy : policy.preemption? = some kind) (hidle : state.status = .inactive)
    (hobserver : state.observer = some id) (hpending : world.board.isPending id = true)
    (hholds : guard.holds world.board = true) :
    ((Tree.condition guard policy child).preempts state world).1 = some kind := by
  rw [preempts, hpolicy]
  dsimp only
  rw [if_neg (by simp [hidle]), hobserver]
  dsimp only
  rw [World.startedHolding_of_pending hpending, if_pos hholds]

section Front

variable {guard : Guard} {policy : RestartPolicy} {kind : Preemption} {id : ObserverId}

mutual

theorem preempts_front (hpolicy : policy.preemption? = some kind) : (tree : Tree A) →
    (state : tree.State) → (world : World A) →
    .condition guard policy .inactive (some id) ∈ tree.front state →
    world.board.isPending id = true → guard.holds world.board = true →
    (tree.preempts state world).1 = some kind
  | .action _ _, _, _ => fun hfront => absurd hfront List.not_mem_nil
  | .wait _ _, _, _ => fun hfront => absurd hfront List.not_mem_nil
  | .leaf _, _, _ => fun hfront => absurd hfront List.not_mem_nil
  | .sequence _, _, _ => fun hfront => absurd hfront List.not_mem_nil
  | .selector _, _, _ => fun hfront => absurd hfront List.not_mem_nil
  | .condition _ _ none, _, _ => fun hfront => absurd hfront List.not_mem_nil
  | .condition _ _ (some _), _, _ => fun hfront hpending hholds => by
    obtain ⟨rfl, rfl, hidle, hobserver⟩ := Keeper.condition.inj (List.mem_singleton.mp hfront)
    exact preempts_condition hpolicy hidle.symm hobserver.symm hpending hholds
  | .service _ _ _ child, state, world => fun hfront hpending hholds =>
    preemptsOption_front hpolicy child state.child world
      ((List.mem_cons.mp hfront).resolve_left nofun) hpending hholds

theorem preemptsOption_front (hpolicy : policy.preemption? = some kind) : (tree : Option (Tree A)) →
    (state : StateOption tree) → (world : World A) →
    .condition guard policy .inactive (some id) ∈ frontOption tree state →
    world.board.isPending id = true → guard.holds world.board = true →
    (preemptsOption tree state world).1 = some kind
  | none, _, _ => fun hfront => absurd hfront List.not_mem_nil
  | some tree, state, world => preempts_front hpolicy tree state world

end

end Front

theorem front_list {trees : List (Tree A)} {states : StateList trees} {child : Subtree A}
    (hchild : child ∈ Subtree.ofList trees states) {keeper : Keeper}
    (hfront : keeper ∈ child.tree.front child.state) : keeper ∈ keepersList trees states :=
  Multiset.mem_of_le (Subtree.keepers_le_list hchild)
    (mem_keepers_of_front child.tree keeper hfront)

/-- Of the children that are asked, the first that takes over stands no later than one that would. -/
theorem firstPreempting_front {guard : Guard} {policy : RestartPolicy} {kind : Preemption}
    {id : ObserverId} (hpolicy : policy.preemption? = some kind) (trees : List (Tree A)) (limit : Nat)
    (states : StateList trees) (world : World A)
    (hsupports : world.Supports (keepersList trees states)) {i : Nat} {child : Subtree A}
    (hi : i < limit) (hchild : (Subtree.ofList trees states)[i]? = some child)
    (hfront : .condition guard policy .inactive (some id) ∈ child.tree.front child.state)
    (hpending : world.board.isPending id = true) (hholds : guard.holds world.board = true) :
    ∃ winner ≤ i, ∃ preemption asked,
      firstPreempting trees limit states world = (some (winner, preemption), asked) := by
  induction trees generalizing limit world i with
  | nil => simp [Subtree.ofList] at hchild
  | cons tree trees ih =>
    obtain ⟨state, states⟩ := states
    obtain ⟨limit, rfl⟩ := Nat.exists_eq_succ_of_ne_zero (Nat.ne_zero_of_lt hi)
    have hdeals := preempts_deals tree state world
    have hvalues := (preempts_still tree state world).1
    rcases hask : tree.preempts state world with ⟨_ | preemption, asked⟩
    · rw [hask] at hdeals hvalues
      have hsupported := hsupports.deals (hdeals.frame _)
      cases i with
      | zero =>
        cases hchild
        have hasks := preempts_front hpolicy tree state world hfront hpending hholds
        rw [hask] at hasks
        cases hasks
      | succ i =>
        have hchild : (Subtree.ofList trees states)[i]? = some child := hchild
        have hkeeper := front_list (List.mem_of_getElem? hchild) hfront
        -- Asking the first child neither hides the change from the other nor undoes it.
        have hwatches := (hsupports.right.watchful _ hkeeper).2 id rfl
        have huntouched := hsupports.untouched_right hdeals (.observer id)
          (Handle.mem_ofKeepers hkeeper (Multiset.mem_singleton_self _))
        have hstill : asked.board.isPending id = true := by
          by_contra hdown
          have hbefore := ((huntouched.2 guard.key hwatches.subscribed).2 (by simpa using hdown)).1
          exact absurd (hbefore.symm.trans hpending) (by simp)
        have hsame : guard.holds asked.board = guard.holds world.board :=
          guard.holds_congr (congrArg (·.get? guard.key) hvalues)
        obtain ⟨winner, hwinner, preemption, last, hfound⟩ := ih limit states asked hsupported.right
          (Nat.lt_of_succ_lt_succ hi) hchild hstill (hsame.trans hholds)
        refine ⟨winner + 1, Nat.succ_le_succ hwinner, preemption, last, ?_⟩
        rw [firstPreempting, hask]
        dsimp only
        rw [hfound]
        rfl
    · refine ⟨0, Nat.zero_le i, preemption, asked, ?_⟩
      rw [firstPreempting, hask]

/-- What a selector's tick does when a child takes over from the one whose turn it is. -/
def handOver (children : List (Tree A)) (state : CompositeState (StateList children)) (winner : Nat)
    (preemption : Preemption) (asked : World A) :
    Outcome × CompositeState (StateList children) × World A :=
  let (states, world) := stopAt children state.current state.children
    (asked.record (.preempted winner state.current preemption))
  match preemption with
  | .immediate => tickRest .fail children winner states world
  | .deferred => settle children .fail state.current states world

/-- The next tick of the running selector hands the turn over to this child. -/
def TakesOver (children : List (Tree A)) (state : (Tree.selector children).State) (world : World A)
    (winner : Nat) : Prop :=
  ∃ preemption asked,
    firstPreempting children state.current state.children world = (some (winner, preemption), asked) ∧
      (Tree.selector children).tick state world = handOver children state winner preemption asked

theorem takesOver_of_firstPreempting {children : List (Tree A)}
    {state : (Tree.selector children).State} {world asked : World A} {winner : Nat}
    {preemption : Preemption} (hrun : state.status = .running)
    (h : firstPreempting children state.current state.children world =
      (some (winner, preemption), asked)) : TakesOver children state world winner := by
  have hbegin : state.begin = state := by rw [CompositeState.begin, if_neg (by simp [hrun])]
  refine ⟨preemption, asked, h, ?_⟩
  rw [tick_selector, hbegin, hrun]
  unfold arbitrate handOver
  rw [h]
  cases preemption <;> rfl

/-- Each condition that may take over and stands before the child whose turn it is, directly or below
services, is inactive and watches its key. If its guard holds but did not at the last evaluation, it
asks to take over, and in the next tick of the running selector it or a child before it does. -/
def Heeds (children : List (Tree A)) (state : (Tree.selector children).State) (world : World A) :
    Prop :=
  ∀ i < state.current, ∀ child, (Subtree.ofList children state.children)[i]? = some child →
    ∀ guard policy status observer kind,
      .condition guard policy status observer ∈ child.tree.front child.state →
      policy.preemption? = some kind →
      status = .inactive ∧ ∃ id, observer = some id ∧ ⟨id, guard.key⟩ ∈ world.board.observers ∧
        (world.lastVerdict id = some false → guard.holds world.board = true →
          (child.tree.preempts child.state world).1 = some kind ∧
            ∃ winner ≤ i, TakesOver children state world winner)

theorem heard_ofList {trees : List (Tree A)} {current : Nat} {states : StateList trees}
    {world : World A} (h : AlertAt trees current states world) {i : Nat} (hi : i < current)
    {child : Subtree A} (hchild : (Subtree.ofList trees states)[i]? = some child) :
    child.tree.Heard child.state world := by
  induction trees generalizing current i with
  | nil => simp [Subtree.ofList] at hchild
  | cons tree trees ih =>
    obtain ⟨state, states⟩ := states
    obtain ⟨current, rfl⟩ := Nat.exists_eq_succ_of_ne_zero (Nat.ne_zero_of_lt hi)
    cases i with
    | zero =>
      cases hchild
      exact h.1
    | succ i => exact ih h.2 (Nat.lt_of_succ_lt_succ hi) hchild

theorem heeds {children : List (Tree A)} {state : (Tree.selector children).State} {world : World A}
    (hfit : (Tree.selector children).Fit state)
    (hsupports : world.Supports ((Tree.selector children).keepers state))
    (halert : (Tree.selector children).Alert state world) (hrun : state.status = .running) :
    Heeds children state world := by
  intro i hi child hchild guard policy status observer kind hfront hpolicy
  have hfitAt := ((fit_selector children state).mp hfit).current hrun
  have hquiet := (Subtree.fit_ofList hfitAt hchild).2 (Nat.ne_of_lt hi)
  have hidle : status = .inactive := Quiet.idle child.tree hquiet _ hfront
  obtain ⟨id, hobserver, hattentive⟩ := heard_ofList (halert hrun) hi hchild _ hfront
    (by simp [hpolicy])
  have hkeeper := front_list (List.mem_of_getElem? hchild) hfront
  have hwatches := (hsupports.watchful _ hkeeper).2 id hobserver
  refine ⟨hidle, id, hobserver, hwatches.subscribed, fun hverdict hholds => ?_⟩
  have hpending := hwatches.pending hverdict (hattentive hverdict) hholds
  rw [hidle, hobserver] at hfront
  obtain ⟨winner, hwinner, preemption, asked, hfound⟩ := firstPreempting_front hpolicy children
    state.current state.children world hsupports hi hchild hfront hpending hholds
  exact ⟨preempts_front hpolicy child.tree child.state world hfront hpending hholds,
    winner, hwinner, takesOver_of_firstPreempting hrun hfound⟩

end Tree

namespace Session

variable {tree : Tree A} {initial : Values} {session : Session A}

/-- In each state that a host can come to that does not take the observers off the board: a condition
that may take over, is inactive and watches its key asks to take over once its guard holds, if it did
not hold at the last evaluation and the flag was not taken down unseen since. The conditions before the
running child of a selector do not need that provision, neither now nor when it is the selector's turn in
a tick from here. -/
theorem Undisturbed.wakes (htree : tree.BuiltIn) (h : Undisturbed tree initial session) :
    (∀ position guard policy child, ∀ state : (Tree.condition guard policy child).State, ∀ kind id,
      session.root.node.at? position = some ⟨.condition guard policy child, state⟩ →
      policy.preemption? = some kind → state.status = .inactive → state.observer = some id →
      session.root.world.lastVerdict id = some false → ¬session.root.world.Dismissed id →
      guard.holds session.root.world.board = true →
      ((Tree.condition guard policy child).preempts state session.root.world).1 = some kind) ∧
    (∀ position children, ∀ state : (Tree.selector children).State,
      session.root.node.at? position = some ⟨.selector children, state⟩ → state.status = .running →
      Tree.Heeds children state session.root.world) ∧
    ∀ children, ∀ state : (Tree.selector children).State, ∀ world,
      ⟨⟨.selector children, state⟩, world⟩ ∈ session.root.visits → state.status = .running →
      Tree.Heeds children state world := by
  refine ⟨?_, fun position children state hposition hrun => ?_,
    fun children state world hvisit hrun => ?_⟩
  · intro position guard policy child state kind id hposition hpolicy hidle hobserver hverdict hseen
      hholds
    obtain ⟨-, hsupports, -⟩ := h.ready_below htree hposition
    have hwatches := (hsupports.watchful _ (Subtree.keeper?_mem rfl)).2 id hobserver
    have hpending := hwatches.pending hverdict hseen hholds
    exact Tree.preempts_condition hpolicy hidle hobserver hpending hholds
  · obtain ⟨hfit, hsupports, halert⟩ := h.ready_below htree hposition
    exact Tree.heeds hfit hsupports halert hrun
  · obtain ⟨hfit, hsupports, halert⟩ := h.ready_visits htree hvisit
    exact Tree.heeds hfit hsupports halert hrun

theorem watchman_wakes :
    let session := watchman.session.calls [.start, .tick, .set "alarm" (.bool true)]
    let guard : Guard := ⟨"alarm", .isSet, .bool true⟩
    let child : Tree Nat := .service "look around" 2 (.act (· + 1) .done) (some (.wait 10 0))
    let children := [.condition guard .immediateRestart (some child), .wait 5 0]
    ∃ state : (Tree.condition guard .immediateRestart (some child)).State,
      session.root.node.at? [0] = some ⟨.condition guard .immediateRestart (some child), state⟩ ∧
      ((Tree.condition guard .immediateRestart (some child)).preempts state session.root.world).1 =
        some .immediate ∧
      ∃ state : (Tree.selector children).State,
        session.root.visits.head? = some ⟨⟨.selector children, state⟩, session.root.world⟩ ∧
        Tree.TakesOver children state session.root.world 0 := by
  intro session guard child children
  have h : session.Undisturbed watchman .empty := watchman.undisturbed.calls _ (by simp [Call.Spares])
  obtain ⟨hcondition, -, hvisits⟩ := h.wakes watchman.builtIn
  refine ⟨_, rfl, ?_, _, rfl, ?_⟩
  · exact hcondition [0] guard .immediateRestart (some child) _ .immediate ⟨0⟩ rfl rfl rfl rfl
      (by decide) (by decide) (by decide)
  · have hheeds := hvisits children _ session.root.world (List.mem_of_head? rfl) rfl
    obtain ⟨-, id, hid, -, hwakes⟩ := hheeds 0 (by decide) _ rfl guard .immediateRestart _ _ .immediate
      (List.mem_singleton_self _) rfl
    cases hid
    obtain ⟨-, winner, hwinner, htakes⟩ := hwakes (by decide) (by decide)
    obtain rfl := Nat.le_zero.mp hwinner
    exact htakes

def porter : Tree Nat :=
  .condition ⟨"open", .isSet, .bool true⟩ .immediateRestart
    (some (.condition ⟨"lit", .isSet, .bool true⟩ .immediateRestart
      (some (.action "greet" (.always (· + 1))))))

/-- The light goes on while the porter waits for it, but the door closes before he looks. No selector
would ask, and the inner condition has not looked since. -/
theorem porter_misses_light :
    let guard : Guard := ⟨"lit", .isSet, .bool true⟩
    let greet : Tree Nat := .action "greet" (.always (· + 1))
    let session := Session.calls ⟨Root.opened porter {} 0 (fun _ agent => agent) (.ofSeed 0), []⟩
      [.set "open" (.bool true), .start, .set "lit" (.bool true), .remove "open", .tick]
    session.Undisturbed porter .empty ∧
    ∃ state : (Tree.condition guard .immediateRestart (some greet)).State,
      session.root.node.at? [0] = some ⟨.condition guard .immediateRestart (some greet), state⟩ ∧
      state.status = .inactive ∧ state.observer = some ⟨1⟩ ∧
      ⟨⟨1⟩, "lit"⟩ ∈ session.root.world.board.observers ∧
      session.root.world.lastVerdict ⟨1⟩ = some false ∧
      guard.holds session.root.world.board = true ∧
      ((Tree.condition guard .immediateRestart (some greet)).preempts state session.root.world).1 =
        none := by
  intro guard greet session
  have hopened : Undisturbed porter .empty
      ⟨Root.opened porter {} 0 (fun _ agent => agent) (.ofSeed 0), []⟩ :=
    .opened (Board.sound_ofValues .empty) rfl (fun _ _ _ => rfl)
      (Root.withBoard_eq_ok.mpr ⟨⟨rfl, rfl⟩, rfl⟩)
  exact ⟨hopened.calls _ (by simp [Call.Spares]), _, rfl, rfl, rfl, by decide, by decide, by decide,
    by decide⟩

end Session

end BehaviorTree
