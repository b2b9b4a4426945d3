import BehaviorTree.Proofs.Recipes.Orders
import BehaviorTree.Proofs.Conditions.Watching

namespace BehaviorTree

variable {A : Type}

namespace World

/-- Between the two worlds no time has passed, and neither the agent nor a value was changed. -/
structure Unwritten (before after : World A) : Prop where
  agent_eq : after.agent = before.agent
  values_eq : after.board.values = before.board.values
  now_eq : after.now = before.now
  react_eq : after.react = before.react

variable {before middle after : World A}

namespace Unwritten

theorem refl (world : World A) : world.Unwritten world := ⟨rfl, rfl, rfl, rfl⟩

theorem trans (h : before.Unwritten middle) (k : middle.Unwritten after) : before.Unwritten after :=
  ⟨k.agent_eq.trans h.agent_eq, k.values_eq.trans h.values_eq, k.now_eq.trans h.now_eq,
    k.react_eq.trans h.react_eq⟩

theorem issues {before after : World (Recorded A)} (h : before.Unwritten after) :
    before.Issues after [] :=
  ⟨congrArg Recorded.orders h.agent_eq, h.now_eq, h.react_eq⟩

end Unwritten

theorem unwritten_record (world : World A) (event : Event) : world.Unwritten (world.record event) :=
  ⟨rfl, rfl, rfl, rfl⟩

theorem unwritten_evaluate (world : World A) (guard : Guard) :
    world.Unwritten (world.evaluate guard).2 := by
  have hvalues := (guard.evaluate_board world.board).1
  have hreported (board : Board) (report : Option KeyWarning) (h : board.values = world.board.values) :
      world.Unwritten (world.withReport board report) := by
    cases report <;> exact ⟨rfl, h, rfl, rfl⟩
  exact hreported _ _ hvalues

theorem unwritten_judge (world : World A) (guard : Guard) (id : ObserverId) :
    world.Unwritten (world.judge guard id).2 :=
  (world.unwritten_evaluate guard).trans (unwritten_record _ _)

theorem unwritten_observe (world : World A) (observer : Option ObserverId) (key : String) :
    world.Unwritten (world.observe observer key).2 := by
  cases observer <;> exact ⟨rfl, rfl, rfl, rfl⟩

theorem unwritten_dismiss? (world : World A) (observer : Option ObserverId) :
    world.Unwritten (world.dismiss? observer) := by
  cases observer with
  | none => exact .refl world
  | some id =>
    unfold dismiss? dismiss
    dsimp only
    split <;> exact ⟨rfl, rfl, rfl, rfl⟩

theorem unwritten_unsubscribe? (world : World A) (observer : Option ObserverId) :
    world.Unwritten (world.unsubscribe? observer) := by
  cases observer <;> exact ⟨rfl, rfl, rfl, rfl⟩

theorem unwritten_cancel? (world : World A) (timer : Option TimerId) :
    world.Unwritten (world.cancel? timer) := by
  cases timer <;> exact ⟨rfl, rfl, rfl, rfl⟩

/-- A relation between worlds that all hold to where a tree is stopped or released. -/
structure Discarding (R : World A → World A → Prop) : Prop where
  refl : ∀ world, R world world
  trans : ∀ {before middle after}, R before middle → R middle after → R before after
  dismiss? : ∀ world observer, R world (world.dismiss? observer)
  unsubscribe? : ∀ world observer, R world (world.unsubscribe? observer)
  cancel? : ∀ world timer, R world (world.cancel? timer)

theorem discarding_unwritten : Discarding (World.Unwritten (A := A)) where
  refl := .refl
  trans := .trans
  dismiss? := unwritten_dismiss?
  unsubscribe? := unwritten_unsubscribe?
  cancel? := unwritten_cancel?

end World

namespace Tree

section Discards

variable {R : World A → World A → Prop} (hR : World.Discarding R)
include hR

mutual

theorem stop_discards : (tree : Tree A) → tree.BuiltIn → (state : tree.State) → (world : World A) →
    R world (tree.stop state world).2
  | .action _ _, _, _, world => hR.refl world
  | .wait _ _, _, _, world => hR.refl world
  | .sequence children, h, state, world => by
    rw [stop]
    split
    · exact hR.refl world
    · exact stopAt_discards children h state.current state.children world
  | .selector children, h, state, world => by
    rw [stop]
    split
    · exact hR.refl world
    · exact stopAt_discards children h state.current state.children world
  | .condition guard policy child, h, state, world => by
    have hchild : R world (if state.status = .inactive then (state.child, world)
        else stopOption child state.child world).2 := by
      split
      · exact hR.refl world
      · exact stopOption_discards child h state.child world
    have hdismiss := hR.trans hchild (hR.dismiss? _ state.observer)
    rw [stop]
    dsimp only
    split
    · exact hR.trans hdismiss (hR.unsubscribe? _ _)
    · exact hdismiss
  | .service label interval callback child, h, state, world => by
    have hcancel := hR.cancel? world state.timer
    rw [stop]
    dsimp only
    split
    · exact hcancel
    · exact hR.trans hcancel (stopOption_discards child h state.child _)

theorem stopAt_discards : (trees : List (Tree A)) → BuiltInList trees → (i : Nat) →
    (states : StateList trees) → (world : World A) → R world (stopAt trees i states world).2
  | [], _, _, _, world => hR.refl world
  | tree :: _, h, 0, (state, _), world => stop_discards tree h.1 state world
  | _ :: trees, h, i + 1, (_, states), world => stopAt_discards trees h.2 i states world

theorem stopOption_discards : (tree : Option (Tree A)) → BuiltInOption tree →
    (state : StateOption tree) → (world : World A) → R world (stopOption tree state world).2
  | none, _, _, world => hR.refl world
  | some tree, h, state, world => stop_discards tree h state world

end

mutual

theorem release_discards : (tree : Tree A) → tree.BuiltIn → (state : tree.State) → (world : World A) →
    R world (tree.release state world).2
  | .action _ _, _, _, world => hR.refl world
  | .wait _ _, _, _, world => hR.refl world
  | .sequence children, h, state, world =>
    hR.trans (stop_discards hR (.sequence children) h state world) (releaseList_discards children h _ _)
  | .selector children, h, state, world =>
    hR.trans (stop_discards hR (.selector children) h state world) (releaseList_discards children h _ _)
  | .condition guard policy child, h, state, world =>
    hR.trans
      (hR.trans (stop_discards hR (.condition guard policy child) h state world)
        (releaseOption_discards child h _ _))
      (hR.unsubscribe? _ _)
  | .service label interval callback child, h, state, world =>
    hR.trans (stop_discards hR (.service label interval callback child) h state world)
      (releaseOption_discards child h _ _)

theorem releaseList_discards : (trees : List (Tree A)) → BuiltInList trees →
    (states : StateList trees) → (world : World A) → R world (releaseList trees states world).2
  | [], _, _, world => hR.refl world
  | tree :: trees, h, (state, states), world =>
    hR.trans (release_discards tree h.1 state world) (releaseList_discards trees h.2 states _)

theorem releaseOption_discards : (tree : Option (Tree A)) → BuiltInOption tree →
    (state : StateOption tree) → (world : World A) → R world (releaseOption tree state world).2
  | none, _, _, world => hR.refl world
  | some tree, h, state, world => release_discards tree h state world

end

end Discards

theorem stop_unwritten (tree : Tree A) (h : tree.BuiltIn) (state : tree.State) (world : World A) :
    world.Unwritten (tree.stop state world).2 :=
  stop_discards World.discarding_unwritten tree h state world

theorem release_unwritten (tree : Tree A) (h : tree.BuiltIn) (state : tree.State) (world : World A) :
    world.Unwritten (tree.release state world).2 :=
  release_discards World.discarding_unwritten tree h state world

variable {tree : Tree A} {guard : Guard} (policy : RestartPolicy)
variable {state : (Tree.condition guard policy (some tree)).State} {world : World A}

/-- The flag of a condition that begins is down until something is written to its key. -/
theorem begin_condition (world : World A) (guard : Guard) (observer : Option ObserverId) :
    ∃ id observed judged, world.observe observer guard.key = (id, observed) ∧
      observed.judge guard id = (guard.holds world.board, judged) ∧ world.Unwritten judged ∧
      judged.board.isPending id = false := by
  have hobserve := world.unwritten_observe observer guard.key
  have hdown : (world.observe observer guard.key).2.board.isPending
      (world.observe observer guard.key).1 = false := by
    cases observer <;> exact (Board.isPending_acknowledge _ _ _).trans
      (by simp [World.observe, World.subscribe, Board.subscribe])
  rcases hobserved : world.observe observer guard.key with ⟨id, observed⟩
  rw [hobserved] at hobserve hdown
  have hholds : guard.holds observed.board = guard.holds world.board :=
    guard.holds_congr (congrArg (·.get? guard.key) hobserve.values_eq)
  have hunwritten := hobserve.trans (observed.unwritten_judge guard id)
  have hjudge := observed.judge_eq guard id
  rw [hjudge] at hunwritten
  rw [hholds] at hjudge hunwritten
  exact ⟨id, observed, _, rfl, hjudge, hunwritten,
    (World.isPending_evaluate observed guard id).trans hdown⟩

theorem tick_condition_fails (hidle : state.status = .inactive) (hholds : guard.holds world.board = false) :
    ∃ ticked after, (Tree.condition guard policy (some tree)).tick state world = (.fail, ticked, after) ∧
      world.Unwritten after := by
  obtain ⟨id, observed, judged, hobserve, hjudge, hunwritten, -⟩ :=
    begin_condition world guard state.observer
  have hstart := start_condition guard policy (some tree) state world hidle hobserve hjudge
  rw [hholds, if_neg (by simp), if_neg (by simp)] at hstart
  exact ⟨_, judged, tick_condition guard policy (some tree) state world hstart Prod.mk.eta.symm, hunwritten⟩

theorem tick_condition_holds (hidle : state.status = .inactive) (hholds : guard.holds world.board = true)
    {begun : tree.State} (hbegin : ∀ world, tree.start state.child world = (begun, world)) :
    ∃ observer checked, world.Unwritten checked ∧
      (Tree.condition guard policy (some tree)).tick state world =
        ((tree.tick begun checked).1,
          ⟨(tree.tick begun checked).1.status, observer, (tree.tick begun checked).2.1⟩,
          (tree.tick begun checked).2.2) := by
  obtain ⟨id, observed, judged, hobserve, hjudge, hunwritten, hdown⟩ :=
    begin_condition world guard state.observer
  have hstart := start_condition guard policy (some tree) state world hidle hobserve hjudge
  rw [hholds, if_neg (by simp), if_pos rfl, startOption, hbegin] at hstart
  have hcheck : (if policy.abortsSelf then judged.stoppedHolding guard (some id) else (false, judged)) =
      (false, judged) := by
    rw [World.stoppedHolding, hdown]
    exact ite_self _
  exact ⟨some id, judged, hunwritten, tick_condition guard policy (some tree) state world hstart hcheck⟩

end Tree

end BehaviorTree
