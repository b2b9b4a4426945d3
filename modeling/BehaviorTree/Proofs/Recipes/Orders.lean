import BehaviorTree.Proofs.Lifecycle.Session
import BehaviorTree.Recipe.Trees

namespace BehaviorTree

inductive Order where
  | move (amount : Float32)
  | turn (amount : Float32)
  | fire (amount : Float32)

/-- A tank with the orders that it has been given. The latest one comes first. -/
structure Recorded (A : Type) where
  agent : A
  orders : List Order := []

variable {A : Type}

instance [Tank A] : Tank (Recorded A) where
  moveBy amount tank := ⟨Tank.moveBy amount tank.agent, .move amount :: tank.orders⟩
  turn amount tank := ⟨Tank.turn amount tank.agent, .turn amount :: tank.orders⟩
  fire amount tank := ⟨Tank.fire amount tank.agent, .fire amount :: tank.orders⟩
  target? tank := Tank.target? tank.agent

namespace World

/-- The agent takes no notice of what it is told. -/
def Silent (world : World A) : Prop := ∀ notice agent, world.react notice agent = agent

/-- Between the two worlds these orders were given, and no time has passed. -/
structure Issues (before after : World (Recorded A)) (orders : List Order) : Prop where
  orders_eq : after.agent.orders = orders ++ before.agent.orders
  now_eq : after.now = before.now
  react_eq : after.react = before.react

variable {world before middle after : World (Recorded A)} {orders more : List Order}

namespace Issues

theorem refl (world : World (Recorded A)) : world.Issues world [] := ⟨rfl, rfl, rfl⟩

theorem trans (h : before.Issues middle orders) (k : middle.Issues after more) :
    before.Issues after (more ++ orders) := by
  refine ⟨?_, k.now_eq.trans h.now_eq, k.react_eq.trans h.react_eq⟩
  rw [k.orders_eq, h.orders_eq, List.append_assoc]

theorem after_none (h : before.Issues middle []) (k : middle.Issues after orders) :
    before.Issues after orders := by
  have hboth := h.trans k
  rwa [List.append_nil] at hboth

theorem then_none (h : before.Issues middle orders) (k : middle.Issues after []) :
    before.Issues after orders := h.trans k

theorem silent (h : before.Issues after orders) (hsilent : before.Silent) : after.Silent := by
  intro notice agent
  rw [h.react_eq]
  exact hsilent notice agent

end Issues

theorem issues_withReport (world : World (Recorded A)) (board : Board) (report : Option KeyWarning) :
    world.Issues (world.withReport board report) [] := by
  cases report <;> exact ⟨rfl, rfl, rfl⟩

theorem issues_getNumber (world : World (Recorded A)) (key : String) :
    world.Issues (world.getNumber key).2 [] := issues_withReport _ _ _

theorem issues_getBool (world : World (Recorded A)) (key : String) :
    world.Issues (world.getBool key).2 [] := issues_withReport _ _ _

theorem issues_evaluate (world : World (Recorded A)) (guard : Guard) :
    world.Issues (world.evaluate guard).2 [] := issues_withReport _ _ _

theorem issues_record (world : World (Recorded A)) (event : Event) :
    world.Issues (world.record event) [] := ⟨rfl, rfl, rfl⟩

theorem issues_judge (world : World (Recorded A)) (guard : Guard) (id : ObserverId) :
    world.Issues (world.judge guard id).2 [] :=
  (issues_evaluate world guard).then_none (issues_record _ _)

theorem issues_observe (world : World (Recorded A)) (observer : Option ObserverId) (key : String) :
    world.Issues (world.observe observer key).2 [] := by
  cases observer <;> exact ⟨rfl, rfl, rfl⟩

theorem issues_stoppedHolding (world : World (Recorded A)) (guard : Guard)
    (observer : Option ObserverId) : world.Issues (world.stoppedHolding guard observer).2 [] := by
  cases observer with
  | none => exact .refl world
  | some id =>
    have hacknowledge : world.Issues (world.acknowledge id) [] := ⟨rfl, rfl, rfl⟩
    unfold stoppedHolding breaks
    dsimp only
    split
    · split
      · exact hacknowledge.then_none (issues_evaluate _ guard)
      · exact (hacknowledge.then_none (issues_evaluate _ guard)).then_none (issues_record _ _)
    · exact .refl world

theorem issues_dismiss? (world : World (Recorded A)) (observer : Option ObserverId) :
    world.Issues (world.dismiss? observer) [] := by
  cases observer with
  | none => exact .refl world
  | some id =>
    unfold dismiss? dismiss
    dsimp only
    split <;> exact ⟨rfl, rfl, rfl⟩

theorem issues_unsubscribe? (world : World (Recorded A)) (observer : Option ObserverId) :
    world.Issues (world.unsubscribe? observer) [] := by
  cases observer <;> exact ⟨rfl, rfl, rfl⟩

theorem issues_cancel? (world : World (Recorded A)) (timer : Option TimerId) :
    world.Issues (world.cancel? timer) [] := by
  cases timer <;> exact ⟨rfl, rfl, rfl⟩

theorem issues_addTimer (world : World (Recorded A)) (interval : Duration) :
    world.Issues (world.addTimer interval).2 [] := ⟨rfl, rfl, rfl⟩

theorem issues_withNotices (hsilent : world.Silent) (board : Board) (notices : List Notice) :
    world.Issues (world.withNotices board notices) [] := by
  have hagent : notices.foldl (fun agent notice => world.react notice agent) world.agent =
      world.agent := by
    induction notices with
    | nil => rfl
    | cons notice notices ih => rw [List.foldl_cons, hsilent, ih]
  exact ⟨congrArg Recorded.orders hagent, rfl, rfl⟩

theorem issues_set (hsilent : world.Silent) (key : String) (value : Value) :
    world.Issues (world.set key value).2 [] := issues_withNotices hsilent _ _

theorem issues_remove (hsilent : world.Silent) (key : String) :
    world.Issues (world.remove key).2 [] := issues_withNotices hsilent _ _

theorem issues_reset (world : World (Recorded A)) (values : Values) :
    world.Issues (world.reset values) [] := by
  unfold reset
  dsimp only
  split <;> exact ⟨rfl, rfl, rfl⟩

end World

namespace Routine

/-- The routine does nothing to the agent. -/
def Passive : Routine A → Prop
  | .done => True
  | .act _ _ => False
  | .look next => ∀ agent, (next agent).Passive
  | .get _ next => ∀ value, (next value).Passive
  | .getNumber _ next => ∀ x, (next x).Passive
  | .getBool _ next => ∀ b, (next b).Passive
  | .set _ _ next => ∀ changed, (next changed).Passive
  | .remove _ next => ∀ old, (next old).Passive

theorem Passive.issues {routine : Routine (Recorded A)} (h : routine.Passive)
    {world : World (Recorded A)} (hsilent : world.Silent) : world.Issues (routine.run world) [] := by
  induction routine generalizing world with
  | done => exact .refl world
  | act effect next ih => exact h.elim
  | look next ih => exact ih _ (h _) hsilent
  | get key next ih => exact ih _ (h _) hsilent
  | getNumber key next ih =>
    have hread := World.issues_getNumber world key
    exact hread.after_none (ih _ (h _) (hread.silent hsilent))
  | getBool key next ih =>
    have hread := World.issues_getBool world key
    exact hread.after_none (ih _ (h _) (hread.silent hsilent))
  | set key value next ih =>
    have hset := World.issues_set hsilent key value
    exact hset.after_none (ih _ (h _) (hset.silent hsilent))
  | remove key next ih =>
    have hremove := World.issues_remove hsilent key
    exact hremove.after_none (ih _ (h _) (hremove.silent hsilent))

end Routine

theorem Perception.refresh_passive [Tank A] : (Perception.refresh (A := A)).Passive := by
  intro agent
  change (((Tank.target? agent).map Perception.observe).getD .done).Passive
  cases Tank.target? agent with
  | none => exact trivial
  | some target => exact fun _ _ _ _ => trivial

theorem World.issues_refresh {world : World (Recorded A)} (hsilent : world.Silent) (timer : TimerId)
    {callback : Routine (Recorded A)} (h : callback.Passive) :
    world.Issues (world.refresh timer callback) [] := by
  have hrecord := World.issues_record world (.refreshed timer world.now)
  exact hrecord.after_none (h.issues (hrecord.silent hsilent))

namespace Tree

mutual

theorem stop_issues : (tree : Tree (Recorded A)) → (state : tree.State) →
    (world : World (Recorded A)) → tree.BuiltIn → world.Issues (tree.stop state world).2 []
  | .action _ _, _, world, _ => .refl world
  | .wait _ _, _, world, _ => .refl world
  | .sequence children, state, world, h => by
    rw [BuiltIn] at h
    rw [stop]
    split
    · exact .refl world
    · exact stopAt_issues children state.current state.children world h
  | .selector children, state, world, h => by
    rw [BuiltIn] at h
    rw [stop]
    split
    · exact .refl world
    · exact stopAt_issues children state.current state.children world h
  | .condition guard policy child, state, world, h => by
    rw [BuiltIn] at h
    have hchild : world.Issues (if state.status = .inactive then (state.child, world)
        else stopOption child state.child world).2 [] := by
      split
      · exact .refl world
      · exact stopOption_issues child state.child world h
    have hdismiss := hchild.then_none (World.issues_dismiss? _ state.observer)
    rw [stop]
    dsimp only
    split
    · exact hdismiss.then_none (World.issues_unsubscribe? _ _)
    · exact hdismiss
  | .service label interval callback child, state, world, h => by
    rw [BuiltIn] at h
    have hcancel := World.issues_cancel? world state.timer
    rw [stop]
    dsimp only
    split
    · exact hcancel
    · exact hcancel.then_none (stopOption_issues child state.child _ h)

theorem stopAt_issues : (trees : List (Tree (Recorded A))) → (i : Nat) →
    (states : StateList trees) → (world : World (Recorded A)) → BuiltInList trees →
    world.Issues (stopAt trees i states world).2 []
  | [], _, _, world, _ => .refl world
  | tree :: _, 0, (state, _), world, h => by
    rw [BuiltInList] at h
    exact stop_issues tree state world h.1
  | _ :: trees, i + 1, (_, states), world, h => by
    rw [BuiltInList] at h
    exact stopAt_issues trees i states world h.2

theorem stopOption_issues : (tree : Option (Tree (Recorded A))) → (state : StateOption tree) →
    (world : World (Recorded A)) → BuiltInOption tree →
    world.Issues (stopOption tree state world).2 []
  | none, _, world, _ => .refl world
  | some tree, state, world, h => by
    rw [BuiltInOption] at h
    exact stop_issues tree state world h

end

mutual

theorem release_issues : (tree : Tree (Recorded A)) → (state : tree.State) →
    (world : World (Recorded A)) → tree.BuiltIn → world.Issues (tree.release state world).2 []
  | .action _ _, _, world, _ => .refl world
  | .wait _ _, _, world, _ => .refl world
  | .sequence children, state, world, h => by
    have hstop := stop_issues (.sequence children) state world h
    rw [BuiltIn] at h
    exact hstop.then_none (releaseList_issues children _ _ h)
  | .selector children, state, world, h => by
    have hstop := stop_issues (.selector children) state world h
    rw [BuiltIn] at h
    exact hstop.then_none (releaseList_issues children _ _ h)
  | .condition guard policy child, state, world, h => by
    have hstop := stop_issues (.condition guard policy child) state world h
    rw [BuiltIn] at h
    exact (hstop.then_none (releaseOption_issues child _ _ h)).then_none
      (World.issues_unsubscribe? _ _)
  | .service label interval callback child, state, world, h => by
    have hstop := stop_issues (.service label interval callback child) state world h
    rw [BuiltIn] at h
    exact hstop.then_none (releaseOption_issues child _ _ h)

theorem releaseList_issues : (trees : List (Tree (Recorded A))) → (states : StateList trees) →
    (world : World (Recorded A)) → BuiltInList trees →
    world.Issues (releaseList trees states world).2 []
  | [], _, world, _ => .refl world
  | tree :: trees, (state, states), world, h => by
    rw [BuiltInList] at h
    exact (release_issues tree state world h.1).then_none (releaseList_issues trees states _ h.2)

theorem releaseOption_issues : (tree : Option (Tree (Recorded A))) → (state : StateOption tree) →
    (world : World (Recorded A)) → BuiltInOption tree →
    world.Issues (releaseOption tree state world).2 []
  | none, _, world, _ => .refl world
  | some tree, state, world, h => by
    rw [BuiltInOption] at h
    exact release_issues tree state world h

end

mutual

def Passive : Tree A → Prop
  | .action _ _ => True
  | .wait _ _ => True
  | .leaf _ => False
  | .sequence children => PassiveList children
  | .selector children => PassiveList children
  | .condition _ _ child => PassiveOption child
  | .service _ _ callback child => callback.Passive ∧ PassiveOption child

def PassiveList : List (Tree A) → Prop
  | [] => True
  | tree :: trees => tree.Passive ∧ PassiveList trees

def PassiveOption : Option (Tree A) → Prop
  | none => True
  | some tree => tree.Passive

end

mutual

theorem fire_issues : (tree : Tree (Recorded A)) → (state : tree.State) → (timer : TimerId) →
    (world : World (Recorded A)) → tree.Passive → world.Silent →
    world.Issues (tree.fire state timer world).2 []
  | .action _ _, _, _, world, _, _ => .refl world
  | .wait _ _, _, _, world, _, _ => .refl world
  | .sequence children, state, timer, world, h, hsilent => by
    rw [Passive] at h
    rw [fire]
    split
    · exact fireAt_issues children state.current state.children timer world h hsilent
    · exact .refl world
  | .selector children, state, timer, world, h, hsilent => by
    rw [Passive] at h
    rw [fire]
    split
    · exact fireAt_issues children state.current state.children timer world h hsilent
    · exact .refl world
  | .condition _ _ child, state, timer, world, h, hsilent => by
    rw [Passive] at h
    rw [fire]
    split
    · exact .refl world
    · exact fireOption_issues child state.child timer world h hsilent
  | .service _ _ callback child, state, timer, world, h, hsilent => by
    rw [Passive] at h
    rw [fire]
    split
    · exact .refl world
    · split
      · exact World.issues_refresh hsilent timer h.1
      · exact fireOption_issues child state.child timer world h.2 hsilent

theorem fireAt_issues : (trees : List (Tree (Recorded A))) → (i : Nat) →
    (states : StateList trees) → (timer : TimerId) → (world : World (Recorded A)) →
    PassiveList trees → world.Silent → world.Issues (fireAt trees i states timer world).2 []
  | [], _, _, _, world, _, _ => .refl world
  | tree :: _, 0, (state, _), timer, world, h, hsilent => by
    rw [PassiveList] at h
    exact fire_issues tree state timer world h.1 hsilent
  | _ :: trees, i + 1, (_, states), timer, world, h, hsilent => by
    rw [PassiveList] at h
    exact fireAt_issues trees i states timer world h.2 hsilent

theorem fireOption_issues : (tree : Option (Tree (Recorded A))) → (state : StateOption tree) →
    (timer : TimerId) → (world : World (Recorded A)) → PassiveOption tree → world.Silent →
    world.Issues (fireOption tree state timer world).2 []
  | none, _, _, world, _, _ => .refl world
  | some tree, state, timer, world, h, hsilent => by
    rw [PassiveOption] at h
    exact fire_issues tree state timer world h hsilent

end

end Tree

namespace World

variable {fire : TimerId → World (Recorded A) → Bool × World (Recorded A)}

theorem issues_dispatch {world : World (Recorded A)} {id : TimerId}
    (hfire : world.Issues (fire id world).2 []) : world.Issues (world.dispatch fire id) [] := by
  unfold dispatch
  dsimp only
  split
  · exact hfire
  · exact (hfire.then_none (issues_record _ _)).then_none ⟨rfl, rfl, rfl⟩

theorem advance_orders (hfire : ∀ id (world : World (Recorded A)), world.Silent →
      world.Issues (fire id world).2 []) {world : World (Recorded A)} (hsilent : world.Silent)
    (dt : Duration) : (world.advance fire dt).agent.orders = world.agent.orders := by
  have hdue (limit : Duration) (fuel : Nat) {world : World (Recorded A)} (hsilent : world.Silent) :
      (fireDue fire limit fuel world).agent.orders = world.agent.orders := by
    induction fuel generalizing world with
    | zero => rfl
    | succ fuel ih =>
      unfold fireDue
      split
      · rfl
      · next id clock hpop =>
        have hdispatch := issues_dispatch (hfire id { world with clock } hsilent)
        dsimp only
        split
        · rfl
        · exact (ih (hdispatch.silent hsilent)).trans hdispatch.orders_eq
  unfold advance
  dsimp only
  split
  · rfl
  · exact hdue _ _ hsilent

end World

end BehaviorTree
