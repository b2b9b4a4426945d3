import BehaviorTree.Tree.Lifecycle

/-!
A node that has ended repeats its outcome until it is stopped. A composite stops each child right after
the tick in which the child ends, and releases all of them when it ends itself.
-/

namespace BehaviorTree

variable {A : Type}

namespace Command

def run : Command A → Random → World A → Random × World A
  | .always effect, random, world => (random, world.mapAgent effect)
  | .drawn low high effect, random, world =>
    let (amount, random) := random.float32 low high
    (random, world.mapAgent (effect amount))

end Command

namespace World

/-- Whether the guard does not hold, so that the condition with this observer gives up. -/
def breaks (world : World A) (guard : Guard) (observer : ObserverId) : Bool × World A :=
  let (holds, world) := world.evaluate guard
  if holds then (false, world) else (true, world.record (.judged observer false))

/-- Whether a change of the value was noticed after which the guard does not hold. -/
def stoppedHolding (world : World A) (guard : Guard) : Option ObserverId → Bool × World A
  | none => (false, world)
  | some id =>
    if world.board.isPending id then (world.acknowledge id).breaks guard id else (false, world)

/-- Whether a change of the value was noticed after which the guard holds. -/
def startedHolding (world : World A) (guard : Guard) : Option ObserverId → Bool × World A
  | none => (false, world)
  | some id =>
    if world.board.isPending id then (world.acknowledge id).judge guard id else (false, world)

end World

namespace Tree

mutual

/-- Whether an inactive node asks to take over from a sibling of lower priority. -/
def preempts : (tree : Tree A) → tree.State → World A → Option Preemption × World A
  | .condition guard policy _, state, world =>
    match policy.preemption? with
    | none => (none, world)
    | some preemption =>
      if state.status ≠ .inactive then (none, world)
      else
        let (holds, world) := world.startedHolding guard state.observer
        (if holds then some preemption else none, world)
  | .service _ _ _ child, state, world => preemptsOption child state.child world
  | .action _ _, _, world => (none, world)
  | .wait _ _, _, world => (none, world)
  | .leaf _, _, world => (none, world)
  | .sequence _, _, world => (none, world)
  | .selector _, _, world => (none, world)

def preemptsOption : (tree : Option (Tree A)) → StateOption tree → World A →
    Option Preemption × World A
  | none, _, world => (none, world)
  | some tree, state, world => tree.preempts state world

end

/-- Asks the children before the index `limit` in order, up to the first that takes over. -/
def firstPreempting : (trees : List (Tree A)) → (limit : Nat) → StateList trees → World A →
    Option (Nat × Preemption) × World A
  | [], _, _, world => (none, world)
  | _ :: _, 0, _, world => (none, world)
  | tree :: trees, limit + 1, (state, states), world =>
    match tree.preempts state world with
    | (some preemption, world) => (some (0, preemption), world)
    | (none, world) =>
      let (found, world) := firstPreempting trees limit states world
      (found.map fun (i, preemption) => (i + 1, preemption), world)

def settle (trees : List (Tree A)) (outcome : Outcome) (current : Nat) (states : StateList trees)
    (world : World A) : Outcome × CompositeState (StateList trees) × World A :=
  let (states, world) :=
    if outcome = .running then (states, world) else releaseList trees states world
  (outcome, ⟨outcome.status, current, states⟩, world)

mutual

def tick : (tree : Tree A) → tree.State → World A → Outcome × tree.State × World A
  | .action label command, state, world =>
    if state.status = .succeeded then (.success, state, world)
    else
      let (random, world) := command.run state.random (world.record (.acted label))
      (.success, ⟨.succeeded, random⟩, world)
  | .wait duration variance, state, world =>
    let (state, world) := (Tree.wait duration variance).start state world
    if state.status = .succeeded then (.success, state, world)
    else if world.now - state.startedAt < state.target then (.running, state, world)
    else (.success, { state with status := .succeeded }, world)
  | .leaf node, state, world => node.tick state world
  | .sequence children, state, world =>
    let state := state.begin
    match state.status.outcome? with
    | some outcome => (outcome, state, world)
    | none =>
      let (outcome, current, states, world) :=
        tickFrom .success children state.current state.children world
      settle children outcome current states world
  | .selector children, state, world =>
    let state := state.begin
    match state.status.outcome? with
    | some outcome => (outcome, state, world)
    | none =>
      match firstPreempting children state.current state.children world with
      | (none, world) =>
        let (outcome, current, states, world) :=
          tickFrom .fail children state.current state.children world
        settle children outcome current states world
      | (some (winner, preemption), world) =>
        let world := world.record (.preempted winner state.current preemption)
        let (states, world) := stopAt children state.current state.children world
        match preemption with
        | .immediate =>
          let (outcome, current, states, world) := tickFrom .fail children winner states world
          settle children outcome current states world
        | .deferred => settle children .fail state.current states world
  | .condition guard policy child, state, world =>
    let (state, world) := (Tree.condition guard policy child).start state world
    match state.status.outcome? with
    | some outcome => (outcome, state, world)
    | none =>
      let (broken, world) :=
        if policy.abortsSelf then world.stoppedHolding guard state.observer else (false, world)
      if broken then
        let (child, world) := stopOption child state.child world
        (.fail, { state with status := .failed, child }, world)
      else
        let (outcome, child, world) := tickOption child state.child world
        (outcome, { state with status := outcome.status, child }, world)
  | .service label interval callback child, state, world =>
    let (state, world) := (Tree.service label interval callback child).start state world
    match state.status.outcome? with
    | some outcome => (outcome, state, world)
    | none =>
      let (outcome, child, world) := tickOption child state.child world
      (outcome, { state with status := outcome.status, child }, world)

/-- Ticks the children from an index on, as long as they come to `goOn`, and stops each that ends. The
second answer is the index of the child whose turn it is, or the number of children. -/
def tickFrom (goOn : Outcome) : (trees : List (Tree A)) → Nat → StateList trees → World A →
    Outcome × Nat × StateList trees × World A
  | [], _, states, world => (goOn, 0, states, world)
  | tree :: trees, 0, (state, states), world =>
    let (outcome, state, world) := tree.tick state world
    if outcome = .running then (.running, 0, (state, states), world)
    else
      let (state, world) := tree.stop state world
      if outcome = goOn then
        let (outcome, current, states, world) := tickFrom goOn trees 0 states world
        (outcome, current + 1, (state, states), world)
      else (outcome, 0, (state, states), world)
  | _ :: trees, i + 1, (state, states), world =>
    let (outcome, current, states, world) := tickFrom goOn trees i states world
    (outcome, current + 1, (state, states), world)

/-- A missing child fails. -/
def tickOption : (tree : Option (Tree A)) → StateOption tree → World A →
    Outcome × StateOption tree × World A
  | none, state, world => (.fail, state, world)
  | some tree, state, world => tree.tick state world

end

mutual

/-- Offers a fired timer to the active services of a tree. The first answer is whether one of them
holds it. -/
def fire : (tree : Tree A) → tree.State → TimerId → World A → Bool × World A
  | .action _ _, _, _, world => (false, world)
  | .wait _ _, _, _, world => (false, world)
  | .leaf node, state, timer, world => node.fire state timer world
  | .sequence children, state, timer, world =>
    if state.status = .running then fireAt children state.current state.children timer world
    else (false, world)
  | .selector children, state, timer, world =>
    if state.status = .running then fireAt children state.current state.children timer world
    else (false, world)
  | .condition _ _ child, state, timer, world =>
    if state.status = .inactive then (false, world)
    else fireOption child state.child timer world
  | .service _ _ callback child, state, timer, world =>
    if state.status = .inactive then (false, world)
    else if state.timer = some timer then (true, world.refresh timer callback)
    else fireOption child state.child timer world

def fireAt : (trees : List (Tree A)) → Nat → StateList trees → TimerId → World A → Bool × World A
  | [], _, _, _, world => (false, world)
  | tree :: _, 0, (state, _), timer, world => tree.fire state timer world
  | _ :: trees, i + 1, (_, states), timer, world => fireAt trees i states timer world

def fireOption : (tree : Option (Tree A)) → StateOption tree → TimerId → World A → Bool × World A
  | none, _, _, world => (false, world)
  | some tree, state, timer, world => tree.fire state timer world

end

end Tree

end BehaviorTree
