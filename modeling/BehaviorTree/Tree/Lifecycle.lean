import BehaviorTree.Tree.Basic

/-!
`start` acts on an inactive node and leaves any other as it is. `stop` makes a node inactive but lets
a condition that can take over keep its observer. `release` stops a node and drops what the whole tree
below it holds.
-/

namespace BehaviorTree

variable {A : Type}

namespace World

/-- Keeps an observer or subscribes a new one; the flag of either is down. -/
def observe (world : World A) (observer : Option ObserverId) (key : String) : ObserverId × World A :=
  let (id, world) := match observer with
    | some id => (id, world)
    | none => world.subscribe key
  (id, world.acknowledge id)

def dismiss? (world : World A) : Option ObserverId → World A
  | none => world
  | some id => world.dismiss id

def unsubscribe? (world : World A) : Option ObserverId → World A
  | none => world
  | some id => (world.unsubscribe id).2

def cancel? (world : World A) : Option TimerId → World A
  | none => world
  | some id => (world.cancel id).2

def refresh (world : World A) (timer : TimerId) (callback : Routine A) : World A :=
  callback.run (world.record (.refreshed timer world.now))

end World

/-- How long a wait takes: `duration`, or with a variance anything between `duration - variance`, but
not less than zero, and `duration + variance`. A varied time is drawn and added up in seconds, as
numbers of limited precision; there is none where the sum is too long. -/
def Random.waitingTime (random : Random) (duration variance : Duration) : Option Duration × Random :=
  if variance = 0 then (some duration, random)
  else
    let spread := variance.toFloatSeconds
    let (offset, random) := random.float (-spread) spread
    let seconds := duration.toFloatSeconds + offset
    match Duration.ofFloatSeconds (if seconds < 0 then 0 else seconds) with
    | .exact target => (some target, random)
    | _ => (none, random)

def CompositeState.begin {S : Type} (state : CompositeState S) : CompositeState S :=
  if state.status = .inactive then { state with current := 0, status := .running } else state

namespace Tree

mutual

def start : (tree : Tree A) → tree.State → World A → tree.State × World A
  | .action _ _, state, world =>
    (if state.status = .inactive then { state with status := .running } else state, world)
  | .wait duration variance, state, world =>
    if state.status ≠ .inactive then (state, world)
    else
      match state.random.waitingTime duration variance with
      | (some target, random) => ({ status := .running, startedAt := world.now, target, random }, world)
      | (none, random) => ({ state with random }, world.overflow)
  | .leaf node, state, world => node.start state world
  | .sequence _, state, world => (state.begin, world)
  | .selector _, state, world => (state.begin, world)
  | .condition guard _ child, state, world =>
    if state.status ≠ .inactive then (state, world)
    else
      let (id, world) := world.observe state.observer guard.key
      let state := { state with observer := some id }
      if child.isNone then ({ state with status := .failed }, world.record (.dismissed id))
      else
        let (holds, world) := world.judge guard id
        if holds then
          let (child, world) := startOption child state.child world
          ({ state with status := .running, child }, world)
        else ({ state with status := .failed }, world)
  | .service _ interval callback child, state, world =>
    if state.status ≠ .inactive then (state, world)
    else
      let world := world.refresh ⟨world.clock.nextTimer⟩ callback
      let (timer, world) := world.addTimer interval
      let (child, world) := startOption child state.child world
      ({ status := .running, timer := some timer, child }, world)

def startOption : (tree : Option (Tree A)) → StateOption tree → World A →
    StateOption tree × World A
  | none, state, world => (state, world)
  | some tree, state, world => tree.start state world

end

mutual

def stop : (tree : Tree A) → tree.State → World A → tree.State × World A
  | .action _ _, state, world => ({ state with status := .inactive }, world)
  | .wait _ _, state, world => ({ state with status := .inactive }, world)
  | .leaf node, state, world => node.stop state world
  | .sequence children, state, world =>
    if state.status = .inactive then (state, world)
    else
      let (children, world) := stopAt children state.current state.children world
      ({ state with status := .inactive, children }, world)
  | .selector children, state, world =>
    if state.status = .inactive then (state, world)
    else
      let (children, world) := stopAt children state.current state.children world
      ({ state with status := .inactive, children }, world)
  | .condition _ policy child, state, world =>
    let (child, world) :=
      if state.status = .inactive then (state.child, world)
      else stopOption child state.child world
    let world := world.dismiss? state.observer
    let state := { state with status := .inactive, child }
    if policy.preemption?.isNone then
      ({ state with observer := none }, world.unsubscribe? state.observer)
    else (state, world)
  | .service _ _ _ child, state, world =>
    let world := world.cancel? state.timer
    if state.status = .inactive then ({ state with timer := none }, world)
    else
      let (child, world) := stopOption child state.child world
      ({ status := .inactive, timer := none, child }, world)

def stopAt : (trees : List (Tree A)) → Nat → StateList trees → World A → StateList trees × World A
  | [], _, states, world => (states, world)
  | tree :: _, 0, (state, states), world =>
    let (state, world) := tree.stop state world
    ((state, states), world)
  | _ :: trees, i + 1, (state, states), world =>
    let (states, world) := stopAt trees i states world
    ((state, states), world)

def stopOption : (tree : Option (Tree A)) → StateOption tree → World A →
    StateOption tree × World A
  | none, state, world => (state, world)
  | some tree, state, world => tree.stop state world

end

mutual

def release : (tree : Tree A) → tree.State → World A → tree.State × World A
  | .action label command, state, world => (Tree.action label command).stop state world
  | .wait duration variance, state, world => (Tree.wait duration variance).stop state world
  | .leaf node, state, world => node.stop state world
  | .sequence children, state, world =>
    let (state, world) := (Tree.sequence children).stop state world
    let (children, world) := releaseList children state.children world
    ({ state with children }, world)
  | .selector children, state, world =>
    let (state, world) := (Tree.selector children).stop state world
    let (children, world) := releaseList children state.children world
    ({ state with children }, world)
  | .condition guard policy child, state, world =>
    let (state, world) := (Tree.condition guard policy child).stop state world
    let (child, world) := releaseOption child state.child world
    ({ state with child, observer := none }, world.unsubscribe? state.observer)
  | .service label interval callback child, state, world =>
    let (state, world) := (Tree.service label interval callback child).stop state world
    let (child, world) := releaseOption child state.child world
    ({ state with child }, world)

def releaseList : (trees : List (Tree A)) → StateList trees → World A → StateList trees × World A
  | [], states, world => (states, world)
  | tree :: trees, (state, states), world =>
    let (state, world) := tree.release state world
    let (states, world) := releaseList trees states world
    ((state, states), world)

def releaseOption : (tree : Option (Tree A)) → StateOption tree → World A →
    StateOption tree × World A
  | none, state, world => (state, world)
  | some tree, state, world => tree.release state world

end

end Tree

end BehaviorTree
