import BehaviorTree.Proofs.Lifecycle.Visits

namespace BehaviorTree

/-- What is asked of the value at a key. -/
inductive Query where
  | number (key : String)
  | bool (key : String)
  | holds (guard : Guard)

namespace Query

def key : Query → String
  | .number key => key
  | .bool key => key
  | .holds guard => guard.key

def expected : Query → Kind
  | .number _ => .number
  | .bool _ => .bool
  | .holds guard => guard.threshold.kind

/-- Whether what stands at the key gives an answer, so that none is made up. -/
def isAnswered (query : Query) (found : Option Value) : Bool :=
  match query with
  | .number _ => (found.bind Value.number?).isSome
  | .bool _ => (found.bind Value.bool?).isSome
  | .holds guard =>
    guard.operator = .isSet || guard.operator = .isNotSet ||
      (found.bind (guard.operator.compare? · guard.threshold)).isSome

end Query

structure Read where
  query : Query
  /-- What stood at the key. -/
  found : Option Value

namespace Read

def key (read : Read) : String := read.query.key

/-- The read falls back on a default. -/
def InVain (read : Read) : Prop := read.query.isAnswered read.found = false

instance (read : Read) : Decidable read.InVain := inferInstanceAs (Decidable (_ = _))

/-- What there is to say of a read in vain. -/
def warning (read : Read) : KeyWarning :=
  match read.found with
  | none => .neverWritten read.key read.query.expected
  | some value => .wrongKind read.key read.query.expected value.kind

end Read

variable {A : Type}

namespace World

def read (world : World A) (query : Query) : Read := ⟨query, world.get? query.key⟩

/-- A condition that was told of a change looks at its guard. -/
def noticeReads (world : World A) (guard : Guard) : Option ObserverId → List Read
  | none => []
  | some id => if world.board.isPending id then [world.read (.holds guard)] else []

end World

def Routine.reads : Routine A → World A → List Read
  | .done, _ => []
  | .act effect next, world => next.reads (world.mapAgent effect)
  | .look next, world => (next world.agent).reads world
  | .get key next, world => (next (world.get? key)).reads world
  | .getNumber key next, world =>
    let (x, after) := world.getNumber key
    world.read (.number key) :: (next x).reads after
  | .getBool key next, world =>
    let (b, after) := world.getBool key
    world.read (.bool key) :: (next b).reads after
  | .set key value next, world =>
    let (changed, after) := world.set key value
    (next changed).reads after
  | .remove key next, world =>
    let (old, after) := world.remove key
    (next old).reads after

def World.refreshReads (world : World A) (timer : TimerId) (callback : Routine A) : List Read :=
  callback.reads (world.record (.refreshed timer world.now))

namespace Tree

mutual

def startReads : (tree : Tree A) → tree.State → World A → List Read
  | .condition guard _ child, state, world =>
    if state.status ≠ .inactive then []
    else
      let (id, world) := world.observe state.observer guard.key
      if child.isNone then []
      else
        let (holds, judged) := world.judge guard id
        world.read (.holds guard) :: if holds then startOptionReads child state.child judged else []
  | .service _ interval callback child, state, world =>
    if state.status ≠ .inactive then []
    else
      let timer : TimerId := ⟨world.clock.nextTimer⟩
      let (_, added) := (world.refresh timer callback).addTimer interval
      world.refreshReads timer callback ++ startOptionReads child state.child added
  | .action _ _, _, _ => []
  | .wait _ _, _, _ => []
  | .leaf _, _, _ => []
  | .sequence _, _, _ => []
  | .selector _, _, _ => []

def startOptionReads : (tree : Option (Tree A)) → StateOption tree → World A → List Read
  | none, _, _ => []
  | some tree, state, world => tree.startReads state world

end

mutual

def preemptsReads : (tree : Tree A) → tree.State → World A → List Read
  | .condition guard policy _, state, world =>
    match policy.preemption? with
    | none => []
    | some _ => if state.status ≠ .inactive then [] else world.noticeReads guard state.observer
  | .service _ _ _ child, state, world => preemptsOptionReads child state.child world
  | .action _ _, _, _ => []
  | .wait _ _, _, _ => []
  | .leaf _, _, _ => []
  | .sequence _, _, _ => []
  | .selector _, _, _ => []

def preemptsOptionReads : (tree : Option (Tree A)) → StateOption tree → World A → List Read
  | none, _, _ => []
  | some tree, state, world => tree.preemptsReads state world

end

def firstPreemptingReads : (trees : List (Tree A)) → (limit : Nat) → StateList trees → World A →
    List Read
  | [], _, _, _ => []
  | _ :: _, 0, _, _ => []
  | tree :: trees, limit + 1, (state, states), world =>
    tree.preemptsReads state world ++
      match tree.preempts state world with
      | (some _, _) => []
      | (none, asked) => firstPreemptingReads trees limit states asked

/-- What a node reads on its own when it is ticked, before the nodes below it are. -/
def ownReads : (tree : Tree A) → tree.State → World A → List Read
  | .selector children, state, world =>
    match state.begin.status.outcome? with
    | some _ => []
    | none => firstPreemptingReads children state.begin.current state.begin.children world
  | .condition guard policy child, state, world =>
    let (started, begun) := (Tree.condition guard policy child).start state world
    (Tree.condition guard policy child).startReads state world ++
      match started.status.outcome? with
      | some _ => []
      | none => if policy.abortsSelf then begun.noticeReads guard started.observer else []
  | .service label interval callback child, state, world =>
    (Tree.service label interval callback child).startReads state world
  | .action _ _, _, _ => []
  | .wait _ _, _, _ => []
  | .leaf _, _, _ => []
  | .sequence _, _, _ => []

mutual

def fireReads : (tree : Tree A) → tree.State → TimerId → World A → List Read
  | .sequence children, state, timer, world =>
    if state.status = .running then fireAtReads children state.current state.children timer world else []
  | .selector children, state, timer, world =>
    if state.status = .running then fireAtReads children state.current state.children timer world else []
  | .condition _ _ child, state, timer, world =>
    if state.status = .inactive then [] else fireOptionReads child state.child timer world
  | .service _ _ callback child, state, timer, world =>
    if state.status = .inactive then []
    else if state.timer = some timer then world.refreshReads timer callback
    else fireOptionReads child state.child timer world
  | .action _ _, _, _, _ => []
  | .wait _ _, _, _, _ => []
  | .leaf _, _, _, _ => []

def fireAtReads : (trees : List (Tree A)) → Nat → StateList trees → TimerId → World A → List Read
  | [], _, _, _, _ => []
  | tree :: _, 0, (state, _), timer, world => tree.fireReads state timer world
  | _ :: trees, i + 1, (_, states), timer, world => fireAtReads trees i states timer world

def fireOptionReads : (tree : Option (Tree A)) → StateOption tree → TimerId → World A → List Read
  | none, _, _, _ => []
  | some tree, state, timer, world => tree.fireReads state timer world

end

end Tree

def Visit.reads (visit : Visit A) : List Read := visit.node.tree.ownReads visit.node.state visit.world

namespace Subtree

def fireDueReads (node : Subtree A) (limit : Duration) : (fuel : Nat) → World A → List Read
  | 0, _ => []
  | fuel + 1, world =>
    match world.clock.popDue? limit with
    | none => []
    | some (id, clock) =>
      let world := { world with clock }
      if clock.overflowed then []
      else
        node.tree.fireReads node.state id world ++
          node.fireDueReads limit fuel (world.dispatch node.fire id)

def advanceReads (node : Subtree A) (world : World A) (dt : Duration) : List Read :=
  let limit := world.now + dt
  if Duration.longest < limit then [] else node.fireDueReads limit (world.clock.firings limit) world

end Subtree

namespace Root

def tickReads (root : Root A) : List Read := root.visits.flatMap Visit.reads

/-- What a call reads. -/
def reads (root : Root A) : Call A → List Read
  | .start => if root.active then [] else root.tree.startReads root.state root.world
  | .tick => root.tickReads
  | .advance dt => root.node.advanceReads root.world dt
  | .update dt => root.node.advanceReads root.world dt ++ (root.advance dt).tickReads
  | .getNumber key => [root.world.read (.number key)]
  | .getBool key => [root.world.read (.bool key)]
  | .stop | .steer _ | .set _ _ | .remove _ | .clear | .watch _ _ | .unwatch _ => []

def allReads (root : Root A) : List (Call A) → List Read
  | [] => []
  | call :: calls => root.reads call ++ (root.call call).allReads calls

end Root

end BehaviorTree
