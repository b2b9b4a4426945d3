import BehaviorTree.Random
import BehaviorTree.Status
import BehaviorTree.Routine

/-!
A `Tree` is the plan alone and never changes. What changes while it runs is its state, `Tree.State`,
which has the shape of the tree: a node's state holds the states of its children.
-/

namespace BehaviorTree

/-- What an action does to the agent. -/
inductive Command (A : Type) where
  | always (effect : A → A)
  | drawn (low high : Float32) (effect : Float32 → A → A)

structure LeafState where
  status : Status := .inactive
  timer : Option TimerId := none
  memory : Nat := 0
  deriving Repr, DecidableEq

structure Leaf (A : Type) where
  name : String
  start : LeafState → World A → LeafState × World A
  tick : LeafState → World A → Outcome × LeafState × World A
  stop : LeafState → World A → LeafState × World A
  /-- Whether the timer is the leaf's own, and if so what it does when the timer fires. -/
  fire : LeafState → TimerId → World A → Bool × World A

inductive Tree (A : Type) : Type where
  | action (label : String) (command : Command A)
  /-- Succeeds when a time has passed since its start: `duration`, give or take `variance`. -/
  | wait (duration variance : Duration)
  | leaf (leaf : Leaf A)
  /-- Ticks its children in order until one fails. -/
  | sequence (children : List (Tree A))
  /-- Tries its children in order until one does not fail. Children before the running one may take
  over from it. -/
  | selector (children : List (Tree A))
  /-- Runs its child only where a guard holds. -/
  | condition (guard : Guard) (policy : RestartPolicy) (child : Option (Tree A))
  /-- Runs a program at fixed intervals while it is active. -/
  | service (label : String) (interval : Duration) (callback : Routine A) (child : Option (Tree A))

structure ActionState where
  status : Status := .inactive
  random : Random

structure WaitState where
  status : Status := .inactive
  startedAt : Duration := 0
  target : Duration := 0
  random : Random

/-- The state of a sequence or a selector. -/
structure CompositeState (S : Type) where
  status : Status := .inactive
  current : Nat := 0
  children : S

structure ConditionState (S : Type) where
  status : Status := .inactive
  observer : Option ObserverId := none
  child : S

structure ServiceState (S : Type) where
  status : Status := .inactive
  timer : Option TimerId := none
  child : S

variable {A : Type}

mutual

@[reducible] def Tree.State : Tree A → Type
  | .action _ _ => ActionState
  | .wait _ _ => WaitState
  | .leaf _ => LeafState
  | .sequence children => CompositeState (Tree.StateList children)
  | .selector children => CompositeState (Tree.StateList children)
  | .condition _ _ child => ConditionState (Tree.StateOption child)
  | .service _ _ _ child => ServiceState (Tree.StateOption child)

@[reducible] def Tree.StateList : List (Tree A) → Type
  | [] => Unit
  | tree :: trees => tree.State × Tree.StateList trees

@[reducible] def Tree.StateOption : Option (Tree A) → Type
  | none => Unit
  | some tree => tree.State

end

namespace Tree

mutual

/-- The state before the first start. Each node that draws has a generator of its own, taken from
`random` in the order of the nodes. -/
def fresh : (tree : Tree A) → Random → tree.State × Random
  | .action _ _, random => let (own, random) := random.fork; ({ random := own }, random)
  | .wait _ _, random => let (own, random) := random.fork; ({ random := own }, random)
  | .leaf _, random => ({}, random)
  | .sequence children, random =>
    let (children, random) := freshList children random
    ({ children }, random)
  | .selector children, random =>
    let (children, random) := freshList children random
    ({ children }, random)
  | .condition _ _ child, random =>
    let (child, random) := freshOption child random
    ({ child }, random)
  | .service _ _ _ child, random =>
    let (child, random) := freshOption child random
    ({ child }, random)

def freshList : (trees : List (Tree A)) → Random → StateList trees × Random
  | [], random => ((), random)
  | tree :: trees, random =>
    let (state, random) := tree.fresh random
    let (states, random) := freshList trees random
    ((state, states), random)

def freshOption : (tree : Option (Tree A)) → Random → StateOption tree × Random
  | none, random => ((), random)
  | some tree, random => tree.fresh random

end

def status : (tree : Tree A) → tree.State → Status
  | .action _ _, state => state.status
  | .wait _ _, state => state.status
  | .leaf _, state => state.status
  | .sequence _, state => state.status
  | .selector _, state => state.status
  | .condition _ _ _, state => state.status
  | .service _ _ _ _, state => state.status

def name : Tree A → String
  | .action label _ => label
  | .wait _ _ => "Wait"
  | .leaf node => node.name
  | .sequence _ => "Sequence"
  | .selector _ => "Selector"
  | .condition _ _ _ => "BlackboardCondition"
  | .service label _ _ _ => label

end Tree

end BehaviorTree
