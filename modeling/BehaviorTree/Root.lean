import BehaviorTree.Tree.Build
import BehaviorTree.Tree.Tick

namespace BehaviorTree

/-- A tree that was found fit to run, its state, and its world. -/
structure Root (A : Type) where
  tree : Tree A
  state : tree.State
  world : World A
  /-- The values to which the blackboard goes back when the tree is stopped. -/
  initial : Values
  active : Bool

namespace Root

variable {A : Type}

/-- Wraps a tree that has no fault, with a board that the host has made. `random` is where the nodes
that draw have their generators from. -/
def withBoard (tree : Tree A) (board : Board) (agent : A)
    (react : Notice → A → A := fun _ agent => agent) (random : Random := .ofSeed 0) :
    Except BuildError (Root A) := do
  tree.checkOutsideSelector
  tree.validate
  return ⟨tree, (tree.fresh random).1, { agent, board, react }, board.values, false⟩

/-- Wraps a tree that has no fault, with a board of its own that holds the given values. -/
def create (tree : Tree A) (initial : Values) (agent : A)
    (react : Notice → A → A := fun _ agent => agent) (random : Random := .ofSeed 0) :
    Except BuildError (Root A) :=
  withBoard tree (.ofValues initial) agent react random

def status (root : Root A) : Status := root.tree.status root.state

def start (root : Root A) : Root A :=
  if root.active then root
  else
    let (state, world) := root.tree.start root.state root.world
    { root with state, world, active := true }

/-- Evaluates the tree once. A tree that ended in the tick before begins anew. -/
def tick (root : Root A) : Root A :=
  if !root.active then root
  else
    let (state, world) :=
      if root.status.isTerminated then root.tree.release root.state root.world
      else (root.state, root.world)
    let (_, state, world) := root.tree.tick state world
    { root with state, world }

/-- Moves the clock forward; the services whose timers fall due on the way run in time order. -/
def advance (root : Root A) (dt : Duration) : Root A :=
  { root with world := root.world.advance (root.tree.fire root.state) dt }

def update (root : Root A) (dt : Duration) : Root A := (root.advance dt).tick

def stop (root : Root A) : Root A :=
  if !root.active then root
  else
    let (state, world) := root.tree.release root.state root.world
    { root with state, world := world.reset root.initial, active := false }

def mapWorld (root : Root A) (f : World A → World A) : Root A := { root with world := f root.world }

end Root

end BehaviorTree
