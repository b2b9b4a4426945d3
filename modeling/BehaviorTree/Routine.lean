import BehaviorTree.World

namespace BehaviorTree

/-- What the callback of a service does: a program that acts on the agent, and reads and writes the
blackboard. Who watches the board, and when it is cleared, is for the host to decide between two calls: a
callback that cleared it would take the observers from the conditions of the tree in which it runs. -/
inductive Routine (A : Type) : Type where
  | done
  | act (effect : A → A) (next : Routine A)
  | look (next : A → Routine A)
  | get (key : String) (next : Option Value → Routine A)
  | getNumber (key : String) (next : Float → Routine A)
  | getBool (key : String) (next : Bool → Routine A)
  | set (key : String) (value : Value) (next : Bool → Routine A)
  | remove (key : String) (next : Option Value → Routine A)

namespace Routine

variable {A : Type}

def run : Routine A → World A → World A
  | .done, world => world
  | .act effect next, world => next.run (world.mapAgent effect)
  | .look next, world => (next world.agent).run world
  | .get key next, world => (next (world.get? key)).run world
  | .getNumber key next, world =>
    let (x, world) := world.getNumber key
    (next x).run world
  | .getBool key next, world =>
    let (b, world) := world.getBool key
    (next b).run world
  | .set key value next, world =>
    let (changed, world) := world.set key value
    (next changed).run world
  | .remove key next, world =>
    let (old, world) := world.remove key
    (next old).run world

def andThen : Routine A → Routine A → Routine A
  | .done, after => after
  | .act effect next, after => .act effect (next.andThen after)
  | .look next, after => .look fun agent => (next agent).andThen after
  | .get key next, after => .get key fun value => (next value).andThen after
  | .getNumber key next, after => .getNumber key fun x => (next x).andThen after
  | .getBool key next, after => .getBool key fun b => (next b).andThen after
  | .set key value next, after => .set key value fun changed => (next changed).andThen after
  | .remove key next, after => .remove key fun old => (next old).andThen after

@[simp] theorem run_andThen (first second : Routine A) (world : World A) :
    (first.andThen second).run world = second.run (first.run world) := by
  induction first generalizing world with
  | done => rfl
  | act _ _ ih => exact ih _
  | look _ ih | get _ _ ih | getNumber _ _ ih | getBool _ _ ih | set _ _ _ ih | remove _ _ ih =>
    exact ih _ _

/-- Writes a value and does not ask whether it changed. -/
def put (key : String) (value : Value) : Routine A := .set key value fun _ => .done

def sequence (routines : List (Routine A)) : Routine A := routines.foldr andThen .done

end Routine

end BehaviorTree
