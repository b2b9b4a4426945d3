import BehaviorTree.Recipe.Basic
import BehaviorTree.Registry.BuiltIn
import BehaviorTree.Root

namespace BehaviorTree

variable {A : Type} [Tank A]

namespace Recipe

def moveBy (amount : Float32) : Tree A := .action "Move" (.always (Tank.moveBy amount))

def turn (amount : Float32) : Tree A := .action "Turn" (.always (Tank.turn amount))

def fire (amount : Float32) : Tree A := .action "Fire" (.always (Tank.fire amount))

def randomMoveCommand : Command A := .drawn (-1) 1 Tank.moveBy

def randomFireCommand : Command A := .drawn 0 1 Tank.fire

def randomMove : Tree A := .action "RandomMove" randomMoveCommand

def randomFire : Tree A := .action "RandomFire" randomFireCommand

def perceptionService : String := "perception"

/-- Sees to its target all the time; does `aimed` where the target is lined up, and otherwise turns to
the side it is on. -/
def tracking (params : RecipeParams) (aimed : Tree A) : Tree A :=
  .service (Constructor.serviceLabel perceptionService) params.perceptionInterval Perception.refresh
    (some (.selector [
      .condition params.aim .immediateRestart (some aimed),
      .condition ⟨Perception.targetOnRight, .equal, .bool true⟩ .immediateRestart
        (some (turn params.turnRate)),
      turn (-params.turnRate)]))

def tree (params : RecipeParams) : Recipe → Tree A
  | .forFun =>
    .sequence [moveBy params.funMove, turn params.funTurn, fire params.funFire]
  | .deadly =>
    tracking params
      (.sequence [moveBy params.deadlyMove, turn params.deadlyTurn, fire params.deadlyFire])
  | .frightened =>
    tracking params (.sequence [turn params.frightenedTurn, moveBy params.frightenedMove])
  | .unpredictable =>
    tracking params
      (.sequence [turn 0, .wait params.unpredictableWait 0, randomMove, randomFire])
  | .spin => .sequence [turn params.spinTurn, fire params.spinFire]
  | .track => tracking params (.sequence [turn 0, .wait params.trackWait 0, randomFire])
  | .moveOnly => .sequence [moveBy params.moveOnly]
  | .fireOnly => .sequence [fire params.fireOnly]
  | .idle => turn params.idleTurn

end Recipe

def Registry.registerAmount (registry : Registry A) (type : String) (effect : Float32 → A → A) :
    Registry A :=
  registry.registerAction type ["amount"] fun args => do
    return .always (effect (← args.read Decimal.readFloat32? "amount"))

def Registry.tank : Registry A :=
  Registry.builtIn
    |>.registerAmount "Turn" Tank.turn
    |>.registerAmount "Move" Tank.moveBy
    |>.registerAmount "Fire" Tank.fire
    |>.registerAction "RandomMove" [] (fun _ => .ok Recipe.randomMoveCommand)
    |>.registerAction "RandomFire" [] (fun _ => .ok Recipe.randomFireCommand)
    |>.registerService Recipe.perceptionService Perception.refresh

/-- The recipes with their numbers, and the generator that each built tree takes its own from. -/
structure Library where
  params : RecipeParams
  random : Random

namespace Library

def ofSeed (params : RecipeParams) (seed : UInt64) : Library := ⟨params, .ofSeed seed⟩

def nextRandom (library : Library) : Random × Library :=
  let (own, random) := library.random.fork
  (own, { library with random })

def build (library : Library) (recipe : Recipe) (agent : A) : Except BuildError (Root A) × Library :=
  let (own, library) := library.nextRandom
  (Root.create (recipe.tree library.params) Values.empty agent (fun _ agent => agent) own, library)

end Library

end BehaviorTree
