import BehaviorTree.Perception

namespace BehaviorTree

inductive Recipe where
  | forFun
  | deadly
  | frightened
  | unpredictable
  | spin
  | track
  | moveOnly
  | fireOnly
  | idle
  deriving Repr, DecidableEq, Inhabited

namespace Recipe

def all : List Recipe :=
  [.forFun, .deadly, .frightened, .unpredictable, .spin, .track, .moveOnly, .fireOnly, .idle]

def name : Recipe → String
  | .forFun => "fun"
  | .deadly => "deadly"
  | .frightened => "frightened"
  | .unpredictable => "unpredictable"
  | .spin => "spin"
  | .track => "track"
  | .moveOnly => "move_only"
  | .fireOnly => "fire_only"
  | .idle => "idle"

def ofName? (s : String) : Option Recipe := all.find? (·.name = s)

/-- A number without a recipe stands for the idle one. -/
def ofIndex (index : Int) : Recipe :=
  if index < 0 then .idle else (all[index.toNat]?).getD .idle

def isTracking : Recipe → Bool
  | .deadly | .frightened | .unpredictable | .track => true
  | _ => false

end Recipe

/-- The target is within about six degrees of straight ahead. -/
def defaultAim : Guard := ⟨Perception.targetOffCentre, .lessOrEqual, .number 0.1⟩

structure RecipeParams where
  perceptionInterval : Duration := Duration.ofMillis 200
  aim : Guard := defaultAim
  turnRate : Float32 := 1
  trackWait : Duration := Duration.ofSeconds 2
  unpredictableWait : Duration := Duration.ofSeconds 3
  spinTurn : Float32 := -0.05
  spinFire : Float32 := 1
  funMove : Float32 := 1
  funTurn : Float32 := 1
  funFire : Float32 := 1
  deadlyMove : Float32 := 0.4
  deadlyTurn : Float32 := 1
  deadlyFire : Float32 := -1
  frightenedTurn : Float32 := 1
  frightenedMove : Float32 := -0.5
  moveOnly : Float32 := 1
  fireOnly : Float32 := 1
  idleTurn : Float32 := 0.1
  deriving Repr, BEq

end BehaviorTree
