import BehaviorTree.Recipe.Trees
import BehaviorTree.Registry.Assembly

namespace BehaviorTree

inductive Recipe.Choice where
  | numbered (index : Int)
  | named (name : String)
  deriving Repr, DecidableEq

structure Config where
  behaviour : Recipe.Choice := .named Recipe.idle.name
  seed : Option UInt64 := none
  params : RecipeParams := {}
  blackboard : Values := .empty
  /-- A source, whose tree is used in place of a recipe. -/
  trees : Option String := none
  tree : Option String := none
  deriving Repr

inductive ConfigError where
  /-- The text is no document of this form. -/
  | malformed
  /-- A number of seconds beyond the longest duration. Reading breaks off. -/
  | overflow
  /-- A mapping without entries where an operator belongs. Reading breaks off. -/
  | emptyOperator
  | unknownRecipe (name : String)
  | load (error : LoadError)
  | build (error : BuildError)
  deriving Repr

def ConfigError.message : ConfigError → String
  | .malformed => "The configuration is malformed"
  | .overflow => LoadError.overflow.message
  | .emptyOperator => "An operator is empty"
  | .unknownRecipe name => "Unknown behaviour recipe " ++ Text.quoted name
  | .load error => error.message
  | .build error => error.message

namespace Recipe

def ofName (name : String) : Except ConfigError Recipe :=
  match ofName? name with
  | some recipe => .ok recipe
  | none => .error (.unknownRecipe name)

/-- Of indices every one stands for a recipe, of names only some. -/
def Choice.recipe : Choice → Except ConfigError Recipe
  | .numbered index => .ok (.ofIndex index)
  | .named name => ofName name

end Recipe

namespace Config

instance : BEq Config where
  beq a b := a.behaviour == b.behaviour && a.seed == b.seed && a.params == b.params &&
    a.blackboard == b.blackboard && a.trees == b.trees && a.tree == b.tree

def defaultTree : String := "main"

def library (config : Config) : Library := .ofSeed config.params (config.seed.getD 0)

variable {A : Type} [Tank A]

def selectTree (config : Config) : Except ConfigError (Tree A) :=
  match config.trees with
  | some text => do
    let source ← (Source.parse text).mapError fun e => .load (.parse e)
    (Registry.tank.load source (config.tree.getD defaultTree)).mapError .load
  | none => do return (← config.behaviour.recipe).tree config.params

def build (config : Config) (agent : A) (react : Notice → A → A := fun _ agent => agent) :
    Except ConfigError (Root A) := do
  let tree ← config.selectTree
  (Root.create tree config.blackboard agent react config.library.nextRandom.1).mapError .build

end Config

end BehaviorTree
