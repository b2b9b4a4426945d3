import BehaviorTree.Duration
import BehaviorTree.Source.Error

namespace BehaviorTree

structure Arguments where
  node : String
  values : List (String × String)
  deriving Repr

namespace Arguments

variable {α : Type}

def ofNode (node : SourceNode) : Arguments :=
  ⟨node.type, node.args.map fun arg => (arg.name, arg.value.text)⟩

/-- The first value of a name. -/
def get? (args : Arguments) (name : String) : Option String := args.values.lookup name

def bad (args : Arguments) (name value : String) : LoadError := .badArgument args.node name value

def required (args : Arguments) (name : String) : Except LoadError String :=
  match args.get? name with
  | some value => .ok value
  | none => .error (.missingArgument args.node name)

def interpret (args : Arguments) (read? : String → Option α) (name value : String) :
    Except LoadError α :=
  match read? value with
  | some a => .ok a
  | none => .error (args.bad name value)

def read (args : Arguments) (read? : String → Option α) (name : String) : Except LoadError α := do
  args.interpret read? name (← args.required name)

def readOr (args : Arguments) (read? : String → Option α) (name : String) (default : α) :
    Except LoadError α :=
  match args.get? name with
  | some value => args.interpret read? name value
  | none => .ok default

def duration (args : Arguments) (name value : String) : Except LoadError Duration := do
  let seconds ← args.interpret Decimal.readFloat? name value
  match Duration.ofFloatSeconds seconds with
  | .exact duration => .ok duration
  | .invalid => .error (args.bad name value)
  | .tooLong => .error .overflow

def seconds (args : Arguments) (name : String) : Except LoadError Duration := do
  args.duration name (← args.required name)

def secondsOr (args : Arguments) (name : String) (default : Duration) : Except LoadError Duration :=
  match args.get? name with
  | some value => args.duration name value
  | none => .ok default

def value (args : Arguments) (name : String) : Except LoadError Value := do
  return Value.ofLiteral (← args.required name)

def checkAccepted (args : Arguments) (accepted : List String) : Except LoadError Unit :=
  match args.values.find? fun arg => arg.1 ∉ accepted with
  | none => .ok ()
  | some arg => .error (.unknownArgument args.node arg.1)

end Arguments

def readBool? (s : String) : Option Bool :=
  if s = "true" then some true else if s = "false" then some false else none

end BehaviorTree
