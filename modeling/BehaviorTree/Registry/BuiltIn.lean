import BehaviorTree.Registry.Basic

namespace BehaviorTree

variable {A : Type}

namespace Constructor

def sequence : Constructor A := fun _ children _ => .ok (.sequence children)

def selector : Constructor A := fun _ children _ => .ok (.selector children)

/-- The threshold of an operator that looks at no value. -/
def presenceThreshold : Value := .bool true

def condition : Constructor A := fun args children _ => do
  let operator ← args.readOr Operator.ofSymbol? "op" .equal
  let threshold ← match operator with
    | .isSet | .isNotSet => pure presenceThreshold
    | _ => args.value "value"
  let key ← args.required "key"
  let policy ← args.readOr RestartPolicy.ofKeyword? "restart" .none
  let child ← singleChild args children
  return .condition ⟨key, operator, threshold⟩ policy (some child)

def serviceLabel (callback : String) : String := "Service(" ++ callback ++ ")"

def service : Constructor A := fun args children service? => do
  let name ← args.required "callback"
  match service? name with
  | none => .error (.missingService args.node name)
  | some callback =>
    let interval ← args.seconds "interval"
    let child ← singleChild args children
    return .service (serviceLabel name) interval callback (some child)

def wait : Constructor A := fun args children _ => do
  noChildren args children
  let duration ← args.seconds "duration"
  let variance ← args.secondsOr "variance" 0
  return .wait duration variance

end Constructor

def Registry.builtIn : Registry A :=
  Registry.empty
    |>.register "Sequence" [] Constructor.sequence
    |>.register "Selector" [] Constructor.selector
    |>.register "Condition" ["key", "op", "value", "restart"] Constructor.condition
    |>.register "Service" ["interval", "callback"] Constructor.service
    |>.register "Wait" ["duration", "variance"] Constructor.wait

end BehaviorTree
