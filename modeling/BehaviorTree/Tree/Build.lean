import BehaviorTree.Tree.Basic

namespace BehaviorTree

inductive AddChildError where
  | tooManyNodes
  deriving Repr, DecidableEq

def AddChildError.message : AddChildError → String
  | .tooManyNodes => "Attempted to add too many nodes"

/-- Why a tree must not be started. -/
inductive BuildError where
  | missingChild (node : String)
  | preemptionOutsideSelector (node : String) (policy : RestartPolicy)
  | operatorMismatch (key : String) (operator : Operator) (threshold : Value)
  | zeroInterval (node : String)
  | emptyKey
  deriving Repr

def BuildError.message : BuildError → String
  | .missingChild node => node ++ " needs exactly one child"
  | .preemptionOutsideSelector node policy =>
    node ++ " uses restart policy " ++ policy.name ++ ", which needs a Selector as its parent"
  | .operatorMismatch key operator threshold =>
    "operator " ++ operator.symbol ++ " cannot compare " ++ key ++ " against " ++ threshold.display
  | .zeroInterval node => node ++ " has a zero interval"
  | .emptyKey => "blackboard condition has an empty key"

namespace Tree

variable {A : Type}

/-- Composites take any number of children, decorators one, and leaves none. -/
def addChild : Tree A → Tree A → Except AddChildError (Tree A)
  | .sequence children, child => .ok (.sequence (children ++ [child]))
  | .selector children, child => .ok (.selector (children ++ [child]))
  | .condition guard policy none, child => .ok (.condition guard policy (some child))
  | .service label interval callback none, child =>
    .ok (.service label interval callback (some child))
  | _, _ => .error .tooManyNodes

/-- The policy of a node that may only stand below a selector. A service stands for its child. -/
def selectorOnlyPolicy : Tree A → Option RestartPolicy
  | .condition _ policy _ => if policy = .lowerPriority then some policy else none
  | .service _ _ _ (some child) => child.selectorOnlyPolicy
  | _ => none

def checkOutsideSelector (tree : Tree A) : Except BuildError Unit :=
  match tree.selectorOnlyPolicy with
  | none => .ok ()
  | some policy => .error (.preemptionOutsideSelector tree.name policy)

def checkGuard (guard : Guard) : Except BuildError Unit :=
  if guard.key.isEmpty then .error .emptyKey
  else if guard.operator.isOrdering && guard.threshold.kind ≠ .number then
    .error (.operatorMismatch guard.key guard.operator guard.threshold)
  else .ok ()

mutual

/-- The first fault of a tree, if it has one. -/
def validate : Tree A → Except BuildError Unit
  | .action _ _ => .ok ()
  | .wait _ _ => .ok ()
  | .leaf _ => .ok ()
  | .sequence children => validateOutside children
  | .selector children => validateList children
  | .condition guard _ child => do
    checkGuard guard
    match child with
    | none => .error (.missingChild ("BlackboardCondition(" ++ guard.key ++ ")"))
    | some child =>
      child.checkOutsideSelector
      child.validate
  | .service label interval _ child =>
    if interval = 0 then .error (.zeroInterval label)
    else
      match child with
      | none => .error (.missingChild label)
      | some child => child.validate

def validateList : List (Tree A) → Except BuildError Unit
  | [] => .ok ()
  | tree :: trees => do
    tree.validate
    validateList trees

def validateOutside : List (Tree A) → Except BuildError Unit
  | [] => .ok ()
  | tree :: trees => do
    tree.checkOutsideSelector
    tree.validate
    validateOutside trees

end

end Tree

end BehaviorTree
