import BehaviorTree.Board.Basic

namespace BehaviorTree

inductive Operator where
  | equal
  | notEqual
  | less
  | lessOrEqual
  | greater
  | greaterOrEqual
  | isSet
  | isNotSet
  deriving Repr, DecidableEq, Inhabited

namespace Operator

def all : List Operator :=
  [.equal, .notEqual, .less, .lessOrEqual, .greater, .greaterOrEqual, .isSet, .isNotSet]

def symbol : Operator → String
  | .equal => "=="
  | .notEqual => "!="
  | .less => "<"
  | .lessOrEqual => "<="
  | .greater => ">"
  | .greaterOrEqual => ">="
  | .isSet => "is_set"
  | .isNotSet => "is_not_set"

def ofSymbol? (s : String) : Option Operator := all.find? (·.symbol = s)

def isOrdering : Operator → Bool
  | .less | .lessOrEqual | .greater | .greaterOrEqual => true
  | _ => false

/-- Compares numbers by an ordering; none if either is not a number. -/
def compareNumbers? (operator : Operator) (a b : Float) : Option Bool :=
  if a < b then some (operator = .less || operator = .lessOrEqual)
  else if b < a then some (operator = .greater || operator = .greaterOrEqual)
  else if a == b then some (operator = .lessOrEqual || operator = .greaterOrEqual)
  else none

/-- Compares values of one kind; none for values that the operator cannot compare. -/
def compare? (operator : Operator) (value threshold : Value) : Option Bool :=
  if value.kind ≠ threshold.kind then none
  else match operator with
    | .equal => some (value.same threshold)
    | .notEqual => some (!value.same threshold)
    | .isSet => some true
    | .isNotSet => some false
    | _ => do operator.compareNumbers? (← value.number?) (← threshold.number?)

end Operator

inductive Preemption where
  /-- The selector goes on at the branch within the same tick. -/
  | immediate
  /-- The selector gives up, and its parent evaluates it anew. -/
  | deferred
  deriving Repr, DecidableEq, Inhabited

inductive RestartPolicy where
  | none
  | immediateRestart
  | lowerPriority
  | both
  deriving Repr, DecidableEq, Inhabited

namespace RestartPolicy

def all : List RestartPolicy := [.none, .immediateRestart, .lowerPriority, .both]

def keyword : RestartPolicy → String
  | .none => "none"
  | .immediateRestart => "immediate_restart"
  | .lowerPriority => "lower_priority"
  | .both => "both"

def ofKeyword? (s : String) : Option RestartPolicy := all.find? (·.keyword = s)

def name : RestartPolicy → String
  | .none => "None"
  | .immediateRestart => "ImmediateRestart"
  | .lowerPriority => "LowerPriority"
  | .both => "Both"

/-- Whether a guard that stops holding aborts its own branch. -/
def abortsSelf : RestartPolicy → Bool
  | .immediateRestart | .both => true
  | _ => false

/-- How a guard that starts holding takes over, if it does. -/
def preemption? : RestartPolicy → Option Preemption
  | .none => Option.none
  | .immediateRestart => some .immediate
  | .lowerPriority | .both => some .deferred

end RestartPolicy

structure Guard where
  key : String
  operator : Operator
  threshold : Value
  deriving Repr, BEq, Inhabited

namespace Guard

/-- Whether the guard holds. A key without a value, and values that do not compare, make it false and
are reported. -/
def evaluate (guard : Guard) (board : Board) : Bool × Board × Option KeyWarning :=
  match guard.operator, board.get? guard.key with
  | .isSet, value => (value.isSome, board, none)
  | .isNotSet, value => (value.isNone, board, none)
  | _, none => (false, board.noteMissing guard.key guard.threshold.kind)
  | operator, some value =>
    match operator.compare? value guard.threshold with
    | some holds => (holds, board, none)
    | none => (false, board.noteMissing guard.key guard.threshold.kind)

def holds (guard : Guard) (board : Board) : Bool :=
  match guard.operator, board.get? guard.key with
  | .isSet, value => value.isSome
  | .isNotSet, value => value.isNone
  | _, none => false
  | operator, some value => (operator.compare? value guard.threshold).getD false

theorem evaluate_fst (guard : Guard) (board : Board) :
    (guard.evaluate board).1 = guard.holds board := by
  unfold evaluate holds
  split <;> try rfl
  split <;> simp_all

end Guard

end BehaviorTree
