namespace BehaviorTree

inductive Outcome where
  | success
  | fail
  | running
  deriving Repr, DecidableEq, Inhabited

inductive Status where
  | inactive
  | running
  | succeeded
  | failed
  deriving Repr, DecidableEq, Inhabited

namespace Status

def isActive (status : Status) : Bool := status ≠ .inactive

def isTerminated : Status → Bool
  | .succeeded | .failed => true
  | _ => false

/-- The outcome that a node which has ended repeats. -/
def outcome? : Status → Option Outcome
  | .succeeded => some .success
  | .failed => some .fail
  | .inactive | .running => none

end Status

def Outcome.status : Outcome → Status
  | .success => .succeeded
  | .fail => .failed
  | .running => .running

@[simp] theorem Outcome.isActive_status (outcome : Outcome) : outcome.status.isActive = true := by
  cases outcome <;> rfl

@[simp] theorem Outcome.outcome?_status (outcome : Outcome) :
    outcome.status.outcome? = if outcome = .running then none else some outcome := by
  cases outcome <;> rfl

end BehaviorTree
