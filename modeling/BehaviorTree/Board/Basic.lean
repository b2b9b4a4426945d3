import BehaviorTree.Board.Flags
import BehaviorTree.Board.Values

/-!
A write that changes nothing tells nobody. A write that does tells each observer of its key once, in
the order of subscription, and raises the observer's flag until the observer acknowledges it. Reads
that fall back on a default are reported once per key.
-/

namespace BehaviorTree

structure ObserverId where
  index : Nat
  deriving Repr, DecidableEq

structure Subscription where
  id : ObserverId
  key : String
  deriving Repr, DecidableEq

structure Notice where
  observer : ObserverId
  key : String
  old : Option Value
  new : Option Value
  deriving Repr

/-- A read that fell back on a default. -/
inductive KeyWarning where
  | neverWritten (key : String) (expected : Kind)
  | wrongKind (key : String) (expected found : Kind)
  deriving Repr, DecidableEq

def KeyWarning.message : KeyWarning → String
  | .neverWritten _ _ => "blackboard key was never written, using default"
  | .wrongKind _ _ _ => "blackboard value has the wrong kind, using default"

structure Board where
  values : Values := Values.empty
  /-- In the order of subscription. -/
  observers : List Subscription := []
  /-- The observers with changes that they have not acknowledged. -/
  pending : Flags := Flags.none
  nextObserver : Nat := 0
  /-- The keys that a warning has named. -/
  warned : List String := []

namespace Board

def get? (board : Board) (key : String) : Option Value := board.values.get? key

def contains (board : Board) (key : String) : Bool := board.values.contains key

def observersOf (board : Board) (key : String) : List ObserverId :=
  (board.observers.filter (·.key = key)).map (·.id)

def raiseAll (flags : Flags) (ids : List ObserverId) : Flags :=
  ids.foldl (fun flags id => flags.raise id.index) flags

def replace (board : Board) (key : String) (new : Option Value) : Board × List Notice :=
  let told := board.observersOf key
  let values := match new with
    | some value => board.values.insert key value
    | none => board.values.erase key
  ({ board with values, pending := raiseAll board.pending told },
    told.map fun id => ⟨id, key, board.get? key, new⟩)

/-- Stores a value. The first answer is whether the stored value changed. -/
def set (board : Board) (key : String) (value : Value) : Bool × Board × List Notice :=
  if (board.get? key).any (·.same value) then (false, board, [])
  else (true, board.replace key (some value))

/-- Takes a value away; the first answer is the value that was there. -/
def remove (board : Board) (key : String) : Option Value × Board × List Notice :=
  match board.get? key with
  | none => (none, board, [])
  | some old => (some old, board.replace key none)

def subscribe (board : Board) (key : String) : ObserverId × Board :=
  let id : ObserverId := ⟨board.nextObserver⟩
  (id, { board with
    observers := board.observers ++ [⟨id, key⟩]
    nextObserver := board.nextObserver + 1 })

def isSubscribed (board : Board) (id : ObserverId) : Bool := board.observers.any (·.id = id)

/-- Ends a subscription. The first answer is whether there was one. -/
def unsubscribe (board : Board) (id : ObserverId) : Bool × Board :=
  (board.isSubscribed id, { board with observers := board.observers.filter (·.id ≠ id) })

/-- Whether the observer has been told of a change since it last acknowledged. -/
def isPending (board : Board) (id : ObserverId) : Bool := board.pending.isRaised id.index

def acknowledge (board : Board) (id : ObserverId) : Board :=
  { board with pending := board.pending.lower id.index }

/-- Forgets values, observers and the keys that warnings have named. No observer is told, and what
observers have not acknowledged stays so. -/
def clear (board : Board) : Board :=
  { board with values := Values.empty, observers := [], warned := [] }

/-- Reports, once per key, that a value of the kind `expected` was wanted in vain. -/
def noteMissing (board : Board) (key : String) (expected : Kind) : Board × Option KeyWarning :=
  if key ∈ board.warned then (board, none)
  else
    let warning := match board.get? key with
      | none => .neverWritten key expected
      | some value => .wrongKind key expected value.kind
    ({ board with warned := key :: board.warned }, some warning)

def readOr {α : Type} (board : Board) (read : Value → Option α) (expected : Kind) (default : α)
    (key : String) : α × Board × Option KeyWarning :=
  match (board.get? key).bind read with
  | some x => (x, board, none)
  | none => (default, board.noteMissing key expected)

def getNumber (board : Board) (key : String) : Float × Board × Option KeyWarning :=
  board.readOr Value.number? .number 0 key

def getBool (board : Board) (key : String) : Bool × Board × Option KeyWarning :=
  board.readOr Value.bool? .bool false key

def getText? (board : Board) (key : String) : Option String := (board.get? key).bind Value.text?

def ofValues (values : Values) : Board := { values }

def describeEntry (entry : String × Value) : String :=
  "(" ++ Text.quoted entry.1 ++ ", " ++ entry.2.describe ++ ")"

def describe (board : Board) : String :=
  let entries := ", ".intercalate (board.values.entries.map describeEntry)
  "Blackboard \x7b values: [" ++ entries ++ "], observers: " ++ toString board.observers.length ++
    " \x7d"

end Board

end BehaviorTree
