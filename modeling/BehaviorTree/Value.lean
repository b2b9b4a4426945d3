import BehaviorTree.Decimal.Layout
import BehaviorTree.Text.Quoted

namespace BehaviorTree

inductive Value where
  | bool (value : Bool)
  | number (value : Float)
  | text (value : String)
  deriving Repr, Inhabited

inductive Kind where
  | bool
  | number
  | text
  deriving Repr, DecidableEq, Inhabited

namespace Value

def kind : Value → Kind
  | .bool _ => .bool
  | .number _ => .number
  | .text _ => .text

def number? : Value → Option Float
  | .number x => some x
  | _ => none

def bool? : Value → Option Bool
  | .bool b => some b
  | _ => none

def text? : Value → Option String
  | .text s => some s
  | _ => none

/-- Values of one kind that compare equal. Numbers compare as numbers do: the two zeros are the same
value, and what is not a number is not the same as itself. -/
def same : Value → Value → Bool
  | .bool a, .bool b => a == b
  | .number a, .number b => a == b
  | .text a, .text b => a == b
  | _, _ => false

instance : BEq Value := ⟨same⟩

/-- Reads a literal: a truth value, else a number, else the text itself. -/
def ofLiteral (s : String) : Value :=
  if s = "true" then .bool true
  else if s = "false" then .bool false
  else (Decimal.readFloat? s).elim (.text s) .number

def ofFloat32 (x : Float32) : Value := .number x.toFloat

def ofInt (n : Int) : Value := .number (Float.ofInt n)

def display : Value → String
  | .bool b => if b then "true" else "false"
  | .number x => Decimal.Layout.plain.write x
  | .text s => Text.quoted s

def describe : Value → String
  | .bool b => "Bool(" ++ (if b then "true" else "false") ++ ")"
  | .number x => "Number(" ++ Decimal.Layout.fractional.write x ++ ")"
  | .text s => "Text(" ++ Text.quoted s ++ ")"

end Value

def Kind.name : Kind → String
  | .bool => "Bool"
  | .number => "Number"
  | .text => "Text"

end BehaviorTree
