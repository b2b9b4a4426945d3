import BehaviorTree.Decimal.Read
import BehaviorTree.Yaml.Scalar

namespace BehaviorTree.Yaml

inductive Meaning where
  | null
  | bool (value : Bool)
  | int (value : Int)
  | float (value : Float)
  /-- An integer of more than 64 bits, but of no more than 128, is not used as any kind of value. -/
  | wideInt
  | text (value : String)
  deriving Repr, Inhabited

namespace Meaning

def isUInt64 (n : Int) : Bool := 0 ≤ n && n < Nat.pow 2 64

def isInt64 (n : Int) : Bool := -Nat.pow 2 63 ≤ n && n < Nat.pow 2 63

def digit? (base : Nat) (c : Char) : Option Nat := (Scalar.hexValue? c).filter (· < base)

def readDigits? (base : Nat) (cs : List Char) : Option Nat :=
  if cs.isEmpty then none
  else return (← cs.mapM (digit? base)).foldl (fun n d => base * n + d) 0

def bases : List (Char × Nat) := [('x', 16), ('o', 8), ('b', 2)]

/-- An integer of 64 bits in another base than ten. The sign stands before the base; a further plus may
follow it. -/
def readBased? (cs : List Char) : Option Int :=
  match Decimal.splitSign cs with
  | (negative, '0' :: b :: digits) => do
    let base ← bases.lookup b
    if negative then ((readDigits? base digits).map fun n => -(n : Int)).filter isInt64
    else
      let digits := if digits.head? = some '+' then digits.drop 1 else digits
      ((readDigits? base digits).map Int.ofNat).filter isUInt64
  | _ => none

def isPadded (cs : List Char) : Bool :=
  let digits := cs.dropWhile fun c => c = '-' || c = '+'
  1 < digits.length && digits.head? = some '0' && digits.all Char.isDigit

def readInt? (cs : List Char) : Option Meaning :=
  match Decimal.readInt? cs with
  | none => none
  | some n =>
    if isUInt64 n || isInt64 n then some (.int n)
    else if -Nat.pow 2 127 ≤ n && n < Nat.pow 2 128 then some .wideInt
    else none

def readSpecial? (cs : List Char) : Option Float :=
  let infinities := [".inf", ".Inf", ".INF"]
  if String.ofList (cs.dropWhile (· = '+')) ∈ infinities then some (1 / 0)
  else if cs.head? = some '-' && infinities.contains (String.ofList (cs.drop 1)) then some (-(1 / 0))
  else if String.ofList cs ∈ [".nan", ".NaN", ".NAN"] then some (0 / 0)
  else none

def readFinite? (cs : List Char) : Option Float :=
  ((Decimal.read? cs).map Decimal.toFloat).filter (·.isFinite)

def ofPlain (s : String) : Meaning :=
  let cs := s.toList
  if s = "~" || s = "null" then .null
  else if s = "true" then .bool true
  else if s = "false" then .bool false
  else match readBased? cs with
    | some n => .int n
    | none =>
      if isPadded cs then .text s
      else
        let float? := (readSpecial? cs <|> readFinite? cs).map Meaning.float
        (readInt? cs <|> float?).getD (.text s)

end Meaning

def Scalar.isNull (scalar : Scalar) : Bool :=
  scalar.plain && (scalar.text = "~" || scalar.text = "null")

/-- A scalar that is not plain means its text. -/
def Scalar.meaning (scalar : Scalar) : Meaning :=
  if scalar.plain then .ofPlain scalar.text else .text scalar.text

end BehaviorTree.Yaml
