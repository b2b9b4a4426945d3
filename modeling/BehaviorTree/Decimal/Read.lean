/-!
`Decimal.read?` reads `[sign] digits [. digits] [e [sign] digits]`; `readFloat?` and `readFloat32?`
also take the names of infinity and of "not a number". Both round once, straight from the written
digits. `readInt?` reads an integer with an optional sign.
-/

namespace BehaviorTree

/-- The number `± mantissa · 10 ^ exponent`. -/
structure Decimal where
  negative : Bool
  mantissa : Nat
  exponent : Int
  deriving Repr, DecidableEq

namespace Decimal

def digitValue (c : Char) : Nat := c.toNat - '0'.toNat

def natOfDigits (digits : List Char) : Nat :=
  digits.foldl (fun n c => 10 * n + digitValue c) 0

def splitSign : List Char → Bool × List Char
  | '-' :: cs => (true, cs)
  | '+' :: cs => (false, cs)
  | cs => (false, cs)

def readNat? (cs : List Char) : Option Nat :=
  if cs.isEmpty || !cs.all Char.isDigit then none else some (natOfDigits cs)

def readInt? (cs : List Char) : Option Int :=
  let (negative, digits) := splitSign cs
  (readNat? digits).map fun n => if negative then -(n : Int) else n

def readExponent? : List Char → Option Int
  | [] => some 0
  | c :: cs => if c = 'e' ∨ c = 'E' then readInt? cs else none

def splitFraction : List Char → List Char × List Char
  | '.' :: cs => (cs.takeWhile Char.isDigit, cs.dropWhile Char.isDigit)
  | cs => ([], cs)

/-- A text without a sign. A digit is needed on one side of the point. -/
def readUnsigned? (negative : Bool) (cs : List Char) : Option Decimal :=
  let whole := cs.takeWhile Char.isDigit
  let (fraction, rest) := splitFraction (cs.dropWhile Char.isDigit)
  if whole.isEmpty && fraction.isEmpty then none
  else (readExponent? rest).map fun e =>
    ⟨negative, natOfDigits (whole ++ fraction), e - fraction.length⟩

def read? (cs : List Char) : Option Decimal :=
  let (negative, cs) := splitSign cs
  readUnsigned? negative cs

def digitCount (n : Nat) : Nat := if n = 0 then 0 else (Nat.toDigits 10 n).length

/-- Powers of ten beyond this are zero or infinite in every format used here. -/
def extremePower : Int := 400

/-- Rounds with `scientific mantissa divide power` unless the number is out of any reach. -/
def round {F : Type} [Neg F] (zero infinity : F) (scientific : Nat → Bool → Nat → F)
    (d : Decimal) : F :=
  let size := (digitCount d.mantissa : Int) + d.exponent
  let magnitude :=
    if d.mantissa = 0 ∨ size < -extremePower then zero
    else if extremePower < size then infinity
    else scientific d.mantissa (d.exponent < 0) d.exponent.natAbs
  if d.negative then -magnitude else magnitude

def toFloat (d : Decimal) : Float := d.round 0 (1 / 0) Float.ofScientific

def toFloat32 (d : Decimal) : Float32 := d.round 0 (1 / 0) Float32.ofScientific

inductive Number where
  | finite (decimal : Decimal)
  | infinite (negative : Bool)
  | nan
  deriving Repr, DecidableEq

def lowerAscii (cs : List Char) : List Char := cs.map Char.toLower

/-- The names of the numbers that are not finite are read in either case. -/
def readNumber? (cs : List Char) : Option Number :=
  let (negative, cs) := splitSign cs
  let name := String.ofList (lowerAscii cs)
  if name = "inf" ∨ name = "infinity" then some (.infinite negative)
  else if name = "nan" then some .nan
  else (readUnsigned? negative cs).map .finite

def Number.toFloat : Number → Float
  | .finite d => d.toFloat
  | .infinite negative => if negative then -(1 / 0) else 1 / 0
  | .nan => 0 / 0

def Number.toFloat32 : Number → Float32
  | .finite d => d.toFloat32
  | .infinite negative => if negative then -(1 / 0) else 1 / 0
  | .nan => 0 / 0

def readFloat? (s : String) : Option Float := (readNumber? s.toList).map Number.toFloat

def readFloat32? (s : String) : Option Float32 := (readNumber? s.toList).map Number.toFloat32

def readInt32? (s : String) : Option Int :=
  (readInt? s.toList).filter fun n => -Nat.pow 2 31 ≤ n ∧ n < Nat.pow 2 31

end Decimal

end BehaviorTree
