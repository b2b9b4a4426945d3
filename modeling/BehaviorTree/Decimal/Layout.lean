import BehaviorTree.Decimal.Shortest

namespace BehaviorTree.Decimal

structure Layout where
  /-- The places of the point, counted from the first digit, that are written without a power of
  ten; `none` for all. -/
  positional : Option (Int × Int)
  wholeSuffix : String

def Layout.plain : Layout := ⟨none, ""⟩

/-- The shortest digits, with a fraction even of a whole number, and with a power of ten from `10 ^ 16`
and below `10 ^ -4`. -/
def Layout.fractional : Layout := ⟨some (-3, 16), ".0"⟩

def digitsText (n : Nat) : String := String.ofList (Nat.toDigits 10 n)

def zeros (n : Nat) : String := String.ofList (List.replicate n '0')

def Layout.setPoint (l : Layout) (cs : List Char) (point : Int) : String :=
  if point ≤ 0 then "0." ++ zeros (-point).toNat ++ String.ofList cs
  else if cs.length ≤ point then
    String.ofList cs ++ zeros (point.toNat - cs.length) ++ l.wholeSuffix
  else String.ofList (cs.take point.toNat) ++ "." ++ String.ofList (cs.drop point.toNat)

def setPower (cs : List Char) (power : Int) : String :=
  let fraction := if cs.length ≤ 1 then "" else "." ++ String.ofList (cs.drop 1)
  let sign := if power < 0 then "-" else ""
  String.ofList (cs.take 1) ++ fraction ++ "e" ++ sign ++ digitsText power.natAbs

/-- The text of a number without its sign; zero is the digit `0` before the point. -/
def Layout.magnitude (l : Layout) (d : Digits) : String :=
  let cs := Nat.toDigits 10 d.digits
  let point := if d.digits = 0 then 1 else cs.length + d.power
  match l.positional with
  | none => l.setPoint cs point
  | some (least, most) =>
    if least ≤ point ∧ point ≤ most then l.setPoint cs point else setPower cs (point - 1)

def isNegative (x : Float) : Bool := x.toBits.toNat / Nat.pow 2 63 = 1

def Layout.write (l : Layout) (x : Float) : String :=
  if x.isNaN then "NaN"
  else
    let sign := if isNegative x then "-" else ""
    match shortest? x with
    | some d => sign ++ l.magnitude d
    | none => sign ++ "inf"

end BehaviorTree.Decimal
