import BehaviorTree.Decimal.Read

/-!
A finite number is `significand · 2 ^ exponent`; all reals of an interval around it round to it.
`shortest?` looks for the coarsest grid of powers of ten with a point in that interval, and takes the
point nearest to the number.
-/

namespace BehaviorTree.Decimal

/-- A positive number and the interval of reals that round to it, over a common denominator. -/
structure Interval where
  low : Nat
  value : Nat
  high : Nat
  denominator : Nat
  closed : Bool

def Interval.contains (i : Interval) (numerator : Nat) : Bool :=
  if i.closed then i.low ≤ numerator && numerator ≤ i.high
  else i.low < numerator && numerator < i.high

/-- The interval of `m · 2 ^ q`. Below a power of two the neighbours are twice as near. -/
def Interval.ofBinary (m : Nat) (q : Int) (powerOfTwo : Bool) : Interval :=
  let up := Nat.pow 2 q.toNat
  { low := (4 * m - if powerOfTwo then 1 else 2) * up
    value := 4 * m * up
    high := (4 * m + 2) * up
    denominator := 4 * Nat.pow 2 (-q).toNat
    closed := m % 2 = 0 }

def Interval.ofFloat? (x : Float) : Option Interval :=
  let bits := x.toBits.toNat
  let field : Nat := bits / Nat.pow 2 52 % Nat.pow 2 11
  let fraction : Nat := bits % Nat.pow 2 52
  if field = 2047 ∨ (field = 0 ∧ fraction = 0) then none
  else if field = 0 then some (.ofBinary fraction (-1074) false)
  else some (.ofBinary (Nat.pow 2 52 + fraction) ((field : Int) - 1075) (fraction = 0 ∧ 1 < field))

/-- The `p` with `10 ^ (p - 1) ≤ value < 10 ^ p`. -/
def Interval.magnitude (i : Interval) : Int :=
  if i.denominator ≤ i.value then digitCount (i.value / i.denominator)
  else 1 - (digitCount ((i.denominator - 1) / i.value) : Int)

structure Digits where
  digits : Nat
  power : Int
  deriving Repr, DecidableEq

def Digits.trim (d : Digits) : Digits :=
  if d.digits ≠ 0 ∧ d.digits % 10 = 0 then ⟨d.digits / 10, d.power + 1⟩ else d

/-- The grid point of `10 ^ power` inside the interval that is nearest to the value; halfway between
two, the greater one. -/
def Interval.nearest? (i : Interval) (power : Int) : Option Digits :=
  let step := i.denominator * Nat.pow 10 power.toNat
  let scale := Nat.pow 10 (-power).toNat
  let scaled : Interval :=
    ⟨i.low * scale, i.value * scale, i.high * scale, i.denominator, i.closed⟩
  let below := scaled.value / step
  let above := below + 1
  let belowFits := scaled.contains (below * step)
  let aboveFits := scaled.contains (above * step)
  let belowNearer := scaled.value - below * step < above * step - scaled.value
  if belowFits && (belowNearer || !aboveFits) then some ⟨below, power⟩
  else if aboveFits then some ⟨above, power⟩
  else none

/-- No number of this format needs more digits to be told from its neighbours. -/
def mostDigits : Nat := 17

/-- The first grid with a hit has no point that ends in zero, except the carry to a new first digit. -/
def Interval.shortest? (i : Interval) : Option Digits :=
  ((List.range mostDigits).findSome? fun (k : Nat) => i.nearest? (i.magnitude - (k + 1))).map Digits.trim

def shortest? (x : Float) : Option Digits :=
  if x == 0 then some ⟨0, 0⟩ else (Interval.ofFloat? x).bind Interval.shortest?

end BehaviorTree.Decimal
