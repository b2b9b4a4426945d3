import BehaviorTree.Decimal.Read

namespace BehaviorTree

/-- A length of time in nanoseconds. -/
abbrev Duration := Nat

namespace Duration

def nanosPerSecond : Nat := Nat.pow 10 9

def ofMillis (n : Nat) : Duration := n * Nat.pow 10 6

def ofSeconds (n : Nat) : Duration := n * nanosPerSecond

/-- The longest time with a name: all seconds of 64 bits, and the last nanosecond of the last one. -/
def longest : Duration := Nat.pow 2 64 * nanosPerSecond - 1

def roundHalfEven (numerator denominator : Nat) : Nat :=
  let quotient := numerator / denominator
  let rest := 2 * (numerator % denominator)
  if rest < denominator ∨ (rest = denominator ∧ quotient % 2 = 0) then quotient else quotient + 1

inductive OfFloat where
  | exact (duration : Duration)
  | invalid
  | tooLong
  deriving Repr, DecidableEq

def ofBinarySeconds (m : Nat) (q : Int) : Duration :=
  roundHalfEven (m * Nat.pow 2 q.toNat * nanosPerSecond) (Nat.pow 2 (-q).toNat)

/-- Reads seconds. Whether they are too long is asked before they are rounded, so that the sizes
stay small. -/
def ofFloatSeconds (x : Float) : OfFloat :=
  if x.isNaN || x.isInf || x < 0 then .invalid
  else
    let bits := x.toBits.toNat
    let field : Nat := bits / Nat.pow 2 52 % Nat.pow 2 11
    let fraction : Nat := bits % Nat.pow 2 52
    if 1023 + 64 ≤ field then .tooLong
    else if field = 0 then .exact (ofBinarySeconds fraction (-1074))
    else .exact (ofBinarySeconds (Nat.pow 2 52 + fraction) ((field : Int) - 1075))

/-- The seconds of a duration, the whole ones and the fraction rounded apart. -/
def toFloatSeconds (d : Duration) : Float :=
  (d / nanosPerSecond).toFloat + (d % nanosPerSecond).toFloat / nanosPerSecond.toFloat

end Duration

end BehaviorTree
