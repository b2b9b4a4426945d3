namespace BehaviorTree

/-- The raised flags, as the bits of one number. -/
structure Flags where
  bits : Nat
  deriving Repr, DecidableEq

namespace Flags

def none : Flags := ⟨0⟩

def isRaised (flags : Flags) (i : Nat) : Bool := flags.bits.testBit i

def raise (flags : Flags) (i : Nat) : Flags := ⟨flags.bits ||| Nat.pow 2 i⟩

def lower (flags : Flags) (i : Nat) : Flags :=
  if flags.isRaised i then ⟨flags.bits ^^^ Nat.pow 2 i⟩ else flags

@[simp] theorem isRaised_none (i : Nat) : none.isRaised i = false := by simp [none, isRaised]

@[simp] theorem isRaised_raise (flags : Flags) (i j : Nat) :
    (flags.raise i).isRaised j = (flags.isRaised j || decide (j = i)) := by
  simp [raise, isRaised, Nat.testBit_two_pow, eq_comm]

@[simp] theorem isRaised_lower (flags : Flags) (i j : Nat) :
    (flags.lower i).isRaised j = (flags.isRaised j && decide (j ≠ i)) := by
  by_cases hi : flags.isRaised i = true
  · have hbit : flags.bits.testBit i = true := hi
    rw [lower, if_pos hi]
    by_cases hj : j = i
    · subst hj; simp [isRaised, hbit]
    · have hij : i ≠ j := fun h => hj h.symm
      simp [isRaised, hij, hj]
  · rw [lower, if_neg hi]
    by_cases hj : j = i
    · subst hj; simpa using hi
    · simp [hj]

theorem ext_isRaised {left right : Flags} (h : ∀ i, left.isRaised i = right.isRaised i) :
    left = right := by
  cases left
  cases right
  exact congrArg Flags.mk (Nat.eq_of_testBit_eq h)

end Flags

end BehaviorTree
