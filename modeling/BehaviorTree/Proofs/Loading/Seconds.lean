import Mathlib.Algebra.GroupWithZero.Nat
import Mathlib.Tactic.SplitIfs
import BehaviorTree.Source.Arguments

namespace BehaviorTree

open Float.Model (UnpackedFloat)

namespace Duration

def exponentField (x : Float) : Nat := x.toBits.toNat / Nat.pow 2 52 % Nat.pow 2 11

def fractionField (x : Float) : Nat := x.toBits.toNat % Nat.pow 2 52

theorem unpackExponent_toNat (x : Float) :
    (@UnpackedFloat.unpackExponent .binary64 x.toModel.toBits.toBitVec).toNat =
      exponentField x := by
  have hbits : x.toBits.toNat = x.toModel.toBits.toBitVec.toNat := rfl
  simp [UnpackedFloat.unpackExponent, exponentField, hbits, Nat.shiftRight_eq_div_pow]

theorem exponentField_of_zero {x : Float} {sign : UnpackedFloat.Sign}
    (h : x.toModel.unpack = .zero sign) : exponentField x = 0 := by
  delta Float.Model.unpack UnpackedFloat.unpack at h
  obtain ⟨-, hinfinite⟩ | ⟨-, h⟩ := ite_eq_iff.mp h
  · obtain ⟨-, hinfinite⟩ | ⟨-, hinfinite⟩ := ite_eq_iff.mp hinfinite <;> cases hinfinite
  obtain ⟨hleast, -⟩ | ⟨-, hnormal⟩ := ite_eq_iff.mp h
  · rw [← unpackExponent_toNat, hleast]
    rfl
  · cases hnormal

theorem exponentField_of_finite {x : Float} {sign : UnpackedFloat.Sign} {m : Nat} {e : Int}
    {hm : 0 < m} (h : x.toModel.unpack = .finite sign m e hm) :
    (exponentField x = 0 ∧ e = -1074) ∨ (2 ^ 52 ≤ m ∧ e = exponentField x - 1075) := by
  delta Float.Model.unpack UnpackedFloat.unpack at h
  obtain ⟨-, hinfinite⟩ | ⟨-, h⟩ := ite_eq_iff.mp h
  · obtain ⟨-, hinfinite⟩ | ⟨-, hinfinite⟩ := ite_eq_iff.mp hinfinite <;> cases hinfinite
  obtain ⟨hleast, h⟩ | ⟨-, h⟩ := ite_eq_iff.mp h
  · obtain ⟨_, hzero⟩ | ⟨_, h⟩ := dite_eq_iff.mp h
    · cases hzero
    cases h
    refine .inl ⟨?_, ?_⟩
    · rw [← unpackExponent_toNat, hleast]
      rfl
    · rw [hleast]
      rfl
  · cases h
    refine .inr ⟨?_, ?_⟩
    · rw [BitVec.toNat_append]
      exact Nat.left_le_or
    · rw [unpackExponent_toNat]
      rfl

/-- A finite number of seconds that is more than any duration. -/
def Beyond (x : Float) : Prop := x.isFinite = true ∧ 18446744073709551616 ≤ x

theorem limit_unpack :
    (18446744073709551616 : Float).toModel.unpack = .finite .positive (2 ^ 52) 12 (by decide) := rfl

theorem zero_unpack : (0 : Float).toModel.unpack = .zero .positive := rfl

theorem le_iff {x y : Float} : x ≤ y ↔ x.toModel.unpack.le y.toModel.unpack = true :=
  decide_eq_true_iff

theorem lt_iff {x y : Float} : x < y ↔ x.toModel.unpack.lt y.toModel.unpack = true :=
  decide_eq_true_iff

theorem not_isNaN_isInf {x : Float} : (x.isNaN || x.isInf) = false ↔ x.isFinite = true := by
  rw [Float.isNaN, Float.isInf, Float.isFinite, Float.Model.isNaN, Float.Model.isInf,
    Float.Model.isFinite]
  cases x.toModel.unpack with
  | infinity sign | notANumber => exact iff_of_false nofun nofun
  | zero sign | finite sign m e hm => exact iff_of_true rfl rfl

theorem not_lt_zero {x : Float} (h : x.isFinite = true) : ¬x < 0 ↔ 0 ≤ x := by
  rw [Float.isFinite, Float.Model.isFinite] at h
  rw [lt_iff, le_iff, zero_unpack]
  cases hx : x.toModel.unpack with
  | infinity sign | notANumber =>
    rw [hx] at h
    cases h
  | zero sign => cases sign <;> decide
  | finite sign m e hm =>
    cases sign with
    | negative => exact iff_of_false (fun hnonneg => hnonneg rfl) nofun
    | positive => exact iff_of_true nofun rfl

theorem limit_le {x : Float} (h : x.isFinite = true) (hpos : 0 ≤ x) :
    18446744073709551616 ≤ x ↔ 1023 + 64 ≤ exponentField x := by
  rw [Float.isFinite, Float.Model.isFinite] at h
  rw [le_iff, zero_unpack] at hpos
  rw [le_iff, limit_unpack]
  cases hx : x.toModel.unpack with
  | infinity sign | notANumber =>
    rw [hx] at h
    cases h
  | zero sign =>
    rw [exponentField_of_zero hx]
    cases sign <;> decide
  | finite sign m e hm =>
    rw [hx] at hpos
    cases sign with
    | negative => cases hpos
    | positive =>
      have hle : (UnpackedFloat.finite .positive (2 ^ 52) 12 (by decide)).le
          (.finite .positive m e hm) = true ↔ 12 < e ∨ (12 = e ∧ 2 ^ 52 ≤ m) := by
        change ((compare 12 e).then (compare (2 ^ 52) m)).isLE = true ↔ _
        rw [Ordering.isLE_then_iff_or, Std.isLE_compare, Std.compare_eq_lt, Std.LawfulEqCmp.compare_eq_iff_eq]
      rw [hle]
      -- The limit is the least number with its exponent, so the fraction does not matter.
      obtain ⟨hfield, rfl⟩ | ⟨hnormal, rfl⟩ := exponentField_of_finite hx
      · omega
      · omega

theorem roundHalfEven_le (numerator denominator : Nat) :
    roundHalfEven numerator denominator ≤ numerator / denominator + 1 := by
  rw [roundHalfEven]
  split_ifs <;> omega

theorem ofBinarySeconds_le {m : Nat} {q : Int} (hm : m < 2 ^ 53) (hq : q ≤ 11) :
    ofBinarySeconds m q ≤ longest := by
  have hpow : Nat.pow 2 q.toNat ≤ 2 ^ 11 := Nat.pow_le_pow_right (by decide) (by omega)
  have hseconds : m * Nat.pow 2 q.toNat ≤ (2 ^ 53 - 1) * 2 ^ 11 := Nat.mul_le_mul (by omega) hpow
  calc ofBinarySeconds m q
    _ ≤ m * Nat.pow 2 q.toNat * nanosPerSecond / Nat.pow 2 (-q).toNat + 1 := roundHalfEven_le _ _
    _ ≤ m * Nat.pow 2 q.toNat * nanosPerSecond + 1 := Nat.succ_le_succ (Nat.div_le_self _ _)
    _ ≤ (2 ^ 53 - 1) * 2 ^ 11 * nanosPerSecond + 1 :=
      Nat.succ_le_succ (Nat.mul_le_mul_right _ hseconds)
    _ ≤ longest := by decide

/-- A number of seconds is a duration, no time at all or too long, and each of them just if it is what
its name says. -/
theorem ofFloatSeconds_spec (x : Float) :
    match ofFloatSeconds x with
    | .exact duration => x.isFinite = true ∧ 0 ≤ x ∧ ¬Beyond x ∧ duration ≤ longest
    | .invalid => ¬(x.isFinite = true ∧ 0 ≤ x)
    | .tooLong => Beyond x := by
  by_cases hvalid : x.isFinite = true ∧ 0 ≤ x
  · obtain ⟨hfinite, hpos⟩ := hvalid
    have hbeyond : Beyond x ↔ 1023 + 64 ≤ exponentField x := by
      rw [Beyond, and_iff_right hfinite, limit_le hfinite hpos]
    have hcases : ofFloatSeconds x =
        if 1023 + 64 ≤ exponentField x then .tooLong
        else if exponentField x = 0 then .exact (ofBinarySeconds (fractionField x) (-1074))
        else .exact (ofBinarySeconds (Nat.pow 2 52 + fractionField x) (exponentField x - 1075)) := by
      rw [ofFloatSeconds, not_isNaN_isInf.mpr hfinite, Bool.false_or,
        decide_eq_false ((not_lt_zero hfinite).mpr hpos), if_neg Bool.false_ne_true]
      rfl
    have hfraction : fractionField x < 2 ^ 52 := Nat.mod_lt _ (Nat.two_pow_pos 52)
    have hnormal : Nat.pow 2 52 + fractionField x < 2 ^ 53 := Nat.add_lt_add_left hfraction (2 ^ 52)
    rw [hcases]
    split_ifs with hlong hleast
    · exact hbeyond.mpr hlong
    · exact ⟨hfinite, hpos, mt hbeyond.mp hlong, ofBinarySeconds_le (by omega) (by decide)⟩
    · exact ⟨hfinite, hpos, mt hbeyond.mp hlong, ofBinarySeconds_le hnormal (by omega)⟩
  · have hinvalid : ofFloatSeconds x = .invalid := by
      refine if_pos (eq_true_of_ne_false fun hnot => ?_)
      rw [Bool.or_eq_false_iff, not_isNaN_isInf, decide_eq_false_iff_not] at hnot
      exact hvalid ⟨hnot.1, (not_lt_zero hnot.1).mp hnot.2⟩
    rw [hinvalid]
    exact hvalid

theorem Beyond.nonneg {x : Float} (h : Beyond x) : 0 ≤ x := by
  obtain ⟨hfinite, hlimit⟩ := h
  rw [Float.isFinite, Float.Model.isFinite] at hfinite
  rw [le_iff, limit_unpack] at hlimit
  rw [le_iff, zero_unpack]
  cases hx : x.toModel.unpack with
  | infinity sign | notANumber =>
    rw [hx] at hfinite
    cases hfinite
  | zero sign => cases sign <;> decide
  | finite sign m e hm =>
    rw [hx] at hlimit
    cases sign with
    | negative => cases hlimit
    | positive => rfl

theorem ofFloatSeconds_eq_tooLong {x : Float} : ofFloatSeconds x = .tooLong ↔ Beyond x := by
  have hspec := ofFloatSeconds_spec x
  cases hx : ofFloatSeconds x with
  | exact duration =>
    rw [hx] at hspec
    simp [hspec.2.2.1]
  | invalid =>
    rw [hx] at hspec
    simp [mt (fun h : Beyond x => And.intro h.1 h.nonneg) hspec]
  | tooLong =>
    rw [hx] at hspec
    simp [hspec]

theorem le_longest_of_exact {x : Float} {duration : Duration} (h : ofFloatSeconds x = .exact duration) :
    duration ≤ longest := by
  have hspec := ofFloatSeconds_spec x
  rw [h] at hspec
  exact hspec.2.2.2

/-- What is read off a number of seconds is a duration or an error, and not the first error unless the
number is too long. -/
theorem settles_of_ofFloatSeconds {ε : Type} {result : Except ε Duration} {tooLong refusal : ε}
    {x : Float}
    (h : result = match ofFloatSeconds x with
      | .exact duration => .ok duration
      | .invalid => .error refusal
      | .tooLong => .error tooLong) :
    (Beyond x → result = .error tooLong) ∧
      (¬Beyond x →
        (∃ duration, duration ≤ longest ∧ result = .ok duration) ∨ result = .error refusal) := by
  subst h
  rw [← ofFloatSeconds_eq_tooLong]
  cases hx : ofFloatSeconds x with
  | exact duration => exact ⟨nofun, fun _ => .inl ⟨duration, le_longest_of_exact hx, rfl⟩⟩
  | invalid => exact ⟨nofun, fun _ => .inr rfl⟩
  | tooLong => exact ⟨fun _ => rfl, fun h => (h rfl).elim⟩

end Duration

def WrittenBeyond (text : String) : Prop :=
  ∃ x, Decimal.readFloat? text = some x ∧ Duration.Beyond x

/-- The text of a duration is taken for a duration or refused. It takes a number that is too long for
loading to break off. -/
theorem Arguments.duration_spec (args : Arguments) (name text : String) :
    (WrittenBeyond text → args.duration name text = .error .overflow) ∧
      (¬WrittenBeyond text →
        (∃ duration, duration ≤ Duration.longest ∧ args.duration name text = .ok duration) ∨
          args.duration name text = .error (.badArgument args.node name text)) := by
  rw [duration, interpret, WrittenBeyond]
  cases Decimal.readFloat? text with
  | none =>
    refine ⟨?_, fun _ => .inr rfl⟩
    rintro ⟨_, hx, _⟩
    cases hx
  | some x =>
    have hbeyond : (∃ y, some x = some y ∧ Duration.Beyond y) ↔ Duration.Beyond x := by simp
    rw [hbeyond]
    exact Duration.settles_of_ofFloatSeconds rfl

end BehaviorTree
