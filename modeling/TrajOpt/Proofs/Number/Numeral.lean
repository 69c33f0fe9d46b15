import TrajOpt.Number.Numeral
import TrajOpt.Proofs.Scalar.Operations

/-!
# Comparing numbers as they were given

Integers are compared with integers exactly, and all other numbers as doubles. An integer is always
a number, also as a double: at worst it is infinite there. So a comparison of two numbers comes out
true exactly if the opposite one does not, and only what is not a number is on neither side.

## Main statements

* `Double.isNumber_ofInt` - an integer as a double is a number.
* `Double.beq_self` - a number equals itself.
* `Numeral.isNumber_iff` - a number as it was given is one as a double.
* `Numeral.not_le_iff`, `Numeral.not_lt_iff` - what it means that a comparison does not come out
  true.
-/

namespace TrajOpt

namespace Arith

variable {α : Type} [Scalar α] [LawfulScalar α] {a b : α}

/-- A comparison does not come out true if one of the two is not a number, or if the opposite one
comes out true. -/
theorem not_le_iff : ¬ b ≤ a ↔ (isNumber a = true → isNumber b = true → a < b) := by
  refine ⟨fun h ha hb => lt_of_not_le hb ha h, fun h hle => ?_⟩
  obtain ⟨hb, ha, -⟩ := LawfulScalar.le_iff.1 hle
  exact lt_irrefl a (lt_of_lt_of_le (h ha hb) hle)

theorem not_lt_iff : ¬ b < a ↔ (isNumber a = true → isNumber b = true → a ≤ b) := by
  refine ⟨fun h ha hb => ?_, fun h hlt => ?_⟩
  · by_contra hle
    exact h (lt_of_not_le ha hb hle)
  · obtain ⟨hb, ha, -⟩ := LawfulScalar.lt_iff.1 hlt
    exact lt_irrefl b (lt_of_lt_of_le hlt (h ha hb))

end Arith

namespace Double

open Float.Model Float.Model.UnpackedFloat Binary64

theorem isNumber_of_hasSign {a : Float} {s : Sign} (h : HasSign s (rawDouble a)) :
    Arith.isNumber a = true := by
  rw [isNumber_iff_raw]
  intro hnumber
  rw [hnumber] at h
  exact h

theorem hasSign_finite {s : Sign} {m : Nat} {e : Int} {hm : 0 < m} :
    HasSign s (.finite s m e hm) := rfl

/-- A number without a negative sign times a positive one is a number of that kind. The product is
given by an equation, so that nothing computes it. -/
theorem hasSign_of_eq_mul {f g : UnpackedFloat} {m : Nat} {e : Int} {hm : 0 < m}
    (hg : HasSign .positive g)
    (hf : f = UnpackedFloat.mul Format.binary64 g (.finite .positive m e hm)) :
    HasSign .positive f := by
  subst hf
  cases g with
  | notANumber => exact hg.elim
  | infinity s =>
    obtain rfl : s = .positive := hg
    rfl
  | zero s =>
    obtain rfl : s = .positive := hg
    rfl
  | finite s m' e' hm' =>
    obtain rfl : s = .positive := hg
    exact hasSign_roundWithAccuracy _ _ _ _

/-- A natural number is rounded to a number without a negative sign. -/
theorem hasSign_ofNat_unpacked (k : Nat) :
    HasSign .positive (UnpackedFloat.ofNat Format.binary64 k) := by
  have hk : ¬ (k : Int) < 0 := by omega
  simp only [UnpackedFloat.ofNat, UnpackedFloat.ofInt, UnpackedFloat.normalize]
  cases hcompare : compare (k : Int) 0 with
  | lt => exact absurd (compare_lt_iff_lt.1 hcompare) hk
  | eq => rfl
  | gt => exact hasSign_roundWithAccuracy _ _ _ _

theorem hasSign_ofScientific (k : Nat) :
    HasSign .positive (UnpackedFloat.ofScientific Format.binary64 k 0) := by
  by_cases hk : k = 0
  · simp [UnpackedFloat.ofScientific, hk, HasSign]
  · apply hasSign_of_eq_mul hasSign_finite
    simp only [UnpackedFloat.ofScientific, dif_neg hk]
    rw [if_neg (by simp), if_neg (by simp), if_pos le_rfl]

theorem hasSign_ofNat (k : Nat) : HasSign .positive (rawDouble (Float.ofNat k)) := by
  simp only [Float.ofNat, OfScientific.ofScientific, Float.ofScientific]
  split
  · -- A mantissa of 53 bits is multiplied by the first power of ten, which is one.
    have hone : rawDouble (Float.exactlyRepresentablePowersOfTen[0]) =
        .finite .positive (2 ^ 52) (-52) (by decide) := rfl
    simp only [Bool.false_eq_true, if_false, rawDouble_mul]
    exact hasSign_unpack_pack (hasSign_of_eq_mul
      (hasSign_unpack_pack (hasSign_ofNat_unpacked _)) (by rw [hone]; rfl))
  · exact hasSign_unpack_pack (hasSign_ofScientific k)

/-- An integer as a double is a number, if perhaps an infinite one. -/
theorem isNumber_ofInt (k : Int) : Arith.isNumber (Float.ofInt k) = true := by
  cases k with
  | ofNat k => exact isNumber_of_hasSign (hasSign_ofNat k)
  | negSucc k =>
    have hneg : Float.ofInt (.negSucc k) = -Float.ofNat k.succ := rfl
    rw [hneg, LawfulScalar.isNumber_neg]
    exact isNumber_of_hasSign (hasSign_ofNat _)

/-- A number is equal to itself. -/
theorem beq_self {a : Float} (h : Arith.isNumber a = true) : (a == a) = true := by
  have hnumber := isNumber_iff_raw.1 h
  show (UnpackedFloat.compare (rawDouble a) (rawDouble a) == some .eq) = true
  rw [compare_eq (isCanonical_rawDouble a) (isCanonical_rawDouble a) hnumber hnumber,
    compare_eq_iff_eq.2 rfl]
  rfl

end Double

namespace Numeral

variable {a b : Numeral}

open Arith (isNumber)

theorem lt_of_int? {i j : Int} (ha : a.int? = some i) (hb : b.int? = some j) : a < b ↔ i < j := by
  show a.below b = true ↔ i < j
  simp [below, ha, hb]

theorem le_of_int? {i j : Int} (ha : a.int? = some i) (hb : b.int? = some j) : a ≤ b ↔ i ≤ j := by
  show a.atMost b = true ↔ i ≤ j
  simp [atMost, ha, hb]

/-- Two numbers that are not both given as integers are compared as doubles. -/
theorem lt_iff_toFloat (h : a.int? = none ∨ b.int? = none) : a < b ↔ a.toFloat < b.toFloat := by
  show a.below b = true ↔ a.toFloat < b.toFloat
  obtain h | h := h <;> simp [below, h]

theorem le_iff_toFloat (h : a.int? = none ∨ b.int? = none) : a ≤ b ↔ a.toFloat ≤ b.toFloat := by
  show a.atMost b = true ↔ a.toFloat ≤ b.toFloat
  obtain h | h := h <;> simp [atMost, h]

theorem isNumber_of_int? {i : Int} (h : a.int? = some i) : isNumber a = true :=
  decide_eq_true ((le_of_int? h h).2 le_rfl)

/-- What was given as a number is one as a double. -/
theorem isNumber_iff : isNumber a = true ↔ isNumber a.toFloat = true := by
  cases a with
  | int k => exact iff_of_true (isNumber_of_int? rfl) (Double.isNumber_ofInt k)
  | double x =>
    rw [isNumber, isNumber, decide_eq_true_iff, decide_eq_true_iff]
    exact le_iff_toFloat (.inl rfl)
  | truth b => exact iff_of_true (isNumber_of_int? rfl) (by cases b <;> decide)

/-- Two numbers are compared as integers, or else as doubles. -/
theorem int?_cases (a b : Numeral) :
    (∃ i j, a.int? = some i ∧ b.int? = some j) ∨ (a.int? = none ∨ b.int? = none) := by
  cases a.int? <;> cases b.int? <;> simp

/-- A number is below another one, or at least as large. -/
theorem not_le_iff : ¬ b ≤ a ↔ (isNumber a = true → isNumber b = true → a < b) := by
  obtain ⟨i, j, hi, hj⟩ | h := int?_cases a b
  · simp [le_of_int? hj hi, lt_of_int? hi hj, isNumber_of_int? hi, isNumber_of_int? hj]
  · rw [le_iff_toFloat h.symm, lt_iff_toFloat h, isNumber_iff, isNumber_iff]
    exact Arith.not_le_iff

/-- A number is at most another one, or above it. -/
theorem not_lt_iff : ¬ b < a ↔ (isNumber a = true → isNumber b = true → a ≤ b) := by
  obtain ⟨i, j, hi, hj⟩ | h := int?_cases a b
  · simp [lt_of_int? hj hi, le_of_int? hi hj, isNumber_of_int? hi, isNumber_of_int? hj]
  · rw [lt_iff_toFloat h.symm, le_iff_toFloat h, isNumber_iff, isNumber_iff]
    exact Arith.not_lt_iff

/-- Only numbers are compared. -/
theorem isNumber_of_le (h : a ≤ b) : isNumber a = true ∧ isNumber b = true := by
  obtain ⟨i, j, hi, hj⟩ | hdouble := int?_cases a b
  · exact ⟨isNumber_of_int? hi, isNumber_of_int? hj⟩
  · rw [le_iff_toFloat hdouble, LawfulScalar.le_iff] at h
    exact ⟨isNumber_iff.2 h.1, isNumber_iff.2 h.2.1⟩

theorem isNumber_of_lt (h : a < b) : isNumber a = true ∧ isNumber b = true := by
  obtain ⟨i, j, hi, hj⟩ | hdouble := int?_cases a b
  · exact ⟨isNumber_of_int? hi, isNumber_of_int? hj⟩
  · rw [lt_iff_toFloat hdouble, LawfulScalar.lt_iff] at h
    exact ⟨isNumber_iff.2 h.1, isNumber_iff.2 h.2.1⟩

end Numeral

end TrajOpt
