import Mathlib
import TrajOpt.Linear.Vec

/-!
# Laws of scalars

A lawful scalar stands for an extended real number, unless it is not a number. Comparisons, signs
and absolute values are exact. Differences and quotients are rounded, and all that is asked of them
is what rounding to the nearest scalar keeps: the rounded difference is on the same side of every
scalar as the exact one, or equal to that scalar. Where nothing is rounded, a difference is the one
of extended real numbers, as far as that has a meaning.

## Main definitions

* `LawfulScalar` - the laws.
* `ExactScalar` - the law of differences that are not rounded.
* `Arith.IsLower` - a property that passes on to smaller numbers.

## Main statements

* `Arith.IsLower.maximum_iff` - a maximum has such a property exactly if both numbers have it.
* `Vec.maximum_iff` - the same for the largest entry of a vector.
* `Arith.sub_le_iff`, `Arith.abs_sub_le_iff` - exact differences below a bound.
-/

namespace TrajOpt

/-- Scalars that stand for extended real numbers, with rounded operations. -/
class LawfulScalar (α : Type) [Scalar α] where
  /-- The number that a scalar stands for; of no meaning for what is not a number. -/
  value : α → EReal
  lt_iff {a b : α} :
    a < b ↔ Arith.isNumber a = true ∧ Arith.isNumber b = true ∧ value a < value b
  le_iff {a b : α} :
    a ≤ b ↔ Arith.isNumber a = true ∧ Arith.isNumber b = true ∧ value a ≤ value b
  isNumber_zero : Arith.isNumber (0 : α) = true
  value_zero : value 0 = 0
  isFinite_iff {a : α} :
    Scalar.isFinite a = true ↔ Arith.isNumber a = true ∧ value a ≠ ⊥ ∧ value a ≠ ⊤
  isNumber_neg {a : α} : Arith.isNumber (-a) = Arith.isNumber a
  value_neg {a : α} : Arith.isNumber a = true → value (-a) = -value a
  isNumber_abs {a : α} : Arith.isNumber (Scalar.abs a) = Arith.isNumber a
  value_abs {a : α} : Arith.isNumber a = true → value (Scalar.abs a) = max (value a) (-value a)
  isNumber_of_sub {a b : α} :
    Arith.isNumber (a - b) = true → Arith.isNumber a = true ∧ Arith.isNumber b = true
  isFinite_of_sub {a b : α} :
    Scalar.isFinite (a - b) = true → Scalar.isFinite a = true ∧ Scalar.isFinite b = true
  /-- A rounded difference is below a scalar only if the exact one is. -/
  sub_lt {a b c : α} : a - b < c → value a < value b + value c
  /-- A rounded difference is above a scalar only if the exact one is. -/
  lt_sub {a b c : α} : c < a - b → value b + value c < value a
  isNumber_of_div {a b : α} :
    Arith.isNumber (a / b) = true → Arith.isNumber a = true ∧ Arith.isNumber b = true
  pos_of_div_pos {a b : α} : 0 < b → 0 < a / b → 0 < a
  /-- The quotient of an infinite number is below nothing. -/
  isFinite_of_div_lt {a b c : α} : 0 < a → 0 < b → a / b < c → Scalar.isFinite a = true

namespace Arith

variable {α : Type} [Scalar α] [LawfulScalar α] {a b c : α}

open LawfulScalar

theorem isNumber_of_lt_left (h : a < b) : isNumber a = true := (lt_iff.1 h).1

theorem isNumber_of_lt_right (h : a < b) : isNumber b = true := (lt_iff.1 h).2.1

theorem lt_trans (hab : a < b) (hbc : b < c) : a < c := by
  obtain ⟨ha, -, hab⟩ := lt_iff.1 hab
  obtain ⟨-, hc, hbc⟩ := lt_iff.1 hbc
  exact lt_iff.2 ⟨ha, hc, hab.trans hbc⟩

theorem le_of_lt (h : a < b) : a ≤ b := by
  obtain ⟨ha, hb, h⟩ := lt_iff.1 h
  exact le_iff.2 ⟨ha, hb, h.le⟩

theorem lt_of_le_of_lt (hab : a ≤ b) (hbc : b < c) : a < c := by
  obtain ⟨ha, -, hab⟩ := le_iff.1 hab
  obtain ⟨-, hc, hbc⟩ := lt_iff.1 hbc
  exact lt_iff.2 ⟨ha, hc, hab.trans_lt hbc⟩

theorem lt_of_lt_of_le (hab : a < b) (hbc : b ≤ c) : a < c := by
  obtain ⟨ha, -, hab⟩ := lt_iff.1 hab
  obtain ⟨-, hc, hbc⟩ := le_iff.1 hbc
  exact lt_iff.2 ⟨ha, hc, hab.trans_le hbc⟩

theorem lt_irrefl (a : α) : ¬ a < a := fun h => (lt_iff.1 h).2.2.ne rfl

theorem lt_of_not_le (ha : isNumber a = true) (hb : isNumber b = true) (h : ¬ a ≤ b) : b < a :=
  lt_iff.2 ⟨hb, ha, lt_of_not_ge fun hab => h (le_iff.2 ⟨ha, hb, hab⟩)⟩

theorem value_larger (ha : isNumber a = true) (hb : isNumber b = true) :
    value (larger a b) = max (value a) (value b) := by
  unfold larger
  split
  next h => exact (max_eq_right (lt_iff.1 h).2.2.le).symm
  next h => exact (max_eq_left (not_lt.1 fun hv => h (lt_iff.2 ⟨ha, hb, hv⟩))).symm

omit [LawfulScalar α] in
theorem isNumber_smaller (ha : isNumber a = true) (hb : isNumber b = true) :
    isNumber (smaller a b) = true := by
  unfold smaller
  split
  · exact hb
  · exact ha

theorem value_smaller (ha : isNumber a = true) (hb : isNumber b = true) :
    value (smaller a b) = min (value a) (value b) := by
  unfold smaller
  split
  next h => exact (min_eq_right (lt_iff.1 h).2.2.le).symm
  next h => exact (min_eq_left (not_lt.1 fun hv => h (lt_iff.2 ⟨hb, ha, hv⟩))).symm

/-- What is not a number is not exceeded. -/
theorem larger_of_not_isNumber (ha : ¬ isNumber a = true) : larger a b = a :=
  if_neg fun h => ha (isNumber_of_lt_left h)

theorem isNumber_of_isFinite (h : Scalar.isFinite a = true) : isNumber a = true :=
  (isFinite_iff.1 h).1

/-- What is subtracted is smaller if the difference is positive. -/
theorem lt_of_sub_pos (h : 0 < a - b) : b < a := by
  obtain ⟨ha, hb⟩ := isNumber_of_sub (isNumber_of_lt_right h)
  have hvalue := lt_sub h
  rw [value_zero, add_zero] at hvalue
  exact lt_iff.2 ⟨hb, ha, hvalue⟩

/-- Whether `a < b + c` holds of the numbers that the scalars stand for, without rounding. -/
def LtAdd (a b c : α) : Prop :=
  isNumber a = true ∧ isNumber b = true ∧ value a < value b + value c

theorem ltAdd_of_sub_lt (h : a - b < c) : LtAdd a b c := by
  obtain ⟨ha, hb⟩ := isNumber_of_sub (isNumber_of_lt_left h)
  exact ⟨ha, hb, sub_lt h⟩

/-- Two scalars whose rounded difference is small are close without rounding. -/
theorem ltAdd_of_abs_sub_lt (h : Scalar.abs (a - b) < c) : LtAdd a b c ∧ LtAdd b a c := by
  obtain ⟨hnumber, hc, hlt⟩ := lt_iff.1 h
  rw [isNumber_abs] at hnumber
  rw [value_abs hnumber, max_lt_iff] at hlt
  obtain ⟨hup, hdown⟩ := hlt
  refine ⟨ltAdd_of_sub_lt (lt_iff.2 ⟨hnumber, hc, hup⟩), ?_⟩
  have hfinite : Scalar.isFinite (a - b) = true :=
    isFinite_iff.2 ⟨hnumber, fun hbot => by simp [hbot] at hdown, hup.ne_top⟩
  obtain ⟨ha, hb⟩ := isFinite_of_sub hfinite
  refine ⟨isNumber_of_isFinite hb, isNumber_of_isFinite ha, ?_⟩
  have hneg : value (-c) < value (a - b) := by
    rw [value_neg hc]
    exact EReal.neg_lt_comm.1 hdown
  have hlow := lt_sub (lt_iff.2 ⟨isNumber_neg.trans hc, hnumber, hneg⟩)
  rw [value_neg hc, ← sub_eq_add_neg] at hlow
  exact (EReal.sub_lt_iff (.inl hup.ne_bot) (.inr (isFinite_iff.1 hb).2.2)).1 hlow

theorem not_larger_lt (a b : α) : ¬ larger a b < b := by
  unfold larger
  split
  next => exact lt_irrefl b
  next h => exact h

/-- A property of numbers that passes on to smaller ones, such as to be below a bound. -/
structure IsLower (P : α → Prop) : Prop where
  isNumber {a : α} : P a → isNumber a = true
  of_le {a b : α} : a ≤ b → P b → P a

theorem isLower_lt (c : α) : IsLower (· < c) := ⟨isNumber_of_lt_left, lt_of_le_of_lt⟩

theorem isLower_le (c : α) : IsLower (· ≤ c) :=
  ⟨fun h => (le_iff.1 h).1, fun hab hbc => le_iff.2
    ⟨(le_iff.1 hab).1, (le_iff.1 hbc).2.1, (le_iff.1 hab).2.2.trans (le_iff.1 hbc).2.2⟩⟩

theorem isLower_isNumber : IsLower fun a : α => isNumber a = true :=
  ⟨id, fun hab _ => (le_iff.1 hab).1⟩

namespace IsLower

variable {P : α → Prop}

theorem larger_iff (hP : IsLower P) (ha : Arith.isNumber a = true)
    (hb : Arith.isNumber b = true) : P (larger a b) ↔ P a ∧ P b := by
  unfold larger
  split
  next hab => exact ⟨fun h => ⟨hP.of_le (le_of_lt hab) h, h⟩, fun h => h.2⟩
  next hab =>
    refine ⟨fun h => ⟨h, hP.of_le ?_ h⟩, fun h => h.1⟩
    exact le_iff.2 ⟨hb, ha, le_of_not_gt fun hv => hab (lt_iff.2 ⟨ha, hb, hv⟩)⟩

/-- A maximum counts what is not a number, so it has the property exactly if both numbers do. -/
theorem maximum_iff (hP : IsLower P) : P (maximum a b) ↔ P a ∧ P b := by
  unfold maximum
  by_cases ha : Arith.isNumber a = true
  · by_cases hb : Arith.isNumber b = true
    · simp only [ha, hb, if_true]
      exact hP.larger_iff ha hb
    · simp only [ha, hb, if_true, if_false, Bool.false_eq_true]
      exact ⟨fun h => absurd (hP.isNumber h) hb, fun h => h.2⟩
  · simp only [ha, if_false, Bool.false_eq_true]
    exact ⟨fun h => absurd (hP.isNumber h) ha, fun h => h.1⟩

theorem foldl_maximum_iff (hP : IsLower P) {l : List α} :
    P (l.foldl maximum a) ↔ P a ∧ ∀ b ∈ l, P b := by
  induction l generalizing a with
  | nil => simp
  | cons b l ih => simp [ih, hP.maximum_iff, and_assoc]

end IsLower

theorem maximum_lt : maximum a b < c ↔ a < c ∧ b < c := (isLower_lt c).maximum_iff

theorem foldl_maximum_lt {l : List α} : l.foldl maximum a < c ↔ a < c ∧ ∀ b ∈ l, b < c :=
  (isLower_lt c).foldl_maximum_iff

end Arith

namespace Vec

variable {α : Type} [Scalar α] [LawfulScalar α] {n : Nat} {a : α} {v : Vec α n}

/-- The largest entry has a property of smaller numbers exactly if all entries have it. -/
theorem maximum_iff {P : α → Prop} (hP : Arith.IsLower P) :
    P (maximum a v) ↔ P a ∧ ∀ i (h : i < n), P v[i] := by
  rw [maximum, ← Vector.foldl_toList, hP.foldl_maximum_iff]
  refine and_congr_right fun _ => ⟨fun h i hi => h _ (by simp), fun h b hb => ?_⟩
  obtain ⟨i, hi, rfl⟩ := Vector.mem_iff_getElem.1 (Vector.mem_toList_iff.1 hb)
  exact h i hi

end Vec

/-- Scalars whose differences are not rounded. The difference of two numbers is one unless both are
infinite. -/
class ExactScalar (α : Type) [Scalar α] extends LawfulScalar α where
  isNumber_sub {a b : α} : Arith.isNumber a = true → Arith.isNumber b = true →
    Scalar.isFinite a = true ∨ Scalar.isFinite b = true → Arith.isNumber (a - b) = true
  value_sub {a b : α} : Arith.isNumber (a - b) = true → value (a - b) = value a - value b

namespace Arith

open LawfulScalar ExactScalar

variable {α : Type} [Scalar α]

/-- Whether `a ≤ b + c` holds of the numbers that the scalars stand for, without rounding. -/
def LeAdd [LawfulScalar α] (a b c : α) : Prop :=
  isNumber a = true ∧ isNumber b = true ∧ value a ≤ value b + value c

variable [ExactScalar α] {a b c : α}

/-- A bound for a difference moves to the other side. -/
theorem sub_le_iff (hfinite : Scalar.isFinite a = true ∨ Scalar.isFinite b = true)
    (hc : Scalar.isFinite c = true) : a - b ≤ c ↔ LeAdd a b c := by
  obtain ⟨hnumber, hbot, htop⟩ := isFinite_iff.1 hc
  constructor
  · intro h
    obtain ⟨hsub, -, hle⟩ := le_iff.1 h
    obtain ⟨ha, hb⟩ := isNumber_of_sub hsub
    rw [value_sub hsub, EReal.sub_le_iff_le_add (.inr htop) (.inr hbot), add_comm] at hle
    exact ⟨ha, hb, hle⟩
  · rintro ⟨ha, hb, hle⟩
    have hsub := isNumber_sub ha hb hfinite
    refine le_iff.2 ⟨hsub, hnumber, ?_⟩
    rwa [value_sub hsub, EReal.sub_le_iff_le_add (.inr htop) (.inr hbot), add_comm]

/-- A finite number is as close to another as a bound says. -/
theorem abs_sub_le_iff (ha : Scalar.isFinite a = true) (hc : Scalar.isFinite c = true) :
    Scalar.abs (a - b) ≤ c ↔ LeAdd a b c ∧ LeAdd b a c := by
  rw [← sub_le_iff (.inl ha) hc, ← sub_le_iff (.inr ha) hc]
  obtain ⟨hanumber, habot, hatop⟩ := isFinite_iff.1 ha
  have hneg : isNumber (a - b) = true → isNumber (b - a) = true ∧
      value (b - a) = -value (a - b) := by
    intro hsub
    have hb := (isNumber_of_sub hsub).2
    have hsub' := isNumber_sub hb hanumber (.inr ha)
    refine ⟨hsub', ?_⟩
    rw [value_sub hsub, value_sub hsub', EReal.neg_sub (.inl habot) (.inl hatop), sub_eq_add_neg,
      add_comm]
  constructor
  · intro h
    obtain ⟨habs, hcnumber, hle⟩ := le_iff.1 h
    rw [isNumber_abs] at habs
    rw [value_abs habs, max_le_iff] at hle
    obtain ⟨hsub', hvalue⟩ := hneg habs
    exact ⟨le_iff.2 ⟨habs, hcnumber, hle.1⟩, le_iff.2 ⟨hsub', hcnumber, hvalue ▸ hle.2⟩⟩
  · rintro ⟨hup, hdown⟩
    obtain ⟨hsub, hcnumber, hle⟩ := le_iff.1 hup
    refine le_iff.2 ⟨isNumber_abs.trans hsub, hcnumber, ?_⟩
    rw [value_abs hsub, max_le_iff, ← (hneg hsub).2]
    exact ⟨hle, (le_iff.1 hdown).2.2⟩

end Arith

end TrajOpt
