import Mathlib
import TrajOpt.Proofs.Scalar.Laws

/-!
# Exact arithmetic

The real numbers are scalars whose operations are exact and whose numbers are all finite. What the
algorithms compute with them is what they are meant to compute.
-/

namespace TrajOpt

noncomputable instance : Scalar ℝ where
  sqrt := Real.sqrt
  sin := Real.sin
  cos := Real.cos
  tan := Real.tan
  exp := Real.exp
  log := Real.log
  tanh := Real.tanh
  abs := abs
  isFinite _ := true
  decideLT := Real.decidableLT
  decideLE := Real.decidableLE

theorem isNumber_real (a : ℝ) : Arith.isNumber a = true := decide_eq_true le_rfl

/-- Exact operations keep the laws of rounded ones. -/
noncomputable instance : LawfulScalar ℝ where
  value a := a
  lt_iff {a b} := by simp [isNumber_real]
  le_iff {a b} := by simp [isNumber_real]
  isNumber_zero := isNumber_real 0
  value_zero := EReal.coe_zero
  isFinite_iff {a} := by simp [isNumber_real, Scalar.isFinite]
  isNumber_neg {a} := by simp [isNumber_real]
  value_neg {a} _ := EReal.coe_neg a
  isNumber_abs {a} := by simp [isNumber_real]
  value_abs {a} _ := by
    rw [← EReal.coe_neg]
    exact EReal.coe_strictMono.monotone.map_max
  isNumber_of_sub {a b} _ := ⟨isNumber_real a, isNumber_real b⟩
  isFinite_of_sub _ := ⟨rfl, rfl⟩
  sub_lt {a b c} h := by
    rw [← EReal.coe_add, EReal.coe_lt_coe_iff]
    linarith
  lt_sub {a b c} h := by
    rw [← EReal.coe_add, EReal.coe_lt_coe_iff]
    linarith
  isNumber_of_div {a b} _ := ⟨isNumber_real a, isNumber_real b⟩
  pos_of_div_pos {a b} hb h := by
    have hmul := mul_pos h hb
    rwa [div_mul_cancel₀ a hb.ne'] at hmul
  isFinite_of_div_lt _ _ _ := rfl

noncomputable instance : ExactScalar ℝ where
  isNumber_sub _ _ _ := isNumber_real _
  value_sub _ := EReal.coe_sub _ _

namespace Arith

theorem larger_eq_max (a b : ℝ) : larger a b = max a b := by
  unfold larger
  split
  next h => exact (max_eq_right h.le).symm
  next h => exact (max_eq_left (not_lt.1 h)).symm

theorem smaller_eq_min (a b : ℝ) : smaller a b = min a b := by
  unfold smaller
  split
  next h => exact (min_eq_right h.le).symm
  next h => exact (min_eq_left (not_lt.1 h)).symm

theorem maximum_eq_max (a b : ℝ) : maximum a b = max a b := by
  simp only [maximum, isNumber_real, if_true, larger_eq_max]

theorem minimum_eq_min (a b : ℝ) : minimum a b = min a b := by
  simp only [minimum, isNumber_real, if_true, smaller_eq_min]

end Arith

end TrajOpt
