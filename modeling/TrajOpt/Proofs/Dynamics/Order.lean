import Mathlib
import TrajOpt.Dynamics.Integration
import TrajOpt.Proofs.Dynamics.Expansion
import TrajOpt.Proofs.Linear.Forms

/-!
# Orders of the integration schemes

A step whose length is the time itself is a power series, as are its stages. Each stage agrees with
the solution, at half of the time or at the whole of it, below some power of time. The field at a
stage then differs from the field on the solution to first order by the derivative of the field
times what the stage is off. In the weighted sum of a scheme of order three or four these terms
cancel, and what is left is the rule that integrates polynomials of degree three exactly.

## Main definitions

* `Scheme.order` - the order of a scheme.
* `VectorField.advance` - one step of a scheme, where numbers are those of an algebra.
* `VectorField.halfway` - the series of the solution at half of the time.

## Main statements

* `VectorField.simpson` - the rule that the schemes of order three and four approximate.
* `VectorField.halves_cancel`, `VectorField.three_stages_cancel`, `VectorField.four_stages_cancel` -
  what the stages are off by cancels.
* `VectorField.advance_agree` - the step agrees with the solution through the order of the scheme.
-/

namespace TrajOpt

open PowerSeries

/-- The order of a scheme. -/
def Scheme.order : Scheme → ℕ
  | euler => 1
  | midpoint => 2
  | heun => 2
  | rk3 => 3
  | rk4 => 4

namespace VectorField

variable {ι : Type}

section Algebra

variable {A B : Type} [CommRing A] [Algebra ℝ A] [CommRing B] [Algebra ℝ B]

/-- One step of a scheme of length `t` from the point `z`, where numbers are those of an algebra. -/
noncomputable def advance (G : VectorField ι) (s : Scheme) (t : A) (z : ι → A) : ι → A :=
  match s with
  | .euler => z + t • G.value z
  | .midpoint =>
    let k1 := G.value z
    let k2 := G.value (z + (0.5 : ℝ) • t • k1)
    z + t • k2
  | .heun =>
    let k1 := G.value z
    let k2 := G.value (z + t • k1)
    z + (0.5 : ℝ) • t • (k1 + k2)
  | .rk3 =>
    let k1 := G.value z
    let k2 := G.value (z + (0.5 : ℝ) • t • k1)
    let k3 := G.value (z - t • k1 + (2.0 : ℝ) • t • k2)
    z + (1 / 6.0 : ℝ) • t • (k1 + (4.0 : ℝ) • k2 + k3)
  | .rk4 =>
    let k1 := G.value z
    let k2 := G.value (z + (0.5 : ℝ) • t • k1)
    let k3 := G.value (z + (0.5 : ℝ) • t • k2)
    let k4 := G.value (z + t • k3)
    z + (1 / 6.0 : ℝ) • t • (k1 + (2.0 : ℝ) • k2 + (2.0 : ℝ) • k3 + k4)

-- The weights are decimals, as in the scheme, which `ring` and `module` do not read as numerals.
theorem decimal_half : (0.5 : ℝ) = 1 / 2 := by norm_num

theorem decimal_two : (2.0 : ℝ) = 2 := by norm_num

theorem decimal_four : (4.0 : ℝ) = 4 := by norm_num

theorem decimal_six : (6.0 : ℝ) = 6 := by norm_num

theorem compLeft_smul (f : A →ₐ[ℝ] B) (t : A) (v : ι → A) :
    f.compLeft ι (t • v) = f t • f.compLeft ι v := by
  ext i
  exact map_mul f t (v i)

/-- A step may be taken before or after numbers are replaced. -/
theorem compLeft_advance (G : VectorField ι) (f : A →ₐ[ℝ] B) (s : Scheme) (t : A) (z : ι → A) :
    f.compLeft ι (G.advance s t z) = G.advance s (f t) (f.compLeft ι z) := by
  cases s <;> simp only [advance, map_add, map_sub, map_smul, compLeft_smul, compLeft_value]

end Algebra

section Series

variable (G : VectorField ι) (p : ι → ℝ)

/-- The point at which a solution starts, as constant series. -/
noncomputable def origin : ι → ℝ⟦X⟧ := fun i => C (p i)

/-- The series of the solution at half of the time. -/
noncomputable def halfway : ι → ℝ⟦X⟧ := (rescaleAlgHom 0.5).compLeft ι (G.flow p)

@[simp] theorem constantCoeff_origin (i : ι) : constantCoeff (origin p i) = p i :=
  constantCoeff_C _

@[simp] theorem coeff_succ_origin (i : ι) (j : ℕ) : coeff (j + 1) (origin p i) = 0 :=
  coeff_succ_C

@[simp] theorem constantCoeff_flow (i : ι) : constantCoeff (G.flow p i) = p i := by
  rw [← coeff_zero_eq_constantCoeff_apply, flow, coeff_taylor]
  simp

theorem value_origin (i : ι) : G.value (origin p) i = C (coeff 1 (G.flow p i)) := by
  have hvalue : G.value (origin p) i = C (MvPolynomial.eval p (G i)) :=
    MvPolynomial.aeval_algebraMap_apply ℝ⟦X⟧ p (G i)
  rw [hvalue, flow, coeff_taylor]
  simp

@[simp] theorem constantCoeff_value_origin (i : ι) :
    constantCoeff (G.value (origin p) i) = coeff 1 (G.flow p i) := by
  rw [value_origin, constantCoeff_C]

@[simp] theorem coeff_succ_value_origin (i : ι) (j : ℕ) :
    coeff (j + 1) (G.value (origin p) i) = 0 := by
  rw [value_origin, coeff_succ_C]

@[simp] theorem coeff_value_flow (i : ι) (j : ℕ) :
    coeff j (G.value (G.flow p) i) = coeff (j + 1) (G.flow p i) * (j + 1) := by
  rw [← coeff_derivative, derivative_flow, value]

@[simp] theorem constantCoeff_value_flow (i : ι) :
    constantCoeff (G.value (G.flow p) i) = coeff 1 (G.flow p i) := by
  rw [← coeff_zero_eq_constantCoeff_apply, coeff_value_flow]
  simp

theorem coeff_compLeft_rescale (c : ℝ) (z : ι → ℝ⟦X⟧) (i : ι) (j : ℕ) :
    coeff j ((rescaleAlgHom c).compLeft ι z i) = c ^ j * coeff j (z i) := by
  rw [← coeff_rescale, ← coe_rescaleAlgHom]
  rfl

@[simp] theorem coeff_halfway (i : ι) (j : ℕ) :
    coeff j (G.halfway p i) = (1 / 2) ^ j * coeff j (G.flow p i) := by
  rw [halfway, decimal_half, coeff_compLeft_rescale]

@[simp] theorem constantCoeff_halfway (i : ι) : constantCoeff (G.halfway p i) = p i := by
  rw [← coeff_zero_eq_constantCoeff_apply, coeff_halfway]
  simp

@[simp] theorem coeff_value_halfway (i : ι) (j : ℕ) :
    coeff j (G.value (G.halfway p) i) = (1 / 2) ^ j * (coeff (j + 1) (G.flow p i) * (j + 1)) := by
  rw [halfway, ← compLeft_value, decimal_half, coeff_compLeft_rescale, coeff_value_flow]

@[simp] theorem constantCoeff_value_halfway (i : ι) :
    constantCoeff (G.value (G.halfway p) i) = coeff 1 (G.flow p i) := by
  rw [← coeff_zero_eq_constantCoeff_apply, coeff_value_halfway]
  simp

/-- To agree is to have the same constant and the same coefficients after it. -/
theorem agree_succ {k : ℕ} {v w : ι → ℝ⟦X⟧} (h0 : ∀ i, constantCoeff (v i) = constantCoeff (w i))
    (h : ∀ i, ∀ j < k, coeff (j + 1) (v i) = coeff (j + 1) (w i)) :
    v ≡ w [SMOD remainder ι (k + 1)] := by
  rw [agree_iff]
  intro i j hj
  cases j with
  | zero => simpa using h0 i
  | succ j => exact h i j (by omega)

theorem origin_agree_halfway : origin p ≡ G.halfway p [SMOD remainder ι 1] :=
  agree_succ (fun i => by simp) fun i j hj => absurd hj (Nat.not_lt_zero j)

theorem flow_agree_halfway : G.flow p ≡ G.halfway p [SMOD remainder ι 1] :=
  agree_succ (fun i => by simp) fun i j hj => absurd hj (Nat.not_lt_zero j)

/-- Half of a step with the value halfway leads halfway. -/
theorem half_step : origin p + (1 / 2 : ℝ) • (X : ℝ⟦X⟧) • G.value (G.halfway p) ≡ G.halfway p
    [SMOD remainder ι 2] := by
  refine agree_succ (fun i => by simp) fun i j hj => ?_
  interval_cases j
  simp

/-- The midpoint rule. -/
theorem whole_step : origin p + (X : ℝ⟦X⟧) • G.value (G.halfway p) ≡ G.flow p
    [SMOD remainder ι 3] := by
  refine agree_succ (fun i => by simp) fun i j hj => ?_
  interval_cases j
  · simp
  · simp
    ring

/-- The mean of the values at the ends is the value halfway to first order. -/
theorem mean_of_ends : (1 / 2 : ℝ) • (G.value (origin p) + G.value (G.flow p)) ≡
    G.value (G.halfway p) [SMOD remainder ι 2] := by
  refine agree_succ (fun i => ?_) fun i j hj => ?_
  · simp
    ring
  · interval_cases j
    simp

/-- What the two stages halfway are off by cancels. -/
theorem sum_of_halves : (2 : ℝ) • origin p +
    (1 / 2 : ℝ) • (X : ℝ⟦X⟧) • (G.value (origin p) + G.value (G.halfway p)) ≡
      (2 : ℝ) • G.halfway p [SMOD remainder ι 3] := by
  refine agree_succ (fun i => by simp) fun i j hj => ?_
  interval_cases j <;> simp <;> ring

/-- What the stages are off by cancels in the weights of Simpson's rule. -/
theorem sum_of_stages : (5 : ℝ) • origin p +
    (X : ℝ⟦X⟧) • (G.value (origin p) + (G.value (G.halfway p) + G.value (G.halfway p))) ≡
      (4 : ℝ) • G.halfway p + G.flow p [SMOD remainder ι 4] := by
  refine agree_succ (fun i => by simp; ring) fun i j hj => ?_
  interval_cases j <;> simp <;> ring

/-- Simpson's rule. -/
theorem simpson : origin p + (1 / 6 : ℝ) • (X : ℝ⟦X⟧) • (G.value (origin p) +
    (4 : ℝ) • G.value (G.halfway p) + G.value (G.flow p)) ≡ G.flow p [SMOD remainder ι 5] := by
  refine agree_succ (fun i => by simp) fun i j hj => ?_
  interval_cases j <;> simp <;> ring

end Series

section Stages

variable (G : VectorField ι) {p : ι → ℝ} {k : ℕ} {v : ι → ℝ⟦X⟧}

/-- A stage halfway. -/
theorem half_agree (hv : v ≡ G.value (G.halfway p) [SMOD remainder ι 1]) :
    origin p + (1 / 2 : ℝ) • (X : ℝ⟦X⟧) • v ≡ G.halfway p [SMOD remainder ι 2] :=
  (SModEq.rfl.add (agree_smul (agree_smul_X hv) _)).trans (G.half_step p)

/-- A stage at the end. -/
theorem whole_agree (hv : v ≡ G.value (G.halfway p) [SMOD remainder ι k]) (hk : k ≤ 2) :
    origin p + (X : ℝ⟦X⟧) • v ≡ G.flow p [SMOD remainder ι (k + 1)] :=
  (SModEq.rfl.add (agree_smul_X hv)).trans (agree_mono (G.whole_step p) (Nat.succ_le_succ hk))

/-- The weights of Simpson's rule on values that are not those on the solution. -/
theorem simpson_agree (hk : k ≤ 4)
    (hv : v ≡ G.value (origin p) + (4 : ℝ) • G.value (G.halfway p) + G.value (G.flow p)
      [SMOD remainder ι k]) :
    origin p + (1 / 6 : ℝ) • (X : ℝ⟦X⟧) • v ≡ G.flow p [SMOD remainder ι (k + 1)] :=
  (SModEq.rfl.add (agree_smul (agree_smul_X hv) _)).trans
    (agree_mono (G.simpson p) (Nat.succ_le_succ hk))

theorem first_stage (p : ι → ℝ) :
    origin p + (1 / 2 : ℝ) • (X : ℝ⟦X⟧) • G.value (origin p) ≡ G.halfway p [SMOD remainder ι 2] :=
  G.half_agree (G.value_congr (G.origin_agree_halfway p))

/-- The stage at the end that is extrapolated from two values. -/
theorem extrapolation_agree (hv : v ≡ G.value (G.halfway p) [SMOD remainder ι 1]) :
    origin p - (X : ℝ⟦X⟧) • G.value (origin p) + (2 : ℝ) • (X : ℝ⟦X⟧) • v ≡ G.flow p
      [SMOD remainder ι 2] := by
  have hmean := (hv.add hv).sub (G.value_congr (G.origin_agree_halfway p))
  rw [add_sub_cancel_right] at hmean
  convert G.whole_agree hmean one_le_two using 1
  rw [smul_sub (X : ℝ⟦X⟧), smul_add (X : ℝ⟦X⟧)]
  generalize (X : ℝ⟦X⟧) • G.value (origin p) = d1, (X : ℝ⟦X⟧) • v = d2
  module

end Stages

section Schemes

variable (G : VectorField ι) (p : ι → ℝ)

theorem advance_euler : G.advance .euler X (origin p) ≡ G.flow p [SMOD remainder ι 2] :=
  G.whole_agree (G.value_congr (G.origin_agree_halfway p)) (by norm_num)

theorem advance_midpoint : G.advance .midpoint X (origin p) ≡ G.flow p [SMOD remainder ι 3] := by
  simp only [advance, decimal_half]
  exact G.whole_agree (G.value_congr (G.first_stage p)) le_rfl

theorem advance_heun : G.advance .heun X (origin p) ≡ G.flow p [SMOD remainder ι 3] := by
  have hk2 := G.value_congr (G.advance_euler p)
  have hmean := (agree_smul (SModEq.rfl.add hk2) _).trans (G.mean_of_ends p)
  have hstep := G.whole_agree hmean le_rfl
  rw [smul_comm] at hstep
  simpa only [advance, decimal_half] using hstep

section Cancellation

variable {p} {k2 k3 : ι → ℝ⟦X⟧}

/-- What the two stages halfway are off by cancels to one power more. -/
theorem halves_cancel (hk2 : k2 ≡ G.value (G.halfway p) [SMOD remainder ι 2]) :
    origin p + (1 / 2 : ℝ) • (X : ℝ⟦X⟧) • G.value (origin p) - G.halfway p +
      (origin p + (1 / 2 : ℝ) • (X : ℝ⟦X⟧) • k2 - G.halfway p) ≡ 0 [SMOD remainder ι 3] := by
  have hsum := (SModEq.rfl.add (agree_smul (agree_smul_X (SModEq.rfl.add hk2)) _)).trans
    (G.sum_of_halves p)
  rw [← sub_smodEq_zero] at hsum
  convert hsum using 1
  rw [smul_add (X : ℝ⟦X⟧)]
  generalize (X : ℝ⟦X⟧) • G.value (origin p) = d1, (X : ℝ⟦X⟧) • k2 = d2
  module

/-- In the third order scheme what the stages are off by cancels. -/
theorem three_stages_cancel (hk2 : k2 ≡ G.value (G.halfway p) [SMOD remainder ι 2]) :
    (4 : ℝ) • (origin p + (1 / 2 : ℝ) • (X : ℝ⟦X⟧) • G.value (origin p) - G.halfway p) +
      (origin p - (X : ℝ⟦X⟧) • G.value (origin p) + (2 : ℝ) • (X : ℝ⟦X⟧) • k2 - G.flow p) ≡ 0
      [SMOD remainder ι 3] := by
  have hsum := (SModEq.rfl.add (agree_smul_X (SModEq.rfl.add (hk2.add hk2)))).trans
    (agree_mono (G.sum_of_stages p) (by norm_num))
  rw [← sub_smodEq_zero] at hsum
  convert hsum using 1
  simp only [smul_add (X : ℝ⟦X⟧)]
  generalize (X : ℝ⟦X⟧) • G.value (origin p) = d1, (X : ℝ⟦X⟧) • k2 = d2
  module

/-- In the fourth order scheme what the stages are off by cancels. -/
theorem four_stages_cancel
    (hsum : k2 + k3 ≡ G.value (G.halfway p) + G.value (G.halfway p) [SMOD remainder ι 3]) :
    (2 : ℝ) • (origin p + (1 / 2 : ℝ) • (X : ℝ⟦X⟧) • G.value (origin p) - G.halfway p) +
      (2 : ℝ) • (origin p + (1 / 2 : ℝ) • (X : ℝ⟦X⟧) • k2 - G.halfway p) +
      (origin p + (X : ℝ⟦X⟧) • k3 - G.flow p) ≡ 0 [SMOD remainder ι 4] := by
  have hstages := (SModEq.rfl.add (agree_smul_X (SModEq.rfl.add hsum))).trans (G.sum_of_stages p)
  rw [← sub_smodEq_zero] at hstages
  convert hstages using 1
  simp only [smul_add (X : ℝ⟦X⟧)]
  generalize (X : ℝ⟦X⟧) • G.value (origin p) = d1, (X : ℝ⟦X⟧) • k2 = d2, (X : ℝ⟦X⟧) • k3 = d3
  module

end Cancellation

variable [Fintype ι]

theorem advance_rk3 : G.advance .rk3 X (origin p) ≡ G.flow p [SMOD remainder ι 4] := by
  have hp2 := G.first_stage p
  have hk2 := G.value_congr hp2
  have hp3 := G.extrapolation_agree (agree_mono hk2 one_le_two)
  have hfirst : G.DiffersAlong (G.halfway p) 3 _ _ _ :=
    ((DiffersAlong.refl _ (G.value (origin p))).add
      ((G.differsAlong_value (m := 1) hp2 SModEq.rfl (by norm_num) (by norm_num)).smul 4)).add
      (G.differsAlong_value hp3 (G.flow_agree_halfway p) (by norm_num) (by norm_num))
  simp only [advance, decimal_half, decimal_two, decimal_four, decimal_six]
  refine G.simpson_agree (k := 3) (by norm_num) (hfirst.agree ?_)
  rw [zero_add]
  exact G.three_stages_cancel hk2

theorem advance_rk4 : G.advance .rk4 X (origin p) ≡ G.flow p [SMOD remainder ι 5] := by
  have hp2 := G.first_stage p
  have hk2 := G.value_congr hp2
  have hp3 := G.half_agree (agree_mono hk2 one_le_two)
  have hk3 := G.value_congr hp3
  have hp4 := G.whole_agree hk3 le_rfl
  have hv2 : G.DiffersAlong (G.halfway p) 4 _ _ _ :=
    G.differsAlong_value (m := 2) hp2 SModEq.rfl (by norm_num) (by norm_num)
  have hv3 : G.DiffersAlong (G.halfway p) 4 _ _ _ :=
    G.differsAlong_value (m := 2) hp3 SModEq.rfl (by norm_num) (by norm_num)
  have hv4 : G.DiffersAlong (G.halfway p) 4 _ _ _ :=
    G.differsAlong_value hp4 (G.flow_agree_halfway p) (by norm_num) (by norm_num)
  -- Both values halfway agree with the solution below the second power, their sum below the third.
  have hsum := ((hv2.add hv3).mono (by norm_num)).agree (G.halves_cancel hk2)
  have hfirst := (((DiffersAlong.refl _ (G.value (origin p))).add (hv2.smul 2)).add
    (hv3.smul 2)).add hv4
  simp only [advance, decimal_half, decimal_two, decimal_six]
  refine G.simpson_agree (k := 4) le_rfl ?_
  convert hfirst.agree ?_ using 1
  · module
  · rw [zero_add]
    exact G.four_stages_cancel hsum

/-- The step from the start of a solution agrees with it through the order of the scheme. -/
theorem advance_agree (s : Scheme) :
    G.advance s X (origin p) ≡ G.flow p [SMOD remainder ι (s.order + 1)] := by
  cases s with
  | euler => exact G.advance_euler p
  | midpoint => exact G.advance_midpoint p
  | heun => exact G.advance_heun p
  | rk3 => exact G.advance_rk3 p
  | rk4 => exact G.advance_rk4 p

end Schemes

end VectorField

end TrajOpt
