import Mathlib

/-!
# Solutions of polynomial differential equations

Along a solution of `dz/dt = G z` a polynomial in `z` changes by its derivative along the field. So
its Taylor coefficients at a point are known without the solution: they are the iterated derivatives
along the field at that point. The power series with these coefficients is multiplicative, and the
series of the coordinates thus solves the equation as a formal power series.

## Main definitions

* `VectorField`, `VectorField.along` - a polynomial field and the derivative along it.
* `VectorField.taylor`, `VectorField.flow` - the Taylor series of a polynomial and of the solution.

## Main statements

* `VectorField.aeval_flow` - polynomials of the solution have their Taylor series.
* `VectorField.derivative_flow` - the series of the solution satisfies the equation.
* `VectorField.IsSolution.coeff_flow` - its coefficients are those of every solution.
-/

namespace TrajOpt

open PowerSeries
open scoped Nat

/-- A vector field whose components are polynomials in the coordinates. -/
abbrev VectorField (ι : Type) := ι → MvPolynomial ι ℝ

namespace VectorField

variable {ι : Type} (G : VectorField ι) (p : ι → ℝ)

/-- The derivative of a polynomial along the field. -/
noncomputable def along : Derivation ℝ (MvPolynomial ι ℝ) (MvPolynomial ι ℝ) :=
  MvPolynomial.mkDerivation ℝ G

@[simp] theorem along_X (i : ι) : G.along (MvPolynomial.X i) = G i :=
  MvPolynomial.mkDerivation_X ℝ G i

/-- The Taylor series of a polynomial along the solution that starts at `p`. -/
noncomputable def taylor (g : MvPolynomial ι ℝ) : ℝ⟦X⟧ :=
  PowerSeries.mk fun j => MvPolynomial.eval p (G.along^[j] g) / j !

/-- The Taylor series of the solution that starts at `p`. -/
noncomputable def flow (i : ι) : ℝ⟦X⟧ := G.taylor p (MvPolynomial.X i)

theorem coeff_taylor (g : MvPolynomial ι ℝ) (j : ℕ) :
    coeff j (G.taylor p g) = MvPolynomial.eval p (G.along^[j] g) / j ! :=
  PowerSeries.coeff_mk j _

theorem taylor_add (g h : MvPolynomial ι ℝ) :
    G.taylor p (g + h) = G.taylor p g + G.taylor p h := by
  ext j
  rw [map_add, coeff_taylor, coeff_taylor, coeff_taylor, iterate_map_add, map_add, add_div]

/-- The series of a polynomial changes by the series of its derivative along the field. -/
theorem derivative_taylor (g : MvPolynomial ι ℝ) :
    PowerSeries.derivative ℝ (G.taylor p g) = G.taylor p (G.along g) := by
  ext j
  rw [coeff_derivative, coeff_taylor, coeff_taylor, Function.iterate_succ_apply,
    Nat.factorial_succ]
  push_cast
  field_simp

/-- The derivatives of a product of polynomials are those of the product of their series. -/
theorem taylor_mul (g h : MvPolynomial ι ℝ) :
    G.taylor p (g * h) = G.taylor p g * G.taylor p h := by
  ext j
  -- Both sides satisfy one equation of first order, so the coefficients agree one after the other.
  induction j generalizing g h with
  | zero =>
    rw [coeff_taylor, coeff_mul, Finset.Nat.antidiagonal_zero, Finset.sum_singleton, coeff_taylor,
      coeff_taylor]
    simp
  | succ j ih =>
    have hnext (q : ℝ⟦X⟧) : coeff (j + 1) q = coeff j (PowerSeries.derivative ℝ q) / (j + 1) := by
      rw [coeff_derivative]
      field_simp
    rw [hnext, hnext, derivative_taylor, Derivation.leibniz, Derivation.leibniz, smul_eq_mul,
      smul_eq_mul, taylor_add, map_add, ih, ih, smul_eq_mul, smul_eq_mul, map_add,
      derivative_taylor, derivative_taylor]

theorem taylor_C (a : ℝ) : G.taylor p (MvPolynomial.C a) = PowerSeries.C a := by
  ext j
  rw [coeff_taylor]
  cases j with
  | zero => simp
  | succ j =>
    rw [Function.iterate_succ_apply, MvPolynomial.derivation_C, iterate_map_zero]
    simp

/-- A polynomial of the series of the solution is its Taylor series. -/
theorem aeval_flow (g : MvPolynomial ι ℝ) : MvPolynomial.aeval (G.flow p) g = G.taylor p g := by
  induction g using MvPolynomial.induction_on with
  | C a => rw [MvPolynomial.aeval_C, taylor_C]; rfl
  | add g h hg hh => rw [map_add, hg, hh, taylor_add]
  | mul_X g i hg => rw [map_mul, hg, MvPolynomial.aeval_X, taylor_mul]; rfl

/-- The series of the solution satisfies the differential equation. -/
theorem derivative_flow (i : ι) :
    PowerSeries.derivative ℝ (G.flow p i) = MvPolynomial.aeval (G.flow p) (G i) := by
  rw [aeval_flow, flow, derivative_taylor, along_X]

section Solution

open Filter Topology

variable {G} {z : ℝ → ι → ℝ}

/-- A curve that solves the equation in a neighbourhood of time zero. -/
def IsSolution (G : VectorField ι) (z : ℝ → ι → ℝ) : Prop :=
  ∀ᶠ t in 𝓝 0, ∀ i, HasDerivAt (fun s => z s i) (MvPolynomial.eval (z t) (G i)) t

/-- A polynomial changes along a solution by its derivative along the field. -/
theorem hasDerivAt_eval {t : ℝ}
    (h : ∀ i, HasDerivAt (fun s => z s i) (MvPolynomial.eval (z t) (G i)) t)
    (g : MvPolynomial ι ℝ) :
    HasDerivAt (fun s => MvPolynomial.eval (z s) g) (MvPolynomial.eval (z t) (G.along g)) t := by
  induction g using MvPolynomial.induction_on with
  | C a => simpa using hasDerivAt_const t a
  | add g h hg hh =>
    simp only [map_add]
    exact hg.add hh
  | mul_X g i hg =>
    simp only [map_mul, MvPolynomial.eval_X, Derivation.leibniz, along_X, smul_eq_mul, map_add]
    exact (hg.mul (h i)).congr_deriv (by ring)

theorem IsSolution.iteratedDeriv_eventuallyEq (h : IsSolution G z) (g : MvPolynomial ι ℝ) (j : ℕ) :
    iteratedDeriv j (fun s => MvPolynomial.eval (z s) g) =ᶠ[𝓝 0]
      fun t => MvPolynomial.eval (z t) (G.along^[j] g) := by
  induction j with
  | zero => simp
  | succ j ih =>
    rw [iteratedDeriv_succ]
    filter_upwards [ih.deriv, h] with t ht hz
    rw [ht, Function.iterate_succ_apply']
    exact (hasDerivAt_eval hz _).deriv

/-- The derivatives of every solution at time zero are those of the series. -/
theorem IsSolution.coeff_flow (h : IsSolution G z) (i : ι) (j : ℕ) :
    coeff j (G.flow (z 0) i) = iteratedDeriv j (fun s => z s i) 0 / j ! := by
  have hderiv := (h.iteratedDeriv_eventuallyEq (MvPolynomial.X i) j).eq_of_nhds
  simp only [MvPolynomial.eval_X] at hderiv
  rw [flow, coeff_taylor, hderiv]

theorem contDiff_eval [Fintype ι] (g : MvPolynomial ι ℝ) :
    ContDiff ℝ 1 fun z : ι → ℝ => MvPolynomial.eval z g := by
  induction g using MvPolynomial.induction_on with
  | C a =>
    simp only [MvPolynomial.eval_C]
    exact contDiff_const
  | add g h hg hh =>
    simp only [map_add]
    exact hg.add hh
  | mul_X g i hg =>
    simp only [map_mul, MvPolynomial.eval_X]
    exact hg.mul (contDiff_apply ℝ ℝ i)

end Solution

end VectorField

end TrajOpt
