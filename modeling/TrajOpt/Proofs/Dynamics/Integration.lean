import Mathlib
import TrajOpt.Proofs.Dynamics.Order
import TrajOpt.Proofs.Linear.Forms

/-!
# Integration of polynomial fields

Along a polynomial field the step of a scheme is a polynomial in its length. Up to the order of the
scheme its coefficients are the Taylor coefficients of the solution from the same state under the
same control, which are the iterated derivatives of the state along the field.

## Main definitions

* `Vec.IsPolynomial` - the components of a field are polynomials in the state and the control.
* `Vec.SolvesFrom` - a curve solves the differential equation from a state under a control.
* `Scheme.stepPolynomial` - the step as a polynomial in its length.

## Main statements

* `Scheme.eval_stepPolynomial` - the values of the polynomial are the steps.
* `Scheme.coeff_step` - its coefficients are those of the solution.
-/

namespace TrajOpt

open Polynomial Filter Topology
open scoped Nat

variable {n m : ℕ}

/-- A field over the state and the control, which holds the control constant. -/
noncomputable def VectorField.held (F : Fin n → MvPolynomial (Fin n ⊕ Fin m) ℝ) :
    VectorField (Fin n ⊕ Fin m) := Sum.elim F 0

namespace Vec

/-- The components of the field are the polynomials `F` of the state and the control. -/
def IsPolynomial (f : Vec ℝ n → Vec ℝ m → Vec ℝ n)
    (F : Fin n → MvPolynomial (Fin n ⊕ Fin m) ℝ) : Prop :=
  ∀ x u i, (f x u).get i = MvPolynomial.eval (Sum.elim x.fn u.fn) (F i)

/-- The curve starts at `x` and for some time solves the equation under the constant control `u`. -/
structure SolvesFrom (f : Vec ℝ n → Vec ℝ m → Vec ℝ n) (x : Vec ℝ n) (u : Vec ℝ m)
    (y : ℝ → Vec ℝ n) : Prop where
  start : y 0 = x
  hasDerivAt : ∀ᶠ t in 𝓝 0, ∀ i, HasDerivAt (fun s => (y s).get i) ((f (y t) u).get i) t

section Elim

variable (x v : Vec ℝ n) (w : Fin m → ℝ)

theorem elim_add : Sum.elim x.fn w + Sum.elim v.fn 0 = Sum.elim (x + v).fn w := by
  ext (i | i) <;> simp

theorem elim_sub : Sum.elim x.fn w - Sum.elim v.fn 0 = Sum.elim (x - v).fn w := by
  ext (i | i) <;> simp

theorem smul_elim (a : ℝ) :
    a • Sum.elim v.fn (0 : Fin m → ℝ) = Sum.elim (scale a v).fn 0 := by
  ext (i | i) <;> simp

theorem scale_scale (a b : ℝ) : scale a (scale b v) = scale (a * b) v :=
  fn_injective (by simp [smul_smul])

end Elim

variable {f : Vec ℝ n → Vec ℝ m → Vec ℝ n} {F : Fin n → MvPolynomial (Fin n ⊕ Fin m) ℝ}

theorem IsPolynomial.value_held (hf : IsPolynomial f F) (x : Vec ℝ n) (u : Vec ℝ m) :
    (VectorField.held F).value (Sum.elim x.fn u.fn) = Sum.elim (f x u).fn 0 := by
  rw [VectorField.value_real]
  ext (i | i)
  · exact (hf x u i).symm
  · simp [VectorField.held]

/-- A step moves the state as the scheme does and leaves the control as it is. -/
theorem IsPolynomial.advance_held (hf : IsPolynomial f F) (s : Scheme) (x : Vec ℝ n) (u : Vec ℝ m)
    (dt : ℝ) : (VectorField.held F).advance s dt (Sum.elim x.fn u.fn) =
      Sum.elim (s.step f x u dt).fn u.fn := by
  have hsixth : dt / 6.0 = 1 / 6.0 * dt := (one_div_mul_eq_div _ _).symm
  cases s <;> simp only [VectorField.advance, Scheme.step, hf.value_held, smul_elim, elim_add,
    elim_sub, scale_scale, hsixth]

/-- A solution together with the control solves the equation of both. -/
theorem SolvesFrom.isSolution (hf : IsPolynomial f F) {x : Vec ℝ n} {u : Vec ℝ m}
    {y : ℝ → Vec ℝ n} (hy : SolvesFrom f x u y) :
    (VectorField.held F).IsSolution fun t => Sum.elim (y t).fn u.fn := by
  filter_upwards [hy.hasDerivAt] with t ht
  rintro (i | i)
  · rw [VectorField.held, Sum.elim_inl, ← hf]
    exact ht i
  · rw [VectorField.held, Sum.elim_inr, Pi.zero_apply, map_zero]
    exact hasDerivAt_const t (u.fn i)

/-- There is a solution, if only for a short time, as polynomials are continuously differentiable. -/
theorem IsPolynomial.exists_solvesFrom (hf : IsPolynomial f F) (x : Vec ℝ n) (u : Vec ℝ m) :
    ∃ y, SolvesFrom f x u y := by
  have hfield : ContDiff ℝ 1 fun z : Fin n → ℝ => fun i =>
      MvPolynomial.eval (Sum.elim z u.fn) (F i) := by
    refine contDiff_pi.2 fun i => (VectorField.contDiff_eval (F i)).comp (contDiff_pi.2 ?_)
    rintro (l | l)
    · exact contDiff_apply ℝ ℝ l
    · exact contDiff_const
  have hstart : ContDiffAt ℝ 1 _ x.fn := hfield.contDiffAt
  obtain ⟨z, hz0, ε, hε, hz⟩ :=
    hstart.exists_forall_mem_closedBall_exists_eq_forall_mem_Ioo_hasDerivAt₀ 0
  refine ⟨fun t => Vector.ofFn (z t), fn_injective ?_, ?_⟩
  · rw [fn_ofFn, hz0]
  · filter_upwards [Ioo_mem_nhds (sub_lt_self 0 hε) (lt_add_of_pos_right 0 hε)] with t ht i
    have hderiv := hasDerivAt_pi.1 (hz t ht) i
    rw [hf, fn_ofFn]
    simpa using hderiv

end Vec

namespace Scheme

/-- The components of the step as polynomials in its length. -/
noncomputable def stepPolynomial (s : Scheme) (F : Fin n → MvPolynomial (Fin n ⊕ Fin m) ℝ)
    (x : Vec ℝ n) (u : Vec ℝ m) (i : Fin n) : ℝ[X] :=
  (VectorField.held F).advance s X (fun l => C (Sum.elim x.fn u.fn l)) (.inl i)

variable {f : Vec ℝ n → Vec ℝ m → Vec ℝ n} {F : Fin n → MvPolynomial (Fin n ⊕ Fin m) ℝ}

theorem eval_stepPolynomial (hf : Vec.IsPolynomial f F) (s : Scheme) (x : Vec ℝ n) (u : Vec ℝ m)
    (dt : ℝ) (i : Fin n) : (s.stepPolynomial F x u i).eval dt = (s.step f x u dt).get i := by
  have heval := VectorField.compLeft_advance (VectorField.held F) (aeval dt) s X
    fun l => C (Sum.elim x.fn u.fn l)
  have hstart : (aeval dt).compLeft (Fin n ⊕ Fin m) (fun l => C (Sum.elim x.fn u.fn l)) =
      Sum.elim x.fn u.fn := by
    ext l
    exact aeval_C dt _
  rw [hstart, aeval_X, hf.advance_held] at heval
  exact congrFun heval (.inl i)

/-- Up to the order of the scheme the coefficients are those of the series of the solution. -/
theorem coeff_stepPolynomial (s : Scheme) (F : Fin n → MvPolynomial (Fin n ⊕ Fin m) ℝ)
    (x : Vec ℝ n) (u : Vec ℝ m) (i : Fin n) {j : ℕ} (hj : j ≤ s.order) :
    (s.stepPolynomial F x u i).coeff j =
      PowerSeries.coeff j ((VectorField.held F).flow (Sum.elim x.fn u.fn) (.inl i)) := by
  -- As a power series the polynomial is the step whose length is the time.
  let p := Sum.elim x.fn u.fn
  have hseries := VectorField.compLeft_advance (VectorField.held F)
    (coeToPowerSeries.algHom ℝ) s X fun l => C (p l)
  have hstart : (coeToPowerSeries.algHom ℝ).compLeft (Fin n ⊕ Fin m) (fun l => C (p l)) =
      VectorField.origin p := by
    ext1 l
    simp [VectorField.origin]
  have htime : coeToPowerSeries.algHom ℝ (X : ℝ[X]) = PowerSeries.X := by simp
  rw [hstart, htime] at hseries
  have hagree := agree_iff.1 (VectorField.advance_agree (VectorField.held F) p s) (.inl i) j
    (Nat.lt_succ_of_le hj)
  rw [← hagree, ← hseries]
  simp [stepPolynomial, p]

/-- Along a polynomial field the step of a scheme is a polynomial in its length. Up to the order of
the scheme its coefficients are the iterated derivatives of the state along the field with the
control held, each divided by a factorial. There is a solution, if only for a short time, and these
are its Taylor coefficients. -/
theorem coeff_step (hf : Vec.IsPolynomial f F) (s : Scheme) (x : Vec ℝ n) (u : Vec ℝ m) :
    ∃ P : Fin n → ℝ[X],
      (∀ dt i, (s.step f x u dt).get i = (P i).eval dt) ∧
      (∀ i, ∀ j ≤ s.order, (P i).coeff j =
        MvPolynomial.eval (Sum.elim x.fn u.fn)
          ((VectorField.held F).along^[j] (MvPolynomial.X (.inl i))) / j !) ∧
      (∃ y, Vec.SolvesFrom f x u y) ∧
      ∀ y, Vec.SolvesFrom f x u y → ∀ i, ∀ j ≤ s.order,
        (P i).coeff j = iteratedDeriv j (fun t => (y t).get i) 0 / j ! := by
  refine ⟨s.stepPolynomial F x u, fun dt i => (eval_stepPolynomial hf s x u dt i).symm, ?_,
    hf.exists_solvesFrom x u, ?_⟩
  · intro i j hj
    rw [coeff_stepPolynomial s F x u i hj]
    exact VectorField.coeff_taylor _ _ _ j
  · intro y hy i j hj
    rw [coeff_stepPolynomial s F x u i hj]
    have hcoeff := (hy.isSolution hf).coeff_flow (.inl i) j
    rw [hy.start] at hcoeff
    exact hcoeff

/-- The field `u x²`, under which the state explodes. -/
noncomputable def explosion : Fin 1 → MvPolynomial (Fin 1 ⊕ Fin 1) ℝ :=
  fun _ => MvPolynomial.X (.inr 0) * MvPolynomial.X (.inl 0) ^ 2

theorem iterate_along_explosion (j : ℕ) :
    (VectorField.held explosion).along^[j] (MvPolynomial.X (.inl 0)) =
      (j ! : MvPolynomial (Fin 1 ⊕ Fin 1) ℝ) * MvPolynomial.X (.inr 0) ^ j *
        MvPolynomial.X (.inl 0) ^ (j + 1) := by
  induction j with
  | zero => simp
  | succ j ih =>
    rw [Function.iterate_succ_apply', ih]
    simp [VectorField.held, explosion, Derivation.leibniz, Derivation.leibniz_pow, Nat.factorial_succ]
    ring

/-- The solution from `2` under the control `3` is `2 / (1 - 6 t)`. -/
theorem coeff_step_explosion :
    Vec.IsPolynomial (fun x u => #v[u.get 0 * x.get 0 ^ 2]) explosion ∧
    ∃ P : Fin 1 → ℝ[X],
      (∀ dt i, (rk4.step (fun x u => #v[u.get 0 * x.get 0 ^ 2]) #v[2] #v[3] dt).get i =
        (P i).eval dt) ∧
      ∀ j ≤ 4, (P 0).coeff j = 2 * 6 ^ j := by
  have hf : Vec.IsPolynomial (fun x u => #v[u.get 0 * x.get 0 ^ 2]) explosion := by
    intro x u i
    fin_cases i
    simp [explosion, Vec.fn]
  obtain ⟨P, hstep, hcoeff, -⟩ := coeff_step hf rk4 #v[2] #v[3]
  refine ⟨hf, P, hstep, fun j hj => ?_⟩
  have hvalue : MvPolynomial.eval (Sum.elim (Vec.fn #v[2]) (Vec.fn #v[3]))
      ((VectorField.held explosion).along^[j] (MvPolynomial.X (.inl 0))) =
        j ! * (3 ^ j * 2 ^ (j + 1)) := by
    rw [iterate_along_explosion]
    simp [Vec.fn, Vec.get_eq, mul_assoc]
  have hfactorial : (j ! : ℝ) ≠ 0 := Nat.cast_ne_zero.2 j.factorial_ne_zero
  rw [hcoeff 0 j hj, hvalue, mul_div_cancel_left₀ _ hfactorial, show (6 : ℝ) = 3 * 2 by norm_num,
    mul_pow]
  ring

end Scheme

end TrajOpt
