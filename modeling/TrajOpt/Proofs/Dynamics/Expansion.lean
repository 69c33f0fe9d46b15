import Mathlib
import TrajOpt.Proofs.Dynamics.Flow

/-!
# Polynomial fields at nearby points

A polynomial field can be evaluated at points whose coordinates are power series in time. Two such
points that agree below some power of time have values that agree as far, and the derivative of the
field gives the difference of the values up to twice that power.

## Main definitions

* `VectorField.value`, `VectorField.slope` - the field and its derivative at a point.
* `remainder` - the vectors of power series that begin with a given power.
* `VectorField.DiffersAlong` - vectors differ to first order by the derivative along a third one.

## Main statements

* `VectorField.value_congr` - values at points that agree.
* `VectorField.value_expansion` - the difference of the values to first order.
* `VectorField.differsAlong_value` - the same with the derivative at a third point.
-/

namespace TrajOpt

open PowerSeries MvPolynomial

namespace VectorField

section Algebra

variable {ι : Type} {A B : Type} [CommRing A] [Algebra ℝ A] [CommRing B] [Algebra ℝ B]

/-- The field at a point whose coordinates are in an algebra. -/
noncomputable def value (G : VectorField ι) (z : ι → A) : ι → A := fun i => aeval z (G i)

theorem compLeft_value (G : VectorField ι) (f : A →ₐ[ℝ] B) (z : ι → A) :
    f.compLeft ι (G.value z) = G.value (f.compLeft ι z) := by
  ext i
  exact comp_aeval_apply _ f (G i)

theorem value_real (G : VectorField ι) (z : ι → ℝ) : G.value z = fun i => eval z (G i) := by
  rfl

theorem aeval_sub_mem {I : Ideal A} {z z' : ι → A} (h : ∀ l, z' l - z l ∈ I)
    (g : MvPolynomial ι ℝ) : aeval z' g - aeval z g ∈ I := by
  rw [← Ideal.Quotient.eq]
  have hmk : ∀ y : ι → A, Ideal.Quotient.mk I (aeval y g) =
      aeval (fun l => Ideal.Quotient.mk I (y l)) g :=
    fun y => comp_aeval_apply y (Ideal.Quotient.mkₐ ℝ I) g
  rw [hmk, hmk]
  simp only [Ideal.Quotient.eq.2 (h _)]

variable [Fintype ι]

/-- What is left of a polynomial after its terms of first order is of second order. -/
theorem aeval_sub_sum_mem {I : Ideal A} {z z' : ι → A} (h : ∀ l, z' l - z l ∈ I)
    (g : MvPolynomial ι ℝ) :
    aeval z' g - (aeval z g + ∑ l, aeval z (pderiv l g) * (z' l - z l)) ∈ I ^ 2 := by
  classical
  induction g using MvPolynomial.induction_on with
  | C a => simp
  | add g g' hg hg' =>
    convert (I ^ 2).add_mem hg hg' using 1
    simp only [map_add, add_mul, Finset.sum_add_distrib]
    ring
  | mul_X g i hg =>
    have hsum : ∑ l, aeval z (pderiv l (g * X i)) * (z' l - z l) =
        (∑ l, aeval z (pderiv l g) * (z' l - z l)) * z i + aeval z g * (z' i - z i) := by
      simp only [pderiv_mul, pderiv_X, map_add, map_mul, aeval_X, add_mul,
        Finset.sum_add_distrib, Finset.sum_mul]
      congr 1
      · exact Finset.sum_congr rfl fun l _ => by ring
      · rw [Finset.sum_eq_single i]
        · simp
        · intro l _ hl
          simp [Pi.single_eq_of_ne hl.symm]
        · simp
    have hfirst : (aeval z' g - aeval z g) * (z' i - z i) ∈ I ^ 2 := by
      rw [pow_two]
      exact Ideal.mul_mem_mul (aeval_sub_mem h g) (h i)
    convert (I ^ 2).add_mem hfirst ((I ^ 2).mul_mem_left (z i) hg) using 1
    rw [hsum, map_mul, map_mul, aeval_X, aeval_X]
    ring

/-- The derivative of the field at a point. -/
noncomputable def slope (G : VectorField ι) (z : ι → A) : (ι → A) →ₗ[A] ι → A :=
  (Matrix.of fun i l => aeval z (pderiv l (G i))).mulVecLin

theorem slope_apply (G : VectorField ι) (z d : ι → A) (i : ι) :
    G.slope z d i = ∑ l, aeval z (pderiv l (G i)) * d l := rfl

end Algebra

end VectorField

section Series

variable {ι : Type} {k l : ℕ}

/-- The vectors of power series that begin with the power `k`. -/
noncomputable def remainder (ι : Type) (k : ℕ) : Submodule ℝ⟦X⟧ (ι → ℝ⟦X⟧) :=
  Submodule.pi Set.univ fun _ => Ideal.span {PowerSeries.X ^ k}

theorem mem_remainder {v : ι → ℝ⟦X⟧} :
    v ∈ remainder ι k ↔ ∀ i, v i ∈ Ideal.span {(PowerSeries.X ^ k : ℝ⟦X⟧)} := by
  simp [remainder]

/-- Vectors agree up to a remainder where their coefficients below the power are the same. -/
theorem agree_iff {v w : ι → ℝ⟦X⟧} :
    v ≡ w [SMOD remainder ι k] ↔ ∀ i, ∀ j < k, coeff j (v i) = coeff j (w i) := by
  simp only [SModEq.sub_mem, mem_remainder, Pi.sub_apply, Ideal.mem_span_singleton, X_pow_dvd_iff,
    map_sub, sub_eq_zero]

theorem agree_mono {v w : ι → ℝ⟦X⟧} (h : v ≡ w [SMOD remainder ι l]) (hkl : k ≤ l) :
    v ≡ w [SMOD remainder ι k] :=
  agree_iff.2 fun i j hj => agree_iff.1 h i j (hj.trans_le hkl)

theorem agree_smul {v w : ι → ℝ⟦X⟧} (h : v ≡ w [SMOD remainder ι k]) (a : ℝ) :
    a • v ≡ a • w [SMOD remainder ι k] := by
  rw [agree_iff]
  intro i j hj
  simp [agree_iff.1 h i j hj]

/-- A factor of time moves a remainder up by one power. -/
theorem agree_smul_X {v w : ι → ℝ⟦X⟧} (h : v ≡ w [SMOD remainder ι k]) :
    (PowerSeries.X : ℝ⟦X⟧) • v ≡ (PowerSeries.X : ℝ⟦X⟧) • w [SMOD remainder ι (k + 1)] := by
  rw [agree_iff]
  intro i j hj
  cases j with
  | zero => simp
  | succ j => simp [coeff_succ_X_mul, agree_iff.1 h i j (by omega)]

namespace VectorField

variable (G : VectorField ι) {z z' d : ι → ℝ⟦X⟧}

/-- The values at points that agree agree as far. -/
theorem value_congr (h : z' ≡ z [SMOD remainder ι k]) :
    G.value z' ≡ G.value z [SMOD remainder ι k] := by
  rw [SModEq.sub_mem, mem_remainder] at h ⊢
  exact fun i => aeval_sub_mem h (G i)

variable [Fintype ι]

/-- The derivative gives the difference of the values up to twice the power. -/
theorem value_expansion (h : z' ≡ z [SMOD remainder ι k]) :
    G.value z' ≡ G.value z + G.slope z (z' - z) [SMOD remainder ι (2 * k)] := by
  rw [SModEq.sub_mem, mem_remainder] at h ⊢
  intro i
  rw [mul_comm, pow_mul, ← Ideal.span_singleton_pow]
  exact aeval_sub_sum_mem h (G i)

/-- The derivatives at points that agree differ by less on vectors that begin with a high power. -/
theorem slope_congr_point (h : z' ≡ z [SMOD remainder ι k]) (hd : d ∈ remainder ι l) :
    G.slope z' d ≡ G.slope z d [SMOD remainder ι (k + l)] := by
  rw [SModEq.sub_mem, mem_remainder] at h ⊢
  rw [mem_remainder] at hd
  intro i
  rw [Pi.sub_apply, slope_apply, slope_apply, ← Finset.sum_sub_distrib, pow_add,
    ← Ideal.span_singleton_mul_span_singleton]
  refine Ideal.sum_mem _ fun l _ => ?_
  rw [← sub_mul]
  exact Ideal.mul_mem_mul (aeval_sub_mem h _) (hd l)

/-- Below the power `k` the vector `v` differs from `w` by the derivative at `b` along `d`. -/
def DiffersAlong (b : ι → ℝ⟦X⟧) (k : ℕ) (v w d : ι → ℝ⟦X⟧) : Prop :=
  v ≡ w + G.slope b d [SMOD remainder ι k]

variable {b v v' w w' d' : ι → ℝ⟦X⟧}

/-- The derivative may be taken at a point near the one where the values are compared. -/
theorem differsAlong_value {m : ℕ} (hz : z' ≡ z [SMOD remainder ι l])
    (hb : z ≡ b [SMOD remainder ι m]) (hk : k ≤ 2 * l) (hkm : k ≤ m + l) :
    G.DiffersAlong b k (G.value z') (G.value z) (z' - z) :=
  (agree_mono (G.value_expansion hz) hk).trans
    (SModEq.rfl.add (agree_mono (G.slope_congr_point hb (SModEq.sub_mem.1 hz)) hkm))

namespace DiffersAlong

variable {G}

theorem refl (b v : ι → ℝ⟦X⟧) : G.DiffersAlong b k v v 0 := by simp [DiffersAlong]

theorem add (h : G.DiffersAlong b k v w d) (h' : G.DiffersAlong b k v' w' d') :
    G.DiffersAlong b k (v + v') (w + w') (d + d') := by
  rw [DiffersAlong, map_add, add_add_add_comm]
  exact SModEq.add h h'

theorem smul (h : G.DiffersAlong b k v w d) (a : ℝ) :
    G.DiffersAlong b k (a • v) (a • w) (a • d) := by
  rw [DiffersAlong, LinearMap.map_smul_of_tower, ← smul_add]
  exact agree_smul h a

theorem mono (h : G.DiffersAlong b l v w d) (hkl : k ≤ l) : G.DiffersAlong b k v w d :=
  agree_mono h hkl

/-- Where the vector vanishes there is no difference. -/
theorem agree (h : G.DiffersAlong b k v w d) (hd : d ≡ 0 [SMOD remainder ι k]) :
    v ≡ w [SMOD remainder ι k] := by
  have hslope : G.slope b d ≡ 0 [SMOD remainder ι k] := by
    rw [SModEq.zero, mem_remainder] at hd ⊢
    intro i
    rw [slope_apply]
    exact Ideal.sum_mem _ fun l _ => Ideal.mul_mem_left _ _ (hd l)
  simpa using SModEq.trans h (SModEq.rfl.add hslope)

end DiffersAlong

end VectorField

end Series

end TrajOpt
