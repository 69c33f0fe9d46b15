import TrajOpt.Proofs.Linear.Matrix

/-!
# Quadratic forms

The second-order part of every cost is half a quadratic form. For a symmetric matrix the form at a
sum splits into the two forms and a product, which is what lets a quadratic function be expanded
around any point and its square be completed.

## Main statements

* `Vec.dot_self_nonneg`, `Vec.dot_self_pos` - the square of a vector.
* `Mat.halfForm_add` - a form at a sum.
* `Mat.halfForm_nonneg`, `Mat.halfForm_pos`, `Mat.posSemidef_of_halfForm` - definite forms.
* `complete_square` - a quadratic function around the point where its gradient vanishes.
* `Mat.matrix_halfFormHessian`, `Mat.halfFormGradient_eq` - the derivatives of a form.
-/

namespace TrajOpt

open Matrix

variable {n m k : Nat}

theorem dotProduct_mulVec_comm {A : Matrix (Fin n) (Fin n) ℝ} (hA : A.IsSymm) (x y : Fin n → ℝ) :
    x ⬝ᵥ A *ᵥ y = y ⬝ᵥ A *ᵥ x := by
  rw [dotProduct_mulVec, ← mulVec_transpose, hA.eq, dotProduct_comm]

theorem transpose_mulVec_dotProduct (A : Matrix (Fin m) (Fin n) ℝ) (v : Fin m → ℝ)
    (x : Fin n → ℝ) : (Aᵀ *ᵥ v) ⬝ᵥ x = v ⬝ᵥ A *ᵥ x := by
  rw [mulVec_transpose, dotProduct_mulVec]

theorem dotProduct_transpose_mulVec (A : Matrix (Fin m) (Fin n) ℝ) (x : Fin n → ℝ)
    (v : Fin m → ℝ) : x ⬝ᵥ Aᵀ *ᵥ v = (A *ᵥ x) ⬝ᵥ v := by
  rw [dotProduct_comm, transpose_mulVec_dotProduct, dotProduct_comm]

/-- Completing the square around the point `e` where the gradient of a quadratic function
vanishes. -/
theorem complete_square {H : Matrix (Fin m) (Fin m) ℝ} (hH : H.IsSymm) {g e : Fin m → ℝ}
    (he : H *ᵥ e = -g) (u : Fin m → ℝ) :
    u ⬝ᵥ g + (u ⬝ᵥ H *ᵥ u) / 2 =
      e ⬝ᵥ g + (e ⬝ᵥ H *ᵥ e) / 2 + ((u - e) ⬝ᵥ H *ᵥ (u - e)) / 2 := by
  have hcross : e ⬝ᵥ H *ᵥ u = -(u ⬝ᵥ g) := by
    rw [dotProduct_mulVec_comm hH, he, dotProduct_neg]
  rw [mulVec_sub, he, sub_dotProduct, dotProduct_sub, dotProduct_sub, hcross, dotProduct_neg,
    dotProduct_neg]
  ring

namespace Vec

@[simp] theorem fn_const (a : ℝ) : (const n a).fn = fun _ => a := by
  ext i
  simp [fn, get_eq]

@[simp] theorem fn_ofFn (f : Fin n → ℝ) : Vec.fn (Vector.ofFn f) = f := by
  ext i
  simp [fn, get_eq]

theorem fn_ne_zero {v : Vec ℝ n} (hv : v ≠ zero n) : v.fn ≠ 0 :=
  fun hzero => hv (fn_injective (hzero.trans fn_zero.symm))

theorem dot_comm (u v : Vec ℝ n) : dot u v = dot v u := by
  rw [dot_eq, dot_eq, dotProduct_comm]

theorem dot_self_zero (n : Nat) : dot (zero n : Vec ℝ n) (zero n) = 0 := by
  rw [dot_eq, fn_zero, dotProduct_zero]

theorem dot_self_nonneg (v : Vec ℝ n) : 0 ≤ dot v v := by
  rw [dot_eq]
  exact Finset.sum_nonneg fun i _ => mul_self_nonneg (v.fn i)

theorem dot_self_pos {v : Vec ℝ n} (hv : v ≠ zero n) : 0 < dot v v := by
  refine lt_of_le_of_ne v.dot_self_nonneg fun hzero => fn_ne_zero hv ?_
  rw [dot_eq] at hzero
  exact dotProduct_self_eq_zero.1 hzero.symm

theorem sub_self (v : Vec ℝ n) : v - v = zero n := by
  apply fn_injective
  simp

/-- A vector as another one and the deviation from it. -/
theorem exists_eq_add (v v' : Vec ℝ n) : ∃ d, v' = v + d ∧ v' - v = d := by
  refine ⟨v' - v, ?_, rfl⟩
  apply fn_injective
  simp

end Vec

namespace Mat

@[simp] theorem matrix_zero (r c : Nat) : (zero r c : Mat ℝ r c).matrix = 0 := by
  ext i j
  simp [matrix, Vec.get_eq, zero, Vec.zero]

theorem matrix_diagonal (n : Nat) (a : ℝ) : (diagonal n a).matrix = a • 1 := by
  ext i j
  simp [matrix, Vec.get_eq, diagonal, Matrix.one_apply, Fin.ext_iff]

@[simp] theorem halfForm_zero (w : Mat ℝ n n) : w.halfForm (Vec.zero n) = 0 := by
  simp [halfForm_eq]

@[simp] theorem bilinear_zero (u : Vec ℝ m) (v : Vec ℝ n) : bilinear u (zero m n) v = 0 := by
  simp [bilinear_eq]

theorem halfForm_nonneg {w : Mat ℝ n n} (hw : w.matrix.PosSemidef) (d : Vec ℝ n) :
    0 ≤ w.halfForm d := by
  have hform : 0 ≤ d.fn ⬝ᵥ w.matrix *ᵥ d.fn := by
    simpa using hw.dotProduct_mulVec_nonneg d.fn
  rw [halfForm_eq]
  linarith

theorem halfForm_pos {w : Mat ℝ n n} (hw : w.matrix.PosDef) {d : Vec ℝ n}
    (hd : d ≠ Vec.zero n) : 0 < w.halfForm d := by
  have hform : 0 < d.fn ⬝ᵥ w.matrix *ᵥ d.fn := by
    simpa using hw.dotProduct_mulVec_pos (Vec.fn_ne_zero hd)
  rw [halfForm_eq]
  linarith

theorem posSemidef_of_halfForm {w : Mat ℝ n n} (hw : w.matrix.IsSymm)
    (h : ∀ d, 0 ≤ w.halfForm d) : w.matrix.PosSemidef := by
  rw [posSemidef_iff_dotProduct_mulVec]
  refine ⟨by rwa [IsHermitian, conjTranspose_eq_transpose_of_trivial], fun x => ?_⟩
  have hx := h (Vector.ofFn x)
  rw [halfForm_eq, Vec.fn_ofFn] at hx
  rw [star_trivial]
  linarith

theorem isSymm_of_posSemidef {w : Mat ℝ n n} (hw : w.matrix.PosSemidef) : w.matrix.IsSymm := by
  rw [IsSymm, ← conjTranspose_eq_transpose_of_trivial]
  exact hw.isHermitian

/-- A form at a sum, for a symmetric matrix. -/
theorem halfForm_add {w : Mat ℝ n n} (hw : w.matrix.IsSymm) (x d : Vec ℝ n) :
    w.halfForm (x + d) = w.halfForm x + Vec.dot (w.mulVec x) d + w.halfForm d := by
  have hcross := dotProduct_mulVec_comm hw x.fn d.fn
  simp only [halfForm_eq, Vec.dot_eq, Vec.fn_add, fn_mulVec, mulVec_add, dotProduct_add,
    add_dotProduct, hcross, dotProduct_comm (w.matrix *ᵥ x.fn)]
  ring

theorem fn_halfFormGradient (t : ℝ) (w : Mat ℝ n n) (d : Vec ℝ n) :
    (w.halfFormGradient t d).fn = (t / 2) • (d.fn ᵥ* w.matrix + w.matrix *ᵥ d.fn) := by
  simp only [halfFormGradient, Vec.fn_add, Vec.fn_scale, fn_vecMul, fn_mulVec, smul_vecMul,
    mulVec_smul, smul_add, smul_smul]
  norm_num
  congr 2 <;> ring

theorem halfFormGradient_eq {w : Mat ℝ n n} (hw : w.matrix.IsSymm) (t : ℝ) (d : Vec ℝ n) :
    w.halfFormGradient t d = Vec.scale t (w.mulVec d) := by
  have htranspose : d.fn ᵥ* w.matrix = w.matrix *ᵥ d.fn := by
    rw [← mulVec_transpose, hw.eq]
  apply Vec.fn_injective
  rw [fn_halfFormGradient, htranspose, Vec.fn_scale, fn_mulVec, ← two_smul ℝ, smul_smul]
  congr 1
  ring

theorem matrix_halfFormHessian (t : ℝ) (w : Mat ℝ n n) :
    (w.halfFormHessian t).matrix = (t / 2) • (w.matrixᵀ + w.matrix) := by
  simp only [halfFormHessian, matrix_add, matrix_scale, matrix_transpose, smul_add, smul_smul]
  norm_num
  congr 2 <;> ring

theorem matrix_halfFormHessian_of_isSymm {w : Mat ℝ n n} (hw : w.matrix.IsSymm) (t : ℝ) :
    (w.halfFormHessian t).matrix = t • w.matrix := by
  rw [matrix_halfFormHessian, hw.eq, ← two_smul ℝ, smul_smul]
  congr 1
  ring

theorem isSymm_halfFormHessian (t : ℝ) (w : Mat ℝ n n) : (w.halfFormHessian t).matrix.IsSymm := by
  rw [matrix_halfFormHessian]
  exact (isSymm_transpose_add_self _).smul _

theorem halfForm_halfFormHessian (t : ℝ) (w : Mat ℝ n n) (d : Vec ℝ n) :
    (w.halfFormHessian t).halfForm d = t * w.halfForm d := by
  rw [halfForm_eq, halfForm_eq, matrix_halfFormHessian, smul_mulVec, add_mulVec, dotProduct_smul,
    dotProduct_add, dotProduct_transpose_mulVec, dotProduct_comm (w.matrix *ᵥ d.fn), smul_eq_mul]
  ring

theorem posSemidef_halfFormHessian {w : Mat ℝ n n} (hw : w.matrix.PosSemidef) {t : ℝ}
    (ht : 0 ≤ t) : (w.halfFormHessian t).matrix.PosSemidef := by
  apply posSemidef_of_halfForm (isSymm_halfFormHessian t w)
  intro d
  rw [halfForm_halfFormHessian]
  exact mul_nonneg ht (halfForm_nonneg hw d)

end Mat

end TrajOpt
