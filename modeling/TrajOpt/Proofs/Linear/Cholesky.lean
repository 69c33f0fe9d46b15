import TrajOpt.Proofs.Linear.Matrix

/-!
# Cholesky factorization of real matrices

A symmetric matrix has a factor exactly when it is positive definite, and the factor solves its
linear systems. The factorization eliminates the first row and column. What it leaves is related to
the matrix by `Mat.Splits`: the quadratic form of the one is that of the other and one square more.

## Main statements

* `Cholesky.isSome_ofLower?`, `Mat.isSome_factor?` - which matrices have a factor.
* `Cholesky.mulVec_solve`, `Mat.mulVec_solve` - what a factor computes.
-/

namespace TrajOpt

open Matrix

variable {n : Nat}

namespace Mat

/-- The first row and column of `A` come from the column `d`, `w` of a triangular matrix, and `S` is
what is left of `A` without their product. -/
structure Splits (A : Matrix (Fin (n + 1)) (Fin (n + 1)) ℝ) (d : ℝ) (w : Fin n → ℝ)
    (S : Matrix (Fin n) (Fin n) ℝ) : Prop where
  corner : A 0 0 = d * d
  row : ∀ j : Fin n, A 0 j.succ = d * w j
  column : ∀ i : Fin n, A i.succ 0 = d * w i
  block : ∀ i j : Fin n, A i.succ j.succ = w i * w j + S i j

namespace Splits

variable {A : Matrix (Fin (n + 1)) (Fin (n + 1)) ℝ} {d : ℝ} {w : Fin n → ℝ}
  {S : Matrix (Fin n) (Fin n) ℝ}

theorem mulVec_zero (h : Splits A d w S) (t : ℝ) (x : Fin n → ℝ) :
    (A *ᵥ Fin.cons t x) 0 = d * (d * t + w ⬝ᵥ x) := by
  have hrow : ∑ j, A 0 j.succ * x j = d * (w ⬝ᵥ x) := by
    simp only [h.row, dotProduct, Finset.mul_sum, mul_assoc]
  rw [Matrix.mulVec, dotProduct, Fin.sum_univ_succ]
  simp only [Fin.cons_zero, Fin.cons_succ]
  rw [hrow, h.corner]
  ring

theorem mulVec_succ (h : Splits A d w S) (t : ℝ) (x : Fin n → ℝ) (i : Fin n) :
    (A *ᵥ Fin.cons t x) i.succ = (d * t + w ⬝ᵥ x) * w i + (S *ᵥ x) i := by
  have hblock : ∑ j, A i.succ j.succ * x j = w i * (w ⬝ᵥ x) + (S *ᵥ x) i := by
    simp only [h.block, add_mul, Finset.sum_add_distrib, Matrix.mulVec, dotProduct,
      Finset.mul_sum, mul_assoc]
  rw [Matrix.mulVec, dotProduct, Fin.sum_univ_succ]
  simp only [Fin.cons_zero, Fin.cons_succ]
  rw [hblock, h.column]
  ring

/-- The quadratic form is a square and the form of what is left. -/
theorem form_eq (h : Splits A d w S) (t : ℝ) (x : Fin n → ℝ) :
    (Fin.cons t x : Fin (n + 1) → ℝ) ⬝ᵥ A *ᵥ Fin.cons t x =
      (d * t + w ⬝ᵥ x) ^ 2 + x ⬝ᵥ S *ᵥ x := by
  have hsum : ∑ i, x i * ((d * t + w ⬝ᵥ x) * w i + (S *ᵥ x) i) =
      (d * t + w ⬝ᵥ x) * (w ⬝ᵥ x) + x ⬝ᵥ S *ᵥ x := by
    simp only [mul_add, Finset.sum_add_distrib, dotProduct, Finset.mul_sum]
    congr 1
    refine Finset.sum_congr rfl fun i _ => ?_
    ring
  rw [dotProduct, Fin.sum_univ_succ]
  simp only [Fin.cons_zero, Fin.cons_succ, h.mulVec_zero, h.mulVec_succ]
  rw [hsum]
  ring

theorem isSymm (h : Splits A d w S) (hA : A.IsSymm) : S.IsSymm := by
  ext i j
  have hij := hA.apply i.succ j.succ
  rw [h.block, h.block] at hij
  rw [transpose_apply]
  linarith

/-- Eliminating the first row and column keeps positive definiteness. -/
theorem form_pos_iff (h : Splits A d w S) (hd : d ≠ 0) :
    (∀ x, x ≠ 0 → 0 < x ⬝ᵥ A *ᵥ x) ↔ ∀ x, x ≠ 0 → 0 < x ⬝ᵥ S *ᵥ x := by
  constructor
  · intro hA x hx
    -- The first unknown that makes the square vanish.
    have hcons : (Fin.cons (-(w ⬝ᵥ x) / d) x : Fin (n + 1) → ℝ) ≠ 0 := by
      intro hzero
      exact hx (funext fun i => congrFun hzero i.succ)
    have hpos := hA _ hcons
    rw [h.form_eq, mul_div_cancel₀ _ hd] at hpos
    simpa using hpos
  · intro hS x hx
    rw [← Fin.cons_self_tail x, h.form_eq]
    by_cases htail : Fin.tail x = 0
    · have hfirst : x 0 ≠ 0 := by
        intro hzero
        apply hx
        rw [← Fin.cons_self_tail x, hzero, htail]
        ext i
        cases i using Fin.cases <;> rfl
      have hsquare : 0 < (d * x 0) ^ 2 := by positivity
      simpa [htail] using hsquare
    · have hpos := hS _ htail
      positivity

end Splits

end Mat

namespace Cholesky

/-- A positive pivot splits off the first column of the factor. -/
theorem splits_of_pivot {a : Mat ℝ (n + 1) (n + 1)} (ha : a.transpose = a)
    (hp : (0 : ℝ) < a.corner) :
    let below := a.belowFirst.map (· / Scalar.sqrt a.corner)
    Mat.Splits a.matrix (Scalar.sqrt a.corner) (Vec.fn below)
      (a.minor - Mat.outer below below).matrix := by
  have hsqrt : Scalar.sqrt a.corner * Scalar.sqrt a.corner = a.corner := Real.mul_self_sqrt hp.le
  have hne : Scalar.sqrt a.corner ≠ 0 := (Real.sqrt_pos.mpr hp).ne'
  have hbelow : ∀ i : Fin n, Scalar.sqrt a.corner *
      Vec.fn (a.belowFirst.map (· / Scalar.sqrt a.corner)) i = a.matrix i.succ 0 := by
    intro i
    simp [Vec.fn, Vec.get_eq, Mat.belowFirst, Mat.matrix, mul_div_cancel₀ _ hne]
  refine ⟨hsqrt.symm, ?_, fun i => (hbelow i).symm, ?_⟩
  · intro j
    rw [hbelow]
    exact ((Mat.isSymm_matrix_iff.mpr ha).apply 0 j.succ).symm
  · intro i j
    simp [Mat.matrix, Mat.minor, Mat.outer, Vec.fn, Vec.get_eq]

/-- Exactly the positive definite ones of the symmetric matrices have a factor. -/
theorem isSome_ofLower? {n : Nat} {a : Mat ℝ n n} (ha : a.transpose = a) :
    (ofLower? a).isSome ↔ ∀ x, x ≠ 0 → 0 < x ⬝ᵥ a.matrix *ᵥ x := by
  induction n with
  | zero =>
    refine ⟨fun _ x hx => ?_, fun _ => rfl⟩
    exact absurd (Subsingleton.elim x 0) hx
  | succ n ih =>
    by_cases hp : a.corner ≤ (0 : ℝ)
    · -- The pivot is the form at the first unit vector.
      simp only [ofLower?, hp, if_true, Option.isSome_none, Bool.false_eq_true, false_iff]
      intro hpos
      have hunit := hpos (Pi.single 0 1) (by simp)
      rw [mulVec_single_one, single_one_dotProduct] at hunit
      exact absurd hp (not_le.mpr hunit)
    · have hsplits := splits_of_pivot ha (not_le.mp hp)
      have hd : Scalar.sqrt a.corner ≠ 0 := (Real.sqrt_pos.mpr (not_le.mp hp)).ne'
      rw [hsplits.form_pos_iff hd, ← ih]
      · simp [ofLower?, hp]
      · exact Mat.isSymm_matrix_iff.mp (hsplits.isSymm (Mat.isSymm_matrix_iff.mpr ha))

/-- The factor of a symmetric matrix solves its linear systems. -/
theorem mulVec_solve {n : Nat} {a : Mat ℝ n n} (ha : a.transpose = a) {l : Cholesky ℝ n}
    (hl : ofLower? a = some l) (b : Vec ℝ n) : a.mulVec (l.solve b) = b := by
  induction n with
  | zero =>
    ext i hi
    omega
  | succ n ih =>
    by_cases hp : a.corner ≤ (0 : ℝ)
    · simp [ofLower?, hp] at hl
    · have hsplits := splits_of_pivot ha (not_le.mp hp)
      have hd : Scalar.sqrt a.corner ≠ 0 := (Real.sqrt_pos.mpr (not_le.mp hp)).ne'
      simp only [ofLower?, hp, if_false, Option.map_eq_some_iff] at hl
      obtain ⟨rest, hrest, rfl⟩ := hl
      have hS := ih (Mat.isSymm_matrix_iff.mp (hsplits.isSymm (Mat.isSymm_matrix_iff.mpr ha)))
        hrest
      set d : ℝ := Scalar.sqrt a.corner
      set below := a.belowFirst.map (· / d)
      set y : ℝ := Vec.first b / d
      set x := rest.solve (Vec.rest b - Vec.scale y below)
      -- The first entry of the triangular matrix times the unknowns is what went below it.
      have hy : d * ((y - Vec.dot below x) / d) + Vec.fn below ⬝ᵥ x.fn = y := by
        rw [mul_div_cancel₀ _ hd, Vec.dot_eq]
        ring
      apply Vec.fn_injective
      rw [Mat.fn_mulVec]
      change a.matrix *ᵥ Vec.fn (Vec.cons ((y - Vec.dot below x) / d) x) = b.fn
      rw [Vec.fn_cons]
      ext i
      cases i using Fin.cases with
      | zero =>
        rw [hsplits.mulVec_zero, hy]
        exact mul_div_cancel₀ (Vec.first b) hd
      | succ i =>
        rw [hsplits.mulVec_succ, hy, ← Mat.fn_mulVec, hS]
        simp [Fin.tail]

theorem isFinite_real {n : Nat} (l : Cholesky ℝ n) : l.isFinite = true := by
  induction l with
  | empty => rfl
  | column diagonal below rest ih => simp [isFinite, Scalar.isFinite, ih]

end Cholesky

namespace Mat

@[simp] theorem matrix_symmetrize (a : Mat ℝ n n) :
    a.symmetrize.matrix = (1 / 2 : ℝ) • (a.matrix + a.matrixᵀ) := by
  rw [symmetrize, matrix_scale, matrix_add, matrix_transpose]
  norm_num

@[simp] theorem matrix_regularize (a : Mat ℝ n n) (weight : ℝ) :
    (a.regularize weight).matrix = a.matrix + weight • 1 := by
  rw [regularize, matrix_add, matrix_scale, matrix_identity]

theorem transpose_symmetrize (a : Mat ℝ n n) : a.symmetrize.transpose = a.symmetrize := by
  apply matrix_injective
  simp [add_comm]

theorem symmetrize_eq {a : Mat ℝ n n} (ha : a.transpose = a) : a.symmetrize = a := by
  apply matrix_injective
  rw [matrix_symmetrize, ← matrix_transpose, ha, ← two_smul ℝ, smul_smul]
  norm_num

theorem regularize_zero (a : Mat ℝ n n) : a.regularize 0 = a := by
  apply matrix_injective
  simp

theorem form_symmetrize (a : Mat ℝ n n) (x : Fin n → ℝ) :
    x ⬝ᵥ a.symmetrize.matrix *ᵥ x = x ⬝ᵥ a.matrix *ᵥ x := by
  have htranspose : x ⬝ᵥ a.matrixᵀ *ᵥ x = x ⬝ᵥ a.matrix *ᵥ x := by
    rw [mulVec_transpose, dotProduct_comm, ← dotProduct_mulVec]
  rw [matrix_symmetrize, smul_mulVec, add_mulVec, dotProduct_smul, dotProduct_add, htranspose,
    smul_eq_mul]
  ring

/-- Weight on the diagonal adds its multiple of the square to a form. -/
theorem form_regularize (a : Mat ℝ n n) (weight : ℝ) (x : Fin n → ℝ) :
    x ⬝ᵥ (a.regularize weight).matrix *ᵥ x = x ⬝ᵥ a.matrix *ᵥ x + weight * (x ⬝ᵥ x) := by
  rw [matrix_regularize, add_mulVec, dotProduct_add, smul_mulVec, one_mulVec, dotProduct_smul,
    smul_eq_mul]

theorem factor?_eq (a : Mat ℝ n n) : a.factor? = Cholesky.ofLower? a.symmetrize := by
  unfold factor?
  cases Cholesky.ofLower? a.symmetrize with
  | none => rfl
  | some l => simp [l.isFinite_real]

theorem isSome_factor? (a : Mat ℝ n n) :
    a.factor?.isSome ↔ ∀ x, x ≠ 0 → 0 < x ⬝ᵥ a.matrix *ᵥ x := by
  simp only [factor?_eq, Cholesky.isSome_ofLower? a.transpose_symmetrize, form_symmetrize]

theorem mulVec_solve {a : Mat ℝ n n} {l : Cholesky ℝ n} (hl : a.factor? = some l)
    (b : Vec ℝ n) : a.symmetrize.mulVec (l.solve b) = b := by
  rw [factor?_eq] at hl
  exact Cholesky.mulVec_solve a.transpose_symmetrize hl b

end Mat

end TrajOpt
