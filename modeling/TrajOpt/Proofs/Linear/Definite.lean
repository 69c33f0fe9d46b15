import TrajOpt.Proofs.Linear.Cholesky

/-!
# Systems with a positive definite matrix

Whether the symmetric part of a matrix is positive definite is found out by its factorization, and
its linear systems are solved with the factor. A positive definite matrix has exactly one factor, a
lower triangular matrix with a positive diagonal whose product with its transpose is the matrix, and
no other symmetric matrix has one. The columns of a `Cholesky` are those of such a triangular
matrix, and the factorization finds the factor whenever there is one.

## Main definitions

* `IsCholeskyFactor` - a triangular matrix is the factor of a matrix.
* `Cholesky.lower` - the triangular matrix of given columns.

## Main statements

* `Cholesky.isCholeskyFactor_column_iff` - a factor and its remaining columns.
* `Cholesky.ofLower?_eq_some_iff` - the factorization finds the factor.
* `Mat.mulVec_eq_iff_of_factor?`, `Mat.mul_eq_iff_of_factor?` - what is solved with it.
* `Mat.solves_iff_definite` - when a system is solved, by what, and with which regularization.
-/

namespace TrajOpt

open Matrix

variable {n m k : Nat}

/-- `L` is lower triangular with a positive diagonal, and its product with its transpose is `A`. -/
structure IsCholeskyFactor (L A : Matrix (Fin n) (Fin n) ℝ) : Prop where
  triangular : L.IsLowerTriangular
  diagonal_pos : ∀ i, 0 < L i i
  product : L * Lᵀ = A

namespace Mat.Splits

variable {A A' : Matrix (Fin (n + 1)) (Fin (n + 1)) ℝ} {d d' : ℝ} {w w' : Fin n → ℝ}
  {S S' : Matrix (Fin n) (Fin n) ℝ}

/-- A matrix is known by its first column and what is left of it. -/
theorem unique (h : Splits A d w S) (h' : Splits A' d w S) : A = A' := by
  ext i j
  cases i using Fin.cases with
  | zero =>
    cases j using Fin.cases with
    | zero => rw [h.corner, h'.corner]
    | succ j => rw [h.row, h'.row]
  | succ i =>
    cases j using Fin.cases with
    | zero => rw [h.column, h'.column]
    | succ j => rw [h.block, h'.block]

/-- There is one way to split a matrix with a positive pivot. -/
theorem parts_unique (h : Splits A d w S) (h' : Splits A d' w' S') (hd : 0 < d) (hd' : 0 < d') :
    d = d' ∧ w = w' ∧ S = S' := by
  obtain rfl : d = d' := (mul_self_inj hd.le hd'.le).1 (h.corner.symm.trans h'.corner)
  obtain rfl : w = w' := by
    ext i
    exact mul_left_cancel₀ hd.ne' ((h.column i).symm.trans (h'.column i))
  refine ⟨rfl, rfl, ?_⟩
  ext i j
  have hij := (h.block i j).symm.trans (h'.block i j)
  linarith

end Mat.Splits

namespace Cholesky

/-- The triangular matrix that the columns make up. -/
noncomputable def lower : {n : Nat} → Cholesky ℝ n → Matrix (Fin n) (Fin n) ℝ
  | _, empty => 0
  | _, column diagonal below rest =>
    Matrix.of (Fin.cons (Fin.cons diagonal 0) fun i => Fin.cons (below.fn i) (rest.lower i))

section Column

variable (d : ℝ) (w : Vec ℝ n) (rest : Cholesky ℝ n)

@[simp] theorem lower_corner : (column d w rest).lower 0 0 = d := rfl

@[simp] theorem lower_row (j : Fin n) : (column d w rest).lower 0 j.succ = 0 := rfl

@[simp] theorem lower_column (i : Fin n) : (column d w rest).lower i.succ 0 = w.fn i := rfl

@[simp] theorem lower_block (i j : Fin n) :
    (column d w rest).lower i.succ j.succ = rest.lower i j := rfl

/-- The product of a triangular matrix with its transpose splits into the first column and the
product for the remaining ones. -/
theorem splits_lower : Mat.Splits ((column d w rest).lower * (column d w rest).lowerᵀ) d w.fn
    (rest.lower * rest.lowerᵀ) := by
  refine ⟨?_, fun j => ?_, fun i => ?_, fun i j => ?_⟩ <;>
    simp [Matrix.mul_apply, Fin.sum_univ_succ, mul_comm]

end Column

theorem isLowerTriangular_lower {n : Nat} (l : Cholesky ℝ n) : l.lower.IsLowerTriangular := by
  induction l with
  | empty => exact fun i => i.elim0
  | column d w rest ih =>
    intro i j hij
    cases j using Fin.cases with
    | zero => exact absurd (OrderDual.toDual_lt_toDual.1 hij) (Fin.not_lt_zero i)
    | succ j =>
      cases i using Fin.cases with
      | zero => rfl
      | succ i => exact ih (Fin.succ_lt_succ_iff.1 (OrderDual.toDual_lt_toDual.1 hij))

/-- Every lower triangular matrix consists of columns. -/
theorem exists_lower_eq {n : Nat} {L : Matrix (Fin n) (Fin n) ℝ} (hL : L.IsLowerTriangular) :
    ∃ l : Cholesky ℝ n, l.lower = L := by
  induction n with
  | zero => exact ⟨empty, Subsingleton.elim _ _⟩
  | succ n ih =>
    have hblock : (L.submatrix Fin.succ Fin.succ).IsLowerTriangular :=
      fun i j hij => hL (Fin.succ_lt_succ_iff.2 hij)
    obtain ⟨rest, hrest⟩ := ih hblock
    refine ⟨column (L 0 0) (Vector.ofFn fun i => L i.succ 0) rest, ?_⟩
    ext i j
    cases i using Fin.cases with
    | zero =>
      cases j using Fin.cases with
      | zero => rfl
      | succ j => exact (hL (Fin.succ_pos j)).symm
    | succ i =>
      cases j using Fin.cases with
      | zero => simp [Vec.fn, Vec.get_eq]
      | succ j => exact congrFun (congrFun hrest i) j

/-- The factor of a matrix is its first column and the factor of what is left without it. -/
theorem isCholeskyFactor_column_iff {A : Matrix (Fin (n + 1)) (Fin (n + 1)) ℝ} {d : ℝ}
    {w : Vec ℝ n} {rest : Cholesky ℝ n} : IsCholeskyFactor (column d w rest).lower A ↔
      0 < d ∧ ∃ S, Mat.Splits A d w.fn S ∧ IsCholeskyFactor rest.lower S := by
  constructor
  · rintro ⟨-, hpos, rfl⟩
    exact ⟨hpos 0, _, splits_lower d w rest, rest.isLowerTriangular_lower,
      fun i => hpos i.succ, rfl⟩
  · rintro ⟨hd, S, hsplits, -, hpos, rfl⟩
    refine ⟨isLowerTriangular_lower _, fun i => ?_, (splits_lower d w rest).unique hsplits⟩
    cases i using Fin.cases with
    | zero => exact hd
    | succ i => exact hpos i

/-- The factorization of a symmetric matrix finds the factor, and nothing but the factor. -/
theorem ofLower?_eq_some_iff {n : Nat} {a : Mat ℝ n n} (ha : a.transpose = a)
    {l : Cholesky ℝ n} : ofLower? a = some l ↔ IsCholeskyFactor l.lower a.matrix := by
  induction n with
  | zero =>
    cases l
    exact ⟨fun _ => ⟨fun i => i.elim0, fun i => i.elim0, Subsingleton.elim _ _⟩, fun _ => rfl⟩
  | succ n ih =>
    obtain - | ⟨d, w, rest⟩ := l
    rw [isCholeskyFactor_column_iff]
    by_cases hp : a.corner ≤ (0 : ℝ)
    · -- The corner would be the square of the first entry of the diagonal.
      have hnone : ¬ (0 < d ∧ ∃ S, Mat.Splits a.matrix d w.fn S ∧
          IsCholeskyFactor rest.lower S) := by
        rintro ⟨hd, S, hsplits, -⟩
        have hcorner : a.corner = d * d := hsplits.corner
        exact absurd hp (not_le.2 (hcorner ▸ mul_pos hd hd))
      simp [ofLower?, hp, hnone]
    · have hsplits := splits_of_pivot ha (not_le.1 hp)
      have hroot : 0 < Scalar.sqrt a.corner := Real.sqrt_pos.2 (not_le.1 hp)
      have hrest := ih (Mat.isSymm_matrix_iff.1 (hsplits.isSymm (Mat.isSymm_matrix_iff.2 ha)))
        (l := rest)
      simp only [ofLower?, hp, if_false, Option.map_eq_some_iff, column.injEq]
      constructor
      · rintro ⟨rest, hfactor, rfl, rfl, rfl⟩
        exact ⟨hroot, _, hsplits, hrest.1 hfactor⟩
      · rintro ⟨hd, S, hsplits', hfactor⟩
        obtain ⟨rfl, hw, rfl⟩ := hsplits.parts_unique hsplits' hroot hd
        exact ⟨rest, hrest.2 hfactor, rfl, Vec.fn_injective hw, rfl⟩

end Cholesky

namespace Mat

variable {a : Mat ℝ n n} {l : Cholesky ℝ n}

theorem factor?_eq_some_iff :
    a.factor? = some l ↔ IsCholeskyFactor l.lower a.symmetrize.matrix := by
  rw [factor?_eq, Cholesky.ofLower?_eq_some_iff a.transpose_symmetrize]

/-- A symmetric part with a factor is invertible. -/
theorem isUnit_det_of_factor? (h : a.factor? = some l) : IsUnit a.symmetrize.matrix.det := by
  have hsymm : a.symmetrize.matrix.IsSymm := isSymm_matrix_iff.2 a.transpose_symmetrize
  have hform := a.isSome_factor?.1 (h ▸ rfl)
  have hdef : a.symmetrize.matrix.PosDef := by
    refine posDef_iff_dotProduct_mulVec.2 ⟨?_, fun x hx => ?_⟩
    · rwa [IsHermitian, conjTranspose_eq_transpose_of_trivial]
    · rw [star_trivial, form_symmetrize]
      exact hform x hx
  exact (isUnit_iff_isUnit_det _).1 hdef.isUnit

/-- The factor gives the only solution. -/
theorem mulVec_eq_iff_of_factor? (h : a.factor? = some l) (b y : Vec ℝ n) :
    a.symmetrize.mulVec y = b ↔ y = l.solve b := by
  constructor
  · intro hy
    have hinjective : Function.Injective a.symmetrize.matrix.mulVec :=
      mulVec_injective_iff_isUnit.2 ((isUnit_iff_isUnit_det _).2 (isUnit_det_of_factor? h))
    apply Vec.fn_injective
    apply hinjective
    rw [← fn_mulVec, ← fn_mulVec, hy, mulVec_solve h]
  · rintro rfl
    exact mulVec_solve h b

/-- The columns of a product are the products with the columns. -/
theorem columns_mul {α : Type} [Arith α] {r : Nat} (a : Mat α r k) (b : Mat α k m) :
    (a.mul b).transpose = b.transpose.map a.mulVec := by
  ext i hi j hj
  simp [mul, mulVec]

@[simp] theorem transpose_twice {α : Type} {r c : Nat} (a : Mat α r c) :
    a.transpose.transpose = a := by
  ext i hi j hj
  simp

theorem transpose_injective {α : Type} {r c : Nat} :
    Function.Injective (transpose : Mat α r c → Mat α c r) :=
  Function.LeftInverse.injective transpose_twice

/-- The factor gives the only solution for every column. -/
theorem mul_eq_iff_of_factor? (h : a.factor? = some l) (b y : Mat ℝ n k) :
    a.symmetrize.mul y = b ↔ y = transpose (b.transpose.map l.solve) := by
  have hcolumns : y.transpose.map a.symmetrize.mulVec = b.transpose ↔
      y.transpose = b.transpose.map l.solve := by
    simp only [Vector.ext_iff, Vector.getElem_map, mulVec_eq_iff_of_factor? h]
  rw [← transpose_injective.eq_iff, columns_mul, hcolumns, ← transpose_injective.eq_iff (a := y),
    transpose_twice]

/-- More weight on the diagonal keeps a matrix positive definite. -/
theorem isPositiveDefinite_regularize_mono {weight weight' : ℝ} (hle : weight ≤ weight')
    (h : (a.regularize weight).isPositiveDefinite = true) :
    (a.regularize weight').isPositiveDefinite = true := by
  rw [isPositiveDefinite, isSome_factor?] at h ⊢
  intro v hv
  have hpos := h v hv
  have hsquare : 0 ≤ v ⬝ᵥ v := Finset.sum_nonneg fun i _ => mul_self_nonneg (v i)
  have hmore := mul_le_mul_of_nonneg_right hle hsquare
  rw [form_regularize] at hpos ⊢
  linarith

/-- A system is solved exactly if the symmetric part `S` of its matrix is positive definite, that
is if `S` has a Cholesky factor, and what is found is the only solution of the system with `S`,
for one right-hand side and for many. Weight on the diagonal adds its multiple of the square to
the form of `S`, so that more of it never makes a system unsolvable. -/
theorem solves_iff_definite (H : Mat ℝ m m) :
    let S : Matrix (Fin m) (Fin m) ℝ := (1 / 2 : ℝ) • (H.matrix + H.matrixᵀ)
    let definite : Prop := ∀ v, v ≠ 0 → 0 < v ⬝ᵥ S *ᵥ v
    (∀ L, IsCholeskyFactor L S ↔ ∃ l, H.factor? = some l ∧ l.lower = L) ∧
    (H.isPositiveDefinite = true ↔ definite) ∧
    (∀ b : Vec ℝ m, ((H.solvePositiveDefinite? b).isSome ↔ definite) ∧
      ∀ x, H.solvePositiveDefinite? b = some x → ∀ y : Vec ℝ m, S *ᵥ y.fn = b.fn ↔ y = x) ∧
    (∀ k (B : Mat ℝ m k), ((H.solveColumns? B).isSome ↔ definite) ∧
      ∀ X, H.solveColumns? B = some X → ∀ Y : Mat ℝ m k, S * Y.matrix = B.matrix ↔ Y = X) ∧
    ∀ weight, ((H.regularize weight).isPositiveDefinite = true ↔
        ∀ v, v ≠ 0 → 0 < v ⬝ᵥ S *ᵥ v + weight * (v ⬝ᵥ v)) ∧
      ∀ weight', weight ≤ weight' → (H.regularize weight).isPositiveDefinite = true →
        (H.regularize weight').isPositiveDefinite = true := by
  intro S definite
  have hS : H.symmetrize.matrix = S := H.matrix_symmetrize
  have hdefinite : H.factor?.isSome ↔ definite := by
    simp only [definite, ← hS, form_symmetrize, isSome_factor?]
  refine ⟨fun L => ⟨fun hL => ?_, ?_⟩, hdefinite, fun b => ⟨?_, ?_⟩, fun k B => ⟨?_, ?_⟩,
    fun weight => ⟨?_, fun weight' hle => isPositiveDefinite_regularize_mono hle⟩⟩
  · obtain ⟨l, rfl⟩ := Cholesky.exists_lower_eq hL.triangular
    exact ⟨l, factor?_eq_some_iff.2 (hS ▸ hL), rfl⟩
  · rintro ⟨l, hl, rfl⟩
    exact hS ▸ factor?_eq_some_iff.1 hl
  · rw [solvePositiveDefinite?, Option.isSome_map, hdefinite]
  · intro x hx y
    obtain ⟨l, hl, rfl⟩ := Option.map_eq_some_iff.1 hx
    rw [← mulVec_eq_iff_of_factor? hl, ← hS, ← fn_mulVec, Vec.fn_injective.eq_iff]
  · rw [solveColumns?, Option.isSome_map, hdefinite]
  · intro X hX Y
    obtain ⟨l, hl, rfl⟩ := Option.map_eq_some_iff.1 hX
    rw [← mul_eq_iff_of_factor? hl, ← hS, ← matrix_mul, matrix_injective.eq_iff]
  · simp only [isPositiveDefinite, isSome_factor?, form_regularize, ← hS, form_symmetrize]

/-- A matrix that is not symmetric, with a system of two unknowns. -/
theorem solves_coupled :
    let H : Mat ℝ 2 2 := #v[#v[4, 4], #v[0, 5]]
    (H.regularize (-1)).isPositiveDefinite = true ∧ (H.regularize 3).isPositiveDefinite = true ∧
    H.solvePositiveDefinite? #v[6, 7] = some #v[1, 1] := by
  intro H
  obtain ⟨-, -, hvec, -, hweight⟩ := solves_iff_definite H
  have hform (v : Fin 2 → ℝ) : v ⬝ᵥ ((1 / 2 : ℝ) • (H.matrix + H.matrixᵀ)) *ᵥ v =
      (v 0 + 2 * v 1) ^ 2 + 2 * v 0 ^ 2 + v ⬝ᵥ v := by
    simp [H, dotProduct, matrix, Vec.get_eq, Fin.sum_univ_two]
    ring
  have hsquares (v : Fin 2 → ℝ) (hv : v ≠ 0) : 0 < (v 0 + 2 * v 1) ^ 2 + 2 * v 0 ^ 2 := by
    by_contra hle
    have hfirst : v 0 = 0 := by nlinarith [sq_nonneg (v 0), sq_nonneg (v 0 + 2 * v 1)]
    have hsecond : v 1 = 0 := by nlinarith [sq_nonneg (v 1)]
    exact hv (funext fun i => by fin_cases i <;> assumption)
  have hlow : (H.regularize (-1)).isPositiveDefinite = true := by
    refine (hweight (-1)).1.2 fun v hv => ?_
    have hpos := hsquares v hv
    rw [hform]
    linarith
  refine ⟨hlow, (hweight (-1)).2 3 (by norm_num) hlow, ?_⟩
  have hsome : (H.solvePositiveDefinite? #v[6, 7]).isSome := by
    refine (hvec _).1.2 fun v hv => ?_
    have hpos := hsquares v hv
    have hsquare : 0 ≤ v ⬝ᵥ v := Finset.sum_nonneg fun i _ => mul_self_nonneg (v i)
    rw [hform]
    linarith
  obtain ⟨x, hx⟩ := Option.isSome_iff_exists.1 hsome
  have hone : (#v[1, 1] : Vec ℝ 2) = x := by
    refine ((hvec _).2 x hx _).1 (funext fun i => ?_)
    fin_cases i <;>
      norm_num [H, dotProduct, matrix, Vec.fn, Vec.get_eq, Fin.sum_univ_two]
  rw [hx, hone]

end Mat

end TrajOpt
