import TrajOpt.Proofs.Linear.Cholesky
import TrajOpt.Proofs.Linear.Forms
import TrajOpt.Proofs.Objective.Update

/-!
# The control weight

The control weight of a cost is checked by a factorization, which reads the lower triangle of the
matrix and nothing else. So what is known of a weight that passes is that the symmetric matrix with
this lower triangle is positive definite. That is the weight itself where it is symmetric, and then
the cost of an interval is strictly convex in the control and least for no control at all. Nothing
checks that it is symmetric.

## Main definitions

* `Mat.mirror` - the symmetric matrix that a lower triangle describes.

## Main statements

* `Cholesky.isSome_ofLower?_iff` - which matrices pass the check.
* `QuadraticCost.strictConvexOn_stage_iff` - when the cost of an interval is strictly convex.
* `QuadraticCost.controlWeight_of_isBuilt` - what is true of the weight of every cost.
* `QuadraticCost.exists_negative_controlWeight` - a weight that passes and has a negative form.
-/

namespace TrajOpt

open Matrix

variable {n m : Nat}

namespace Mat

/-- The symmetric matrix that the lower triangle of `w` describes. -/
def mirror {α : Type} (w : Mat α n n) : Mat α n n :=
  Vector.ofFn fun i => Vector.ofFn fun j => if j ≤ i then (w.get i).get j else (w.get j).get i

theorem getElem_mirror {α : Type} (w : Mat α n n) {i j : Nat} (hi : i < n) (hj : j < n) :
    w.mirror[i][j] = if j ≤ i then w[i][j] else w[j][i] := by
  simp [mirror, Vec.get_eq]

theorem transpose_mirror {α : Type} (w : Mat α n n) : w.mirror.transpose = w.mirror := by
  ext i hi j hj
  rw [getElem_transpose, getElem_mirror, getElem_mirror]
  obtain h | rfl | h := Nat.lt_trichotomy i j
  · rw [if_pos h.le, if_neg (not_le.2 h)]
  · rfl
  · rw [if_neg (not_le.2 h), if_pos h.le]

/-- A symmetric matrix is the one that its lower triangle describes. -/
theorem mirror_eq {α : Type} {w : Mat α n n} (hw : w.transpose = w) : w.mirror = w := by
  ext i hi j hj
  rw [getElem_mirror]
  split
  · rfl
  · rw [← getElem_transpose w hi hj]
    simp only [hw]

end Mat

namespace Cholesky

/-- The factorization reads the lower triangle only. -/
theorem ofLower?_congr {α : Type} [Scalar α] {n : Nat} {a b : Mat α n n}
    (h : ∀ i j (hi : i < n) (hj : j < n), j ≤ i → a[i][j] = b[i][j]) :
    ofLower? a = ofLower? b := by
  induction n with
  | zero => rfl
  | succ n ih =>
    have hcorner : a.corner = b.corner := h 0 0 (by omega) (by omega) le_rfl
    have hbelow : a.belowFirst = b.belowFirst := by
      ext i hi
      simpa [Mat.belowFirst] using h (i + 1) 0 (by omega) (by omega) (by omega)
    have hrest : ofLower? (a.minor - Mat.outer (a.belowFirst.map (· / Scalar.sqrt a.corner))
          (a.belowFirst.map (· / Scalar.sqrt a.corner))) =
        ofLower? (b.minor - Mat.outer (a.belowFirst.map (· / Scalar.sqrt a.corner))
          (a.belowFirst.map (· / Scalar.sqrt a.corner))) := by
      refine ih fun i j hi hj hij => ?_
      have hentry := h (i + 1) (j + 1) (by omega) (by omega) (by omega)
      simp [Mat.minor, hentry]
    simp only [ofLower?, ← hcorner, ← hbelow, hrest]

/-- A matrix has a factor exactly if the symmetric matrix with its lower triangle is positive
definite. -/
theorem isSome_ofLower?_iff (a : Mat ℝ n n) :
    (ofLower? a).isSome ↔ ∀ x, x ≠ 0 → 0 < x ⬝ᵥ a.mirror.matrix *ᵥ x := by
  have hmirror : ofLower? a = ofLower? a.mirror := by
    refine ofLower?_congr fun i j hi hj hij => ?_
    rw [Mat.getElem_mirror, if_pos hij]
  rw [hmirror, isSome_ofLower? a.transpose_mirror]

end Cholesky

/-- A quadratic form between two points, for a matrix that need not be symmetric. -/
theorem form_combination (A : Matrix (Fin m) (Fin m) ℝ) (u v : Fin m → ℝ) {a b : ℝ}
    (hab : a + b = 1) :
    (a • u + b • v) ⬝ᵥ A *ᵥ (a • u + b • v) =
      a * (u ⬝ᵥ A *ᵥ u) + b * (v ⬝ᵥ A *ᵥ v) - a * b * ((u - v) ⬝ᵥ A *ᵥ (u - v)) := by
  obtain rfl : b = 1 - a := by linarith
  simp only [mulVec_add, mulVec_sub, mulVec_smul, add_dotProduct, sub_dotProduct, smul_dotProduct,
    dotProduct_add, dotProduct_sub, dotProduct_smul, smul_eq_mul]
  ring

namespace QuadraticCost

variable {cost : QuadraticCost ℝ n m}

theorem stage_ofFn (cost : QuadraticCost ℝ n m) (x : Vec ℝ n) (v : Fin m → ℝ) (dt : ℝ) :
    cost.stage x (Vector.ofFn v) dt =
      (v ⬝ᵥ cost.R.matrix *ᵥ v) / 2 * dt + (cost.Q.halfForm (x - cost.xf) + cost.c) * dt := by
  rw [stage, Mat.halfForm_eq cost.R, Vec.fn_ofFn]
  ring

/-- The cost of an interval is strictly convex in the control exactly if the weight has a positive
form. -/
theorem strictConvexOn_stage_iff (cost : QuadraticCost ℝ n m) (x : Vec ℝ n) {dt : ℝ}
    (hdt : 0 < dt) :
    StrictConvexOn ℝ Set.univ (fun v : Fin m → ℝ => cost.stage x (Vector.ofFn v) dt) ↔
      ∀ u, u ≠ Vec.zero m → 0 < Mat.bilinear u cost.R u := by
  simp only [StrictConvexOn, convex_univ, Set.mem_univ, true_implies, true_and, stage_ofFn,
    smul_eq_mul, Mat.bilinear_eq]
  constructor
  · intro hconvex u hu
    have hhalf : (1 / 2 : ℝ) + 1 / 2 = 1 := by norm_num
    have hlt := hconvex (Vec.fn_ne_zero hu) (a := 1 / 2) (b := 1 / 2) (by norm_num) (by norm_num)
      hhalf
    rw [form_combination _ _ _ hhalf, sub_zero, mulVec_zero, dotProduct_zero] at hlt
    nlinarith
  · intro hpos u v huv a b ha hb hab
    have hform := hpos (Vector.ofFn (u - v)) fun hzero => sub_ne_zero.2 huv (by
      rw [← Vec.fn_ofFn (u - v), hzero, Vec.fn_zero])
    rw [Vec.fn_ofFn] at hform
    have hgap : 0 < a * b * ((u - v) ⬝ᵥ cost.R.matrix *ᵥ (u - v)) := by positivity
    rw [form_combination _ _ _ hab]
    obtain rfl : b = 1 - a := by linarith
    nlinarith

/-- A weight with a positive form makes any control dearer than none. -/
theorem stage_zero_le {cost : QuadraticCost ℝ n m}
    (hpos : ∀ u, u ≠ Vec.zero m → 0 < Mat.bilinear u cost.R u) (x : Vec ℝ n) {dt : ℝ}
    (hdt : 0 < dt) (u : Vec ℝ m) : cost.stage x (Vec.zero m) dt ≤ cost.stage x u dt := by
  have hform : 0 ≤ cost.R.halfForm u := by
    by_cases hu : u = Vec.zero m
    · rw [hu, Mat.halfForm_zero]
    · have := hpos u hu
      rw [Mat.bilinear_eq] at this
      rw [Mat.halfForm_eq]
      linarith
  simp only [stage, Mat.halfForm_zero]
  nlinarith

/-- The symmetric matrix with the lower triangle of the control weight is positive definite, in
whatever way the cost was built. Where the control weight is symmetric, it is positive definite
itself. The cost of an interval is strictly convex in the control exactly if the form of the weight
is positive, and then it is bounded from below by that of no control. -/
theorem controlWeight_of_isBuilt {cost : QuadraticCost ℝ n m} (h : cost.IsBuilt) :
    (∀ u, u ≠ Vec.zero m → 0 < Mat.bilinear u cost.R.mirror u) ∧
    (cost.R.transpose = cost.R → ∀ u, u ≠ Vec.zero m → 0 < Mat.bilinear u cost.R u) ∧
    ∀ x dt, 0 < dt →
      (StrictConvexOn ℝ Set.univ (fun v : Fin m → ℝ => cost.stage x (Vector.ofFn v) dt) ↔
        ∀ u, u ≠ Vec.zero m → 0 < Mat.bilinear u cost.R u) ∧
      ((∀ u, u ≠ Vec.zero m → 0 < Mat.bilinear u cost.R u) →
        ∀ u, cost.stage x (Vec.zero m) dt ≤ cost.stage x u dt) := by
  obtain ⟨d, builder, hbuild⟩ := h
  obtain ⟨q, r, qf, tf, x0, xf, -, -, -, hcontrol, -⟩ := CostDraft.build_eq_ok.1 hbuild
  obtain ⟨-, -, hfactor⟩ := CostDraft.controlWeight_eq_ok.1 hcontrol
  have hmirror : ∀ u, u ≠ Vec.zero m → 0 < Mat.bilinear u cost.R.mirror u := by
    intro u hu
    rw [Mat.bilinear_eq]
    exact (Cholesky.isSome_ofLower?_iff _).1 hfactor u.fn (Vec.fn_ne_zero hu)
  refine ⟨hmirror, fun hsymm => Mat.mirror_eq hsymm ▸ hmirror, fun x dt hdt => ⟨?_, ?_⟩⟩
  · exact cost.strictConvexOn_stage_iff x hdt
  · exact fun hpos => stage_zero_le hpos x hdt

section Examples

/-- A cost of one state that is not weighted and two controls that are weighted by `R`. -/
noncomputable def ofControlWeight (R : Mat ℝ 2 2) : QuadraticCost ℝ 1 2 where
  Q := Mat.zero 1 1
  R
  Qf := Mat.zero 1 1
  tf := 1
  x0 := Vec.const 1 1
  xf := Vec.zero 1
  c := 0

theorem isBuilt_ofControlWeight {R : Mat ℝ 2 2}
    (h : ∀ x, x ≠ 0 → 0 < x ⬝ᵥ R.mirror.matrix *ᵥ x) : (ofControlWeight R).IsBuilt := by
  have hsymmetric : Mat.isSymmetric (Mat.zero 1 1 : Mat ℝ 1 1) = true := by
    simp [Mat.isSymmetric, Mat.closeTo, Mat.transpose, Mat.zero, Vec.const, Vec.zero]
  have hcorner (a : ℝ) : (Mat.regularize (Mat.zero 1 1) a : Mat ℝ 1 1).corner = a := by
    have hentry := congrFun (congrFun (Mat.matrix_regularize (Mat.zero 1 1 : Mat ℝ 1 1) a) 0) 0
    simpa [Mat.corner, Mat.matrix, Vec.get_eq] using hentry
  have hsemidefinite : Mat.isSemidefinite (Mat.zero 1 1 : Mat ℝ 1 1) = true := by
    simp [Mat.isSemidefinite, Mat.hasNoNegativePivot, hcorner, Arith.larger_eq_max]
    have hlargest : (Mat.zero 1 1 : Mat ℝ 1 1).foldl
        (fun a row => row.foldl (fun a b => max a (Scalar.abs b)) a) 1 = max 1 (Scalar.abs 0) := rfl
    rw [hlargest]
    positivity
  have hvalid : (ofControlWeight R).Valid :=
    ⟨one_ne_zero, two_ne_zero, ⟨hsymmetric, hsemidefinite⟩, ⟨hsymmetric, hsemidefinite⟩,
      (Cholesky.isSome_ofLower?_iff R).2 h, by norm_num [ofControlWeight],
      by norm_num [ofControlWeight]⟩
  exact ⟨_, _, hvalid.replace_nil⟩

theorem form_two (w : Mat ℝ 2 2) (x : Fin 2 → ℝ) : x ⬝ᵥ w.matrix *ᵥ x =
    w[0][0] * x 0 ^ 2 + (w[0][1] + w[1][0]) * x 0 * x 1 + w[1][1] * x 1 ^ 2 := by
  simp only [dotProduct, mulVec, Fin.sum_univ_two, Mat.matrix, Vec.get_eq, Fin.val_zero,
    Fin.val_one]
  ring

theorem squares_pos {x : Fin 2 → ℝ} (hx : x ≠ 0) : 0 < x 0 ^ 2 + x 1 ^ 2 := by
  have hne : x ⬝ᵥ x ≠ 0 := mt dotProduct_self_eq_zero.1 hx
  rw [dotProduct, Fin.sum_univ_two, ← pow_two, ← pow_two] at hne
  exact lt_of_le_of_ne (by positivity) hne.symm

/-- A symmetric weight with a negative entry. -/
theorem controlWeight_coupled : (ofControlWeight #v[#v[2, -1], #v[-1, 2]]).IsBuilt ∧
    (∀ u, u ≠ Vec.zero 2 →
      0 < Mat.bilinear u (ofControlWeight #v[#v[2, -1], #v[-1, 2]]).R u) ∧
    StrictConvexOn ℝ Set.univ (fun v : Fin 2 → ℝ =>
      (ofControlWeight #v[#v[2, -1], #v[-1, 2]]).stage #v[1] (Vector.ofFn v) (1 / 2)) := by
  have hsymm : Mat.transpose (#v[#v[2, -1], #v[-1, 2]] : Mat ℝ 2 2) =
      #v[#v[2, -1], #v[-1, 2]] := by
    rw [← Mat.isSymm_matrix_iff]
    ext i j
    fin_cases i <;> fin_cases j <;> rfl
  have hbuilt : (ofControlWeight #v[#v[2, -1], #v[-1, 2]]).IsBuilt := by
    refine isBuilt_ofControlWeight fun x hx => ?_
    have hform : x ⬝ᵥ Mat.matrix (#v[#v[2, -1], #v[-1, 2]] : Mat ℝ 2 2) *ᵥ x =
        x 0 ^ 2 + x 1 ^ 2 + (x 0 - x 1) ^ 2 := by
      rw [form_two]
      simp
      ring
    have hpos := squares_pos hx
    rw [Mat.mirror_eq hsymm, hform]
    positivity
  obtain ⟨-, hpos, hconvex⟩ := controlWeight_of_isBuilt hbuilt
  exact ⟨hbuilt, hpos hsymm, (hconvex #v[1] (1 / 2) (by norm_num)).1.2 (hpos hsymm)⟩

/-- A weight whose lower triangle is that of the identity, so that it passes, and whose form is
negative at equal controls. -/
theorem exists_negative_controlWeight :
    (ofControlWeight #v[#v[1, -4], #v[0, 1]]).IsBuilt ∧ (#v[1, 1] : Vec ℝ 2) ≠ Vec.zero 2 ∧
    Mat.bilinear #v[1, 1] (ofControlWeight #v[#v[1, -4], #v[0, 1]]).R #v[1, 1] = -2 := by
  refine ⟨isBuilt_ofControlWeight fun x hx => ?_, fun hzero => ?_, ?_⟩
  · have hform : x ⬝ᵥ (Mat.mirror #v[#v[1, -4], #v[0, 1]] : Mat ℝ 2 2).matrix *ᵥ x =
        x 0 ^ 2 + x 1 ^ 2 := by
      rw [form_two]
      simp [Mat.mirror]
    rw [hform]
    exact squares_pos hx
  · have hentry := congrArg (fun v : Vec ℝ 2 => v[0]) hzero
    simp [Vec.zero] at hentry
  · rw [Mat.bilinear_eq, form_two]
    simp [ofControlWeight, Vec.fn, Vec.get_eq]
    norm_num

end Examples

end QuadraticCost

end TrajOpt
