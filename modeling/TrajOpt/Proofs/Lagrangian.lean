import Mathlib
import TrajOpt.Lagrangian
import TrajOpt.Proofs.Problem.Quadratic

/-!
# The augmented Lagrangian and its expansion

The cost with the terms of the constraints and its expansion are computed apart from each other.
With quadratic costs and affine constraints, the linear part of the expansion leaves out of a change
of the cost what the second derivatives say, as long as no constraint becomes active or ceases to
be. Where one does, what is left out stays between no curvature of the penalties and the curvature
of all of them.

The entries of a constraint vector, the knots and the final state all enter by a sum, so a bound for
each of them, kept by addition, is enough.

## Main definitions

* `Expansion.slope`, `Expansion.curvature` - the linear and the quadratic part of a change.
* `Lagrangian.active`, `Lagrangian.allActive` - which constraints are active along a path, and the
  Lagrangian that takes all of them as active.
* `Remainder` - the bounds for what a linear part leaves out.

## Main statements

* `remainder_entry` - what is left out of the terms of one constraint.
* `Lagrangian.remainder_of_expand` - what is left out along a path.
-/

namespace TrajOpt

open Matrix

section Definitions

variable {α : Type} [Scalar α] {n m p q : Nat}

/-- The deviation of one knot from another. -/
instance : Sub (Knot α n m) := ⟨fun k' k => ⟨k'.state - k.state, k'.control - k.control⟩⟩

/-- The deviations of the states and controls of one path from those of another. -/
instance : Sub (Path α n m) :=
  ⟨fun path' path => ⟨List.zipWith (· - ·) path'.knots path.knots, path'.final - path.final⟩⟩

namespace Expansion

/-- The linear part of the change of the costs of knots for the given deviations. -/
def slopeOver (es : List (StageExpansion α n m)) (ds : List (Knot α n m)) : α :=
  (List.zipWith (fun (e : StageExpansion α n m) d => e.slope d.state d.control) es ds).sum

/-- The quadratic part of the change of the costs of knots for the given deviations. -/
def curvatureOver (es : List (StageExpansion α n m)) (ds : List (Knot α n m)) : α :=
  (List.zipWith (fun (e : StageExpansion α n m) d => e.curvature d.state d.control) es ds).sum

/-- The linear part of the change of the cost for the given deviations. -/
def slope (e : Expansion α n m) (d : Path α n m) : α :=
  slopeOver e.stages d.knots + Vec.dot e.Vx d.final

/-- The quadratic part of the change of the cost for the given deviations. -/
def curvature (e : Expansion α n m) (d : Path α n m) : α :=
  curvatureOver e.stages d.knots + e.Vxx.halfForm d.final

end Expansion

namespace Lagrangian

/-- The active constraints on knots with the given weights. -/
def activeOver (l : Lagrangian α n m p q) (ks : List (Knot α n m)) (ws : List (Weights α p)) :
    List (Vec Bool p) :=
  List.zipWith (fun k w => w.active l.problem.stageConstraints.isEquality
    (l.problem.stageConstraints.value k.state k.control)) ks ws

/-- The active constraints along a path, on the knots and on the final state. -/
def active (l : Lagrangian α n m p q) (path : Path α n m) : List (Vec Bool p) × Vec Bool q :=
  (l.activeOver path.knots l.multipliers.stages,
    l.multipliers.terminal.active l.problem.terminalConstraints.isEquality
      (l.problem.terminalConstraints.value path.final))

/-- The Lagrangian of the same constraints as equalities, whose penalties are all active. -/
def allActive (l : Lagrangian α n m p q) : Lagrangian α n m p q where
  problem := { l.problem with
    stageConstraints := { l.problem.stageConstraints with isEquality := Vec.const p true }
    terminalConstraints := { l.problem.terminalConstraints with isEquality := Vec.const q true } }
  multipliers := l.multipliers

/-- The cost of a knot with the terms of its constraints. -/
def knotCost (l : Lagrangian α n m p q) (k : Knot α n m) (w : Weights α p) : α :=
  l.problem.stageCost.value k.state k.control +
    w.penalty l.problem.stageConstraints.isEquality
      (l.problem.stageConstraints.value k.state k.control)

end Lagrangian

end Definitions

variable {n m p q k : Nat}

/-- No penalty of a constraint vector is negative. -/
def Weights.NonnegPenalties (w : Weights ℝ p) : Prop := ∀ i, 0 ≤ w.mu.fn i

/-- No penalty of any constraint along a path is negative. -/
structure Multipliers.NonnegPenalties (w : Multipliers ℝ p q) : Prop where
  stages : ∀ s ∈ w.stages, s.NonnegPenalties
  terminal : w.terminal.NonnegPenalties

/-- What is known of a remainder: two bounds, and its value under a condition. -/
structure Remainder (same : Prop) (lower upper value remainder : ℝ) : Prop where
  lower_le : lower ≤ remainder
  le_upper : remainder ≤ upper
  eq_value : same → remainder = value

namespace Remainder

variable {s t : Prop} {l u v r l' u' v' r' : ℝ}

theorem of_eq (h : r = v) : Remainder s v v v r := ⟨h.ge, h.le, fun _ => h⟩

theorem add (h : Remainder s l u v r) (h' : Remainder t l' u' v' r') :
    Remainder (s ∧ t) (l + l') (u + u') (v + v') (r + r') :=
  ⟨add_le_add h.lower_le h'.lower_le, add_le_add h.le_upper h'.le_upper,
    fun hst => congrArg₂ (· + ·) (h.eq_value hst.1) (h'.eq_value hst.2)⟩

theorem imp (h : Remainder s l u v r) (hst : t → s) : Remainder t l u v r :=
  ⟨h.lower_le, h.le_upper, fun ht => h.eq_value (hst ht)⟩

end Remainder

/-- The sum of the squares of the entries of `v`, with the given weights. -/
noncomputable def Vec.squares (w v : Vec ℝ p) : ℝ := ∑ i, w.fn i * v.fn i ^ 2

theorem Vec.squares_nonneg {w : Vec ℝ p} (hw : ∀ i, 0 ≤ w.fn i) (v : Vec ℝ p) :
    0 ≤ squares w v := by
  refine Finset.sum_nonneg fun i _ => ?_
  have hi := hw i
  positivity

theorem isActive_eq_false_iff {isEquality : Bool} {c lam : ℝ} :
    isActive isEquality c lam = false ↔ isEquality = false ∧ c ≤ 0 ∧ lam ≤ 0 := by
  simp [isActive, and_assoc]

/-- What the linear part of the terms of a constraint leaves out. -/
theorem remainder_entry (isEquality : Bool) {mu : ℝ} (hmu : 0 ≤ mu) (lam c c' : ℝ) :
    Remainder (isActive isEquality c' lam = isActive isEquality c lam) 0 (mu * (c' - c) ^ 2 / 2)
      (activePenalty isEquality c lam mu * (c' - c) ^ 2 / 2)
      (lam * c' + 0.5 * activePenalty isEquality c' lam mu * c' * c' -
        (lam * c + 0.5 * activePenalty isEquality c lam mu * c * c) -
        (lam + activePenalty isEquality c lam mu * c) * (c' - c)) := by
  have hremainder : ∀ I I' : ℝ, lam * c' + 0.5 * I' * c' * c' - (lam * c + 0.5 * I * c * c) -
      (lam + I * c) * (c' - c) = I' * c' ^ 2 / 2 + I * c ^ 2 / 2 - I * c * c' := by
    intro I I'
    ring
  -- Where one value is active and the other is not, the one is positive and the other is not.
  have hsign : ∀ {a b : ℝ}, isActive isEquality a lam = false →
      isActive isEquality b lam = true → a ≤ 0 ∧ 0 < b := by
    intro a b ha hb
    obtain ⟨hequality, hle, hlam⟩ := isActive_eq_false_iff.1 ha
    exact ⟨hle, by simpa [isActive, hequality, not_lt.mpr hlam] using hb⟩
  have hc2 : 0 ≤ mu * c ^ 2 := by positivity
  have hc2' : 0 ≤ mu * c' ^ 2 := by positivity
  have hsquare : 0 ≤ mu * (c' - c) ^ 2 / 2 := by positivity
  rw [hremainder]
  unfold activePenalty
  cases h : isActive isEquality c lam with
  | false =>
    cases h' : isActive isEquality c' lam with
    | false => exact ⟨by simp, by simpa using hsquare, by simp⟩
    | true =>
      obtain ⟨hc, hc'⟩ := hsign h h'
      have hcross : 0 ≤ mu * (c' * -c) := mul_nonneg hmu (mul_nonneg hc'.le (by linarith))
      simp only [if_true, if_false, Bool.false_eq_true]
      exact ⟨by linarith, by linarith, by simp⟩
  | true =>
    cases h' : isActive isEquality c' lam with
    | false =>
      obtain ⟨hc', hc⟩ := hsign h' h
      have hcross : 0 ≤ mu * (c * -c') := mul_nonneg hmu (mul_nonneg hc.le (by linarith))
      simp only [if_true, if_false, Bool.false_eq_true]
      exact ⟨by linarith, by linarith, by simp⟩
    | true =>
      have heq : mu * c' ^ 2 / 2 + mu * c ^ 2 / 2 - mu * c * c' = mu * (c' - c) ^ 2 / 2 := by ring
      simp only [if_true]
      rw [heq]
      exact ⟨hsquare, le_rfl, fun _ => rfl⟩

namespace Weights

@[simp] theorem fn_activePenalties (w : Weights ℝ p) (isEquality : Vec Bool p) (c : Vec ℝ p)
    (i : Fin p) : (w.activePenalties isEquality c).fn i =
      activePenalty (isEquality.get i) (c.fn i) (w.lam.fn i) (w.mu.fn i) := by
  rw [activePenalties, Vec.fn_ofFn]
  rfl

theorem penalty_eq (w : Weights ℝ p) (isEquality : Vec Bool p) (c : Vec ℝ p) :
    w.penalty isEquality c = ∑ i, (w.lam.fn i * c.fn i +
      0.5 * (w.activePenalties isEquality c).fn i * c.fn i * c.fn i) := by
  rw [penalty, Vec.sum_eq, Vec.fn_ofFn]
  rfl

theorem dot_gradientWeights (w : Weights ℝ p) (isEquality : Vec Bool p) (c v : Vec ℝ p) :
    Vec.dot (w.gradientWeights isEquality c) v =
      ∑ i, (w.lam.fn i + (w.activePenalties isEquality c).fn i * c.fn i) * v.fn i := by
  rw [Vec.dot_eq, gradientWeights, Vec.fn_ofFn]
  rfl

theorem activePenalties_const_true (w : Weights ℝ p) (c : Vec ℝ p) :
    w.activePenalties (Vec.const p true) c = w.mu := by
  apply Vec.fn_injective
  ext i
  simp [activePenalty, isActive, Vec.get_eq]

theorem activePenalties_nonneg {w : Weights ℝ p} (hw : w.NonnegPenalties)
    (isEquality : Vec Bool p) (c : Vec ℝ p) (i : Fin p) :
    0 ≤ (w.activePenalties isEquality c).fn i := by
  rw [fn_activePenalties, activePenalty]
  split
  · exact hw i
  · exact le_rfl

end Weights

theorem Remainder.sum {s : Fin p → Prop} {l u v r : Fin p → ℝ}
    (h : ∀ i, Remainder (s i) (l i) (u i) (v i) (r i)) :
    Remainder (∀ i, s i) (∑ i, l i) (∑ i, u i) (∑ i, v i) (∑ i, r i) :=
  ⟨Finset.sum_le_sum fun i _ => (h i).lower_le, Finset.sum_le_sum fun i _ => (h i).le_upper,
    fun hs => Finset.sum_congr rfl fun i _ => (h i).eq_value (hs i)⟩

/-- What the linear part of the terms of a constraint vector leaves out. -/
theorem remainder_penalty {w : Weights ℝ p} (hw : w.NonnegPenalties) (isEquality : Vec Bool p)
    (c c' : Vec ℝ p) :
    Remainder (w.active isEquality c' = w.active isEquality c) 0 (Vec.squares w.mu (c' - c) / 2)
      (Vec.squares (w.activePenalties isEquality c) (c' - c) / 2)
      (w.penalty isEquality c' - w.penalty isEquality c -
        Vec.dot (w.gradientWeights isEquality c) (c' - c)) := by
  have hsum := Remainder.sum fun i =>
    remainder_entry (isEquality.get i) (hw i) (w.lam.fn i) (c.fn i) (c'.fn i)
  have hactive : w.active isEquality c' = w.active isEquality c → ∀ i,
      isActive (isEquality.get i) (c'.fn i) (w.lam.fn i) =
        isActive (isEquality.get i) (c.fn i) (w.lam.fn i) := by
    intro h i
    simpa [Weights.active, Vec.get_eq, Vec.fn] using congrArg (Vector.get · i) h
  rw [Weights.penalty_eq, Weights.penalty_eq, Weights.dot_gradientWeights,
    ← Finset.sum_sub_distrib, ← Finset.sum_sub_distrib]
  simpa [Vec.squares, Finset.sum_div] using hsum.imp hactive

/-- The terms that a constraint vector adds to the linear part of a change. -/
theorem slope_addStageTerms (isEquality : Vec Bool p) (e : StageExpansion ℝ n m) (w : Weights ℝ p)
    (c : Vec ℝ p) (Cx : Mat ℝ p n) (Cu : Mat ℝ p m) (dx : Vec ℝ n) (du : Vec ℝ m) :
    (Lagrangian.addStageTerms isEquality e w c Cx Cu).slope dx du = e.slope dx du +
      Vec.dot (w.gradientWeights isEquality c) (Cx.mulVec dx + Cu.mulVec du) := by
  simp only [Lagrangian.addStageTerms, StageTerms.slope, Vec.dot_eq, Vec.fn_add, Mat.fn_vecMul,
    Mat.fn_mulVec, add_dotProduct, dotProduct_add, ← dotProduct_mulVec]
  ring

theorem dotProduct_diagonal_mulVec (w x y : Fin p → ℝ) :
    x ⬝ᵥ Matrix.diagonal w *ᵥ y = ∑ i, w i * (x i * y i) := by
  simp only [dotProduct, mulVec_diagonal]
  exact Finset.sum_congr rfl fun i _ => by ring

theorem matrix_weightedProduct (A : Mat ℝ k n) (w : Vec ℝ k) (B : Mat ℝ k m) :
    (Lagrangian.weightedProduct A w B).matrix =
      A.matrixᵀ * (Matrix.diagonal w.fn * B.matrix) := by
  rw [Lagrangian.weightedProduct, Mat.matrix_mul, Mat.matrix_transpose]
  congr 1
  ext i j
  simp [Mat.matrix, Vec.get_eq, Vec.fn]

theorem dotProduct_weightedProduct (A : Mat ℝ k n) (w : Vec ℝ k) (B : Mat ℝ k m) (x : Fin n → ℝ)
    (y : Fin m → ℝ) : x ⬝ᵥ (Lagrangian.weightedProduct A w B).matrix *ᵥ y =
      ∑ i, w.fn i * ((A.matrix *ᵥ x) i * (B.matrix *ᵥ y) i) := by
  rw [matrix_weightedProduct, ← mulVec_mulVec, dotProduct_transpose_mulVec, ← mulVec_mulVec,
    dotProduct_diagonal_mulVec]

theorem isSymm_weightedProduct (A : Mat ℝ k n) (w : Vec ℝ k) :
    (Lagrangian.weightedProduct A w A).matrix.IsSymm := by
  rw [matrix_weightedProduct, IsSymm, transpose_mul, transpose_mul, transpose_transpose,
    diagonal_transpose, Matrix.mul_assoc]

/-- The terms that a constraint vector adds to a form of the final state. -/
theorem halfForm_add_weightedProduct (H : Mat ℝ n n) (A : Mat ℝ k n) (w : Vec ℝ k) (d : Vec ℝ n) :
    (H + Lagrangian.weightedProduct A w A).halfForm d =
      H.halfForm d + Vec.squares w (A.mulVec d) / 2 := by
  simp only [Mat.halfForm_eq, Mat.matrix_add, add_mulVec, dotProduct_add,
    dotProduct_weightedProduct, Vec.squares, Mat.fn_mulVec, add_div]
  congr 2
  exact Finset.sum_congr rfl fun i _ => by ring

/-- The terms that a constraint vector adds to the quadratic part of a change. -/
theorem curvature_addStageTerms (isEquality : Vec Bool p) (e : StageExpansion ℝ n m)
    (w : Weights ℝ p) (c : Vec ℝ p) (Cx : Mat ℝ p n) (Cu : Mat ℝ p m) (dx : Vec ℝ n)
    (du : Vec ℝ m) :
    (Lagrangian.addStageTerms isEquality e w c Cx Cu).curvature dx du = e.curvature dx du +
      Vec.squares (w.activePenalties isEquality c) (Cx.mulVec dx + Cu.mulVec du) / 2 := by
  simp only [Lagrangian.addStageTerms, StageTerms.curvature, Mat.halfForm_eq, Mat.bilinear_eq,
    Mat.matrix_add, add_mulVec, dotProduct_add, dotProduct_weightedProduct, Vec.squares,
    Vec.fn_add, Mat.fn_mulVec, Pi.add_apply]
  have hsquares : ∀ D a b : Fin p → ℝ, ∑ i, D i * (a i + b i) ^ 2 =
      ∑ i, D i * (a i * a i) + 2 * ∑ i, D i * (b i * a i) + ∑ i, D i * (b i * b i) := by
    intro D a b
    rw [Finset.mul_sum, ← Finset.sum_add_distrib, ← Finset.sum_add_distrib]
    exact Finset.sum_congr rfl fun i _ => by ring
  rw [hsquares]
  ring

namespace Lagrangian

variable {l : Lagrangian ℝ n m p q}

/-- What the linear part leaves out at one knot. -/
theorem remainder_knot (hcost : l.problem.IsQuadratic)
    (hconstraints : l.problem.HasAffineConstraints) {w : Weights ℝ p} (hw : w.NonnegPenalties)
    (k k' : Knot ℝ n m) :
    Remainder
      (w.active l.problem.stageConstraints.isEquality
          (l.problem.stageConstraints.value k'.state k'.control) =
        w.active l.problem.stageConstraints.isEquality
          (l.problem.stageConstraints.value k.state k.control))
      ((l.problem.expandKnot k).curvature (k' - k).state (k' - k).control)
      ((l.allActive.expandKnot k w).curvature (k' - k).state (k' - k).control)
      ((l.expandKnot k w).curvature (k' - k).state (k' - k).control)
      (l.knotCost k' w - l.knotCost k w -
        (l.expandKnot k w).slope (k' - k).state (k' - k).control) := by
  set Cx := (l.problem.stageConstraints.jacobians k.state k.control).1
  set Cu := (l.problem.stageConstraints.jacobians k.state k.control).2
  set c := l.problem.stageConstraints.value k.state k.control
  set c' := l.problem.stageConstraints.value k'.state k'.control
  set dx := (k' - k).state
  set du := (k' - k).control
  have hexpand : l.expandKnot k w = addStageTerms l.problem.stageConstraints.isEquality
      (l.problem.expandKnot k) w c Cx Cu := rfl
  have hall : l.allActive.expandKnot k w = addStageTerms (Vec.const p true)
      (l.problem.expandKnot k) w c Cx Cu := rfl
  have hc : c' - c = Cx.mulVec dx + Cu.mulVec du := by
    apply Vec.fn_injective
    simp only [c', hconstraints.stage_value k.state k'.state k.control k'.control]
    rw [Vec.fn_sub, Vec.fn_add, add_sub_cancel_left]
    rfl
  have hvalue : l.problem.stageCost.value k'.state k'.control -
      l.problem.stageCost.value k.state k.control - (l.problem.expandKnot k).slope dx du =
      (l.problem.expandKnot k).curvature dx du := by
    have hterms : (l.problem.expandKnot k).toStageTerms =
      l.problem.stageCost.terms k.state k.control := rfl
    have hexact := hcost.stage_value k.state k'.state k.control k'.control
    rw [StageTerms.change_eq_add] at hexact
    rw [hterms, hexact, add_sub_cancel_left]
    exact add_sub_cancel_left _ _
  have hterms := (Remainder.of_eq (s := True) hvalue).add
    (remainder_penalty hw l.problem.stageConstraints.isEquality c c')
  rw [hexpand, hall, slope_addStageTerms, curvature_addStageTerms, curvature_addStageTerms,
    Weights.activePenalties_const_true, ← hc]
  rw [add_zero] at hterms
  convert hterms.imp (fun h => ⟨trivial, h⟩) using 1
  simp only [knotCost]
  ring

/-- What the linear part leaves out along the knots of a path. -/
theorem remainder_knots (hcost : l.problem.IsQuadratic)
    (hconstraints : l.problem.HasAffineConstraints) {ws : List (Weights ℝ p)}
    (hws : ∀ w ∈ ws, w.NonnegPenalties) {ks ks' : List (Knot ℝ n m)}
    (hlength : ks.length = ws.length) (hlength' : ks'.length = ws.length) :
    Remainder (l.activeOver ks' ws = l.activeOver ks ws)
      (Expansion.curvatureOver (ks.map l.problem.expandKnot) (List.zipWith (· - ·) ks' ks))
      (Expansion.curvatureOver (List.zipWith l.allActive.expandKnot ks ws)
        (List.zipWith (· - ·) ks' ks))
      (Expansion.curvatureOver (List.zipWith l.expandKnot ks ws) (List.zipWith (· - ·) ks' ks))
      ((List.zipWith l.knotCost ks' ws).sum - (List.zipWith l.knotCost ks ws).sum -
        Expansion.slopeOver (List.zipWith l.expandKnot ks ws) (List.zipWith (· - ·) ks' ks)) := by
  induction ws generalizing ks ks' with
  | nil =>
    obtain rfl : ks = [] := List.length_eq_zero_iff.1 hlength
    obtain rfl : ks' = [] := List.length_eq_zero_iff.1 hlength'
    exact Remainder.of_eq (by simp [Expansion.slopeOver, Expansion.curvatureOver])
  | cons w ws ih =>
    obtain ⟨k, ks, rfl⟩ := List.exists_cons_of_length_eq_add_one hlength
    obtain ⟨k', ks', rfl⟩ := List.exists_cons_of_length_eq_add_one hlength'
    have hknot := remainder_knot hcost hconstraints (hws w List.mem_cons_self) k k'
    have hknots := ih (fun v hv => hws v (List.mem_cons_of_mem w hv)) (Nat.succ.inj hlength)
      (Nat.succ.inj hlength')
    simp only [activeOver, Expansion.curvatureOver, Expansion.slopeOver] at hknots ⊢
    simp only [List.zipWith_cons_cons, List.map_cons, List.sum_cons]
    convert (hknot.add hknots).imp (fun h => List.cons.inj h) using 1
    ring

/-- What the linear part leaves out at the final state. -/
theorem remainder_final (hcost : l.problem.IsQuadratic)
    (hconstraints : l.problem.HasAffineConstraints) {w : Weights ℝ q} (hw : w.NonnegPenalties)
    (x x' : Vec ℝ n) :
    let isEquality := l.problem.terminalConstraints.isEquality
    let c := l.problem.terminalConstraints.value
    let Cx := l.problem.terminalConstraints.jacobian x
    let hessian := l.problem.terminalCost.hessian x
    Remainder (w.active isEquality (c x') = w.active isEquality (c x))
      (hessian.halfForm (x' - x))
      ((hessian + weightedProduct Cx w.mu Cx).halfForm (x' - x))
      ((hessian + weightedProduct Cx (w.activePenalties isEquality (c x)) Cx).halfForm (x' - x))
      (l.problem.terminalCost.value x' + w.penalty isEquality (c x') -
        (l.problem.terminalCost.value x + w.penalty isEquality (c x)) -
        Vec.dot (l.problem.terminalCost.gradient x +
          Mat.vecMul (w.gradientWeights isEquality (c x)) Cx) (x' - x)) := by
  intro isEquality c Cx hessian
  have hc : c x' - c x = Cx.mulVec (x' - x) := by
    apply Vec.fn_injective
    simp only [c, hconstraints.terminal_value x x']
    rw [Vec.fn_sub, Vec.fn_add, add_sub_cancel_left]
  have hvalue : l.problem.terminalCost.value x' - l.problem.terminalCost.value x -
      Vec.dot (l.problem.terminalCost.gradient x) (x' - x) = hessian.halfForm (x' - x) := by
    rw [hcost.terminal_value x x']
    ring
  have hterms := (Remainder.of_eq (s := True) hvalue).add
    (remainder_penalty hw isEquality (c x) (c x'))
  rw [halfForm_add_weightedProduct, halfForm_add_weightedProduct, ← hc]
  rw [add_zero] at hterms
  convert hterms.imp (fun h => ⟨trivial, h⟩) using 1
  simp only [Vec.dot_eq, Vec.fn_add, Mat.fn_vecMul, add_dotProduct, ← dotProduct_mulVec, hc,
    Mat.fn_mulVec]
  ring

theorem cost_eq (l : Lagrangian ℝ n m p q) {path : Path ℝ n m}
    (hlength : path.knots.length = l.multipliers.stages.length) :
    l.cost path = (List.zipWith l.knotCost path.knots l.multipliers.stages).sum +
      (l.problem.terminalCost.value path.final +
        l.multipliers.terminal.penalty l.problem.terminalConstraints.isEquality
          (l.problem.terminalConstraints.value path.final)) := by
  have hsum : ∀ {ks : List (Knot ℝ n m)} {ws : List (Weights ℝ p)}, ks.length = ws.length →
      (List.zipWith l.knotCost ks ws).sum =
        (ks.map fun k => l.problem.stageCost.value k.state k.control).sum +
          (List.zipWith (fun w c => w.penalty l.problem.stageConstraints.isEquality c) ws
            (ks.map fun k => l.problem.stageConstraints.value k.state k.control)).sum := by
    intro ks ws h
    induction ws generalizing ks with
    | nil =>
      obtain rfl : ks = [] := List.length_eq_zero_iff.1 h
      simp
    | cons w ws ih =>
      obtain ⟨k, ks, rfl⟩ := List.exists_cons_of_length_eq_add_one h
      simp only [List.zipWith_cons_cons, List.map_cons, List.sum_cons, ih (Nat.succ.inj h),
        knotCost]
      ring
  rw [hsum hlength]
  simp only [cost, StageProblem.cost, StageProblem.evaluateConstraints]
  ring

/-- What the linear part of the expansion leaves out of the change of the cost. -/
theorem remainder_cost (hcost : l.problem.IsQuadratic)
    (hconstraints : l.problem.HasAffineConstraints) (hw : l.multipliers.NonnegPenalties)
    {path path' : Path ℝ n m} (hlength : path.knots.length = l.multipliers.stages.length)
    (hlength' : path'.knots.length = l.multipliers.stages.length) :
    Remainder (l.active path' = l.active path)
      ((l.problem.expand path).curvature (path' - path))
      ((l.allActive.expand path).curvature (path' - path))
      ((l.expand path).curvature (path' - path))
      (l.cost path' - l.cost path - (l.expand path).slope (path' - path)) := by
  have hknots := remainder_knots hcost hconstraints hw.stages hlength hlength'
  have hfinal := remainder_final hcost hconstraints hw.terminal path.final path'.final
  have hVxx : (l.allActive.expand path).Vxx = l.problem.terminalCost.hessian path.final +
      weightedProduct (l.problem.terminalConstraints.jacobian path.final) l.multipliers.terminal.mu
        (l.problem.terminalConstraints.jacobian path.final) := by
    simp only [expand, allActive, Weights.activePenalties_const_true]
  have hsplit : ∀ J F J' F' s t : ℝ, J' + F' - (J + F) - (s + t) = J' - J - s + (F' - F - t) := by
    intro J F J' F' s t
    ring
  rw [cost_eq l hlength, cost_eq l hlength', Expansion.slope, hsplit]
  unfold Expansion.curvature
  rw [hVxx]
  exact (hknots.add hfinal).imp Prod.mk.inj

/-- In exact arithmetic, with quadratic costs, affine constraints and nonnegative penalties, the
linear part of the expansion leaves out of the change of the cost at least the curvature of the
costs alone and at most the curvature with all penalties active. It is the curvature of the
expansion where the active constraints are the same at both ends. -/
theorem remainder_of_expand (l : Lagrangian ℝ n m p q) (hcost : l.problem.IsQuadratic)
    (hconstraints : l.problem.HasAffineConstraints) (hw : l.multipliers.NonnegPenalties)
    (path path' : Path ℝ n m) (hlength : path.knots.length = l.multipliers.stages.length)
    (hlength' : path'.knots.length = l.multipliers.stages.length) :
    let remainder := l.cost path' - l.cost path - (l.expand path).slope (path' - path)
    (l.problem.expand path).curvature (path' - path) ≤ remainder ∧
      remainder ≤ (l.allActive.expand path).curvature (path' - path) ∧
      (l.active path' = l.active path →
        remainder = (l.expand path).curvature (path' - path)) := by
  obtain ⟨hlower, hupper, hvalue⟩ := remainder_cost hcost hconstraints hw hlength hlength'
  exact ⟨hlower, hupper, hvalue⟩

/-- One interval of the integrator `x + u`, where controls are at most one and the final state is to
be the origin. -/
noncomputable def steered : Lagrangian ℝ 1 1 1 1 where
  problem := {
    x0 := Vec.const 1 1, intervals := 1, dt := 1
    dynamics := .affine (Mat.identity 1) (Mat.identity 1) (Vec.zero 1)
    stageCost := StageTerms.toCost
      { lx := Vec.zero 1, lu := Vec.zero 1, lxx := Mat.zero 1 1, luu := Mat.identity 1,
        lux := Mat.zero 1 1 } 0
    terminalCost := .quadratic 0 (Vec.zero 1) (Mat.identity 1)
    stageConstraints :=
      { value x u := (Mat.zero 1 1).mulVec x + (Mat.identity 1).mulVec u + Vec.const 1 (-1)
        jacobians _ _ := (Mat.zero 1 1, Mat.identity 1)
        isEquality := Vec.const 1 false }
    terminalConstraints :=
      { value x := (Mat.identity 1).mulVec x + Vec.zero 1
        jacobian _ := Mat.identity 1
        isEquality := Vec.const 1 true } }
  multipliers := ⟨[⟨Vec.zero 1, Vec.const 1 1⟩], ⟨Vec.const 1 (-1), Vec.const 1 1⟩⟩

/-- Both of the controls `0` and `-1` are below their bound, and the curvature is that of the
expansion. -/
theorem remainder_of_steered :
    let path := steered.problem.rollout [Vec.zero 1]
    let path' := steered.problem.rollout [Vec.const 1 (-1)]
    steered.cost path' - steered.cost path - (steered.expand path).slope (path' - path) =
      (steered.expand path).curvature (path' - path) := by
  have hidentity : (Mat.identity 1 : Mat ℝ 1 1).matrix.IsSymm := by simp [IsSymm]
  have hzero : (Mat.zero 1 1 : Mat ℝ 1 1).matrix.IsSymm := by simp [IsSymm]
  have hcost : steered.problem.IsQuadratic :=
    ⟨⟨_, 0, hzero, hidentity, rfl⟩, ⟨0, _, _, hidentity, rfl⟩⟩
  have hconstraints : steered.problem.HasAffineConstraints :=
    ⟨⟨_, _, _, fun _ _ => ⟨rfl, rfl⟩⟩, ⟨_, _, fun _ => ⟨rfl, rfl⟩⟩⟩
  have hw : steered.multipliers.NonnegPenalties := by
    refine ⟨fun w hw i => ?_, fun i => ?_⟩
    · obtain rfl := List.mem_singleton.1 hw
      simp
    · simp [steered]
  intro path path'
  obtain ⟨-, -, hvalue⟩ := steered.remainder_of_expand hcost hconstraints hw path path' rfl rfl
  have hactive : ∀ u : Vec ℝ 1, u.fn 0 ≤ 1 →
      steered.active (steered.problem.rollout [u]) = ([Vec.const 1 false], Vec.const 1 true) := by
    intro u hu
    have hbelow : (steered.problem.stageConstraints.value (Vec.const 1 1) u).fn 0 ≤ 0 := by
      simp only [steered, Vec.fn_add, Mat.fn_mulVec, Mat.matrix_zero, Mat.matrix_identity,
        zero_mulVec, one_mulVec, Pi.add_apply, Pi.zero_apply]
      simpa using hu
    refine Prod.ext (congrArg (fun v => [v]) ?_) ?_
    · ext i hi
      obtain rfl : i = 0 := by omega
      refine (Vector.getElem_ofFn _).trans ?_
      exact isActive_eq_false_iff.2 ⟨rfl, hbelow, le_rfl⟩
    · ext i hi
      obtain rfl : i = 0 := by omega
      simp [active, Weights.active, isActive, steered, Vec.get_eq]
  apply hvalue
  rw [hactive _ (by simp), hactive _ (by simp)]

end Lagrangian

end TrajOpt
