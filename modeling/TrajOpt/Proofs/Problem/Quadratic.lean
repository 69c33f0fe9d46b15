import Mathlib
import TrajOpt.Problem
import TrajOpt.Proofs.Descent.Riccati

/-!
# Problems with quadratic costs and affine functions

The local approximation of a problem is exact where the costs are quadratic and the dynamics and the
constraints are affine. A quadratic cost is given by its derivatives at the origin, and its
expansion around any knot has the same second derivatives.

## Main definitions

* `StageTerms.slope`, `StageTerms.curvature` - the linear and the quadratic part of a change.
* `StageTerms.toCost`, `TerminalCost.quadratic` - the quadratic costs of given derivatives.
* `StageProblem.HasCost` - the problem has the costs of a `QuadraticCost`.
* `StageProblem.IsQuadratic`, `StageProblem.HasAffineConstraints`, `Dynamics.affine` - the parts of
  a problem that are expanded exactly.

## Main statements

* `StageTerms.value_toCost`, `TerminalCost.value_quadratic` - quadratic costs are their expansions.
* `StageProblem.HasCost.isQuadratic` - the costs of symmetric matrices are quadratic.
-/

namespace TrajOpt

open Matrix

section Definitions

variable {α : Type} [Scalar α] {n m p q : Nat}

namespace StageTerms

/-- The part of the change of a cost that is linear in the deviations. -/
def slope (t : StageTerms α n m) (dx : Vec α n) (du : Vec α m) : α :=
  Vec.dot t.lx dx + Vec.dot t.lu du

/-- The part of the change of a cost that is quadratic in the deviations. -/
def curvature (t : StageTerms α n m) (dx : Vec α n) (du : Vec α m) : α :=
  t.lxx.halfForm dx + Mat.bilinear du t.lux dx + t.luu.halfForm du

/-- The quadratic cost that has the value `c` and the derivatives `t` at the origin. -/
def toCost (t : StageTerms α n m) (c : α) : StageCost α n m where
  value x u := c + t.change x u
  terms x u := { t with
    lx := t.lx + t.lxx.mulVec x + Mat.vecMul u t.lux
    lu := t.lu + t.lux.mulVec x + t.luu.mulVec u }

end StageTerms

/-- The quadratic cost of a final state that has the value `c`, the gradient `g` and the second
derivatives `H` at the origin. -/
def TerminalCost.quadratic (c : α) (g : Vec α n) (H : Mat α n n) : TerminalCost α n where
  value x := c + (Vec.dot g x + H.halfForm x)
  gradient x := g + H.mulVec x
  hessian _ := H

/-- The dynamics `A x + B u + b`. -/
def Dynamics.affine (A : Mat α n n) (B : Mat α n m) (b : Vec α n) : Dynamics α n m where
  step x u := A.mulVec x + B.mulVec u + b
  jacobians _ _ := (A, B)

/-- The costs of the problem and their derivatives are those of a quadratic cost. -/
structure StageProblem.HasCost (problem : StageProblem α n m p q) (cost : QuadraticCost α n m) :
    Prop where
  stage : problem.stageCost =
    ⟨fun x u => cost.stage x u problem.dt, fun x u => cost.stageTerms x u problem.dt⟩
  terminal : problem.terminalCost =
    ⟨cost.terminal, cost.terminalGradient, fun _ => cost.terminalHessian⟩

theorem StageProblem.hasCost_ofObjective (model : Model α n m) (o : Objective α n m) (dt : α)
    (intervals : Nat) : (ofObjective model o dt intervals).HasCost o.cost :=
  ⟨rfl, rfl⟩

end Definitions

variable {n m p q : Nat}

/-- The costs of the problem are quadratic functions with symmetric second derivatives. -/
structure StageProblem.IsQuadratic (problem : StageProblem ℝ n m p q) : Prop where
  stage : ∃ (t : StageTerms ℝ n m) (c : ℝ), t.lxx.matrix.IsSymm ∧ t.luu.matrix.IsSymm ∧
    problem.stageCost = t.toCost c
  terminal : ∃ (c : ℝ) (g : Vec ℝ n) (H : Mat ℝ n n), H.matrix.IsSymm ∧
    problem.terminalCost = .quadratic c g H

/-- The constraints of the problem are affine functions with the derivatives that belong to them. -/
structure StageProblem.HasAffineConstraints (problem : StageProblem ℝ n m p q) : Prop where
  stage : ∃ (Cx : Mat ℝ p n) (Cu : Mat ℝ p m) (b : Vec ℝ p), ∀ x u,
    problem.stageConstraints.value x u = Cx.mulVec x + Cu.mulVec u + b ∧
      problem.stageConstraints.jacobians x u = (Cx, Cu)
  terminal : ∃ (Cx : Mat ℝ q n) (b : Vec ℝ q), ∀ x,
    problem.terminalConstraints.value x = Cx.mulVec x + b ∧
      problem.terminalConstraints.jacobian x = Cx

theorem StageTerms.change_eq_add (t : StageTerms ℝ n m) (dx : Vec ℝ n) (du : Vec ℝ m) :
    t.change dx du = t.slope dx du + t.curvature dx du := by
  rw [change, slope, curvature]
  ring

section Expansion

/-- A quadratic stage cost is its expansion around any knot. -/
theorem StageTerms.value_toCost {t : StageTerms ℝ n m} (hlxx : t.lxx.matrix.IsSymm)
    (hluu : t.luu.matrix.IsSymm) (c : ℝ) (x x' : Vec ℝ n) (u u' : Vec ℝ m) :
    (t.toCost c).value x' u' = (t.toCost c).value x u +
      ((t.toCost c).terms x u).change (x' - x) (u' - u) := by
  obtain ⟨dx, rfl, hdx⟩ := Vec.exists_eq_add x x'
  obtain ⟨du, rfl, hdu⟩ := Vec.exists_eq_add u u'
  have hlx : (u.fn ᵥ* t.lux.matrix) ⬝ᵥ dx.fn = u.fn ⬝ᵥ t.lux.matrix *ᵥ dx.fn :=
    (dotProduct_mulVec _ _ _).symm
  have hlu := dotProduct_comm (t.lux.matrix *ᵥ x.fn) du.fn
  rw [hdx, hdu]
  simp only [toCost, change, Mat.halfForm_add hlxx, Mat.halfForm_add hluu, Mat.bilinear_eq,
    Vec.dot_eq, Vec.fn_add, Mat.fn_mulVec, Mat.fn_vecMul, dotProduct_add, add_dotProduct,
    mulVec_add, hlx, hlu]
  ring

/-- A quadratic cost of the final state is its expansion around any state. -/
theorem TerminalCost.value_quadratic {H : Mat ℝ n n} (hH : H.matrix.IsSymm) (c : ℝ)
    (g x x' : Vec ℝ n) :
    (quadratic c g H).value x' = (quadratic c g H).value x +
      (Vec.dot ((quadratic c g H).gradient x) (x' - x) +
        ((quadratic c g H).hessian x).halfForm (x' - x)) := by
  obtain ⟨dx, rfl, hdx⟩ := Vec.exists_eq_add x x'
  rw [hdx]
  simp only [quadratic, Mat.halfForm_add hH, Vec.dot_eq, Vec.fn_add, dotProduct_add,
    add_dotProduct]
  ring

namespace StageProblem

variable {problem : StageProblem ℝ n m p q}

theorem IsQuadratic.stage_value (h : problem.IsQuadratic) (x x' : Vec ℝ n) (u u' : Vec ℝ m) :
    problem.stageCost.value x' u' = problem.stageCost.value x u +
      (problem.stageCost.terms x u).change (x' - x) (u' - u) := by
  obtain ⟨t, c, hlxx, hluu, hcost⟩ := h.stage
  rw [hcost]
  exact StageTerms.value_toCost hlxx hluu c x x' u u'

theorem IsQuadratic.terminal_value (h : problem.IsQuadratic) (x x' : Vec ℝ n) :
    problem.terminalCost.value x' = problem.terminalCost.value x +
      (Vec.dot (problem.terminalCost.gradient x) (x' - x) +
        (problem.terminalCost.hessian x).halfForm (x' - x)) := by
  obtain ⟨c, g, H, hH, hcost⟩ := h.terminal
  rw [hcost]
  exact TerminalCost.value_quadratic hH c g x x'

theorem HasAffineConstraints.stage_value (h : problem.HasAffineConstraints) (x x' : Vec ℝ n)
    (u u' : Vec ℝ m) :
    problem.stageConstraints.value x' u' = problem.stageConstraints.value x u +
      ((problem.stageConstraints.jacobians x u).1.mulVec (x' - x) +
        (problem.stageConstraints.jacobians x u).2.mulVec (u' - u)) := by
  obtain ⟨Cx, Cu, b, haffine⟩ := h.stage
  apply Vec.fn_injective
  simp only [(haffine _ _).1, (haffine _ _).2, Vec.fn_add, Vec.fn_sub, Mat.fn_mulVec, mulVec_sub]
  abel

theorem HasAffineConstraints.terminal_value (h : problem.HasAffineConstraints) (x x' : Vec ℝ n) :
    problem.terminalConstraints.value x' = problem.terminalConstraints.value x +
      (problem.terminalConstraints.jacobian x).mulVec (x' - x) := by
  obtain ⟨Cx, b, haffine⟩ := h.terminal
  apply Vec.fn_injective
  simp only [(haffine _).1, (haffine _).2, Vec.fn_add, Vec.fn_sub, Mat.fn_mulVec, mulVec_sub]
  abel

end StageProblem

end Expansion

namespace QuadraticCost

variable {cost : QuadraticCost ℝ n m}

theorem sub_goal (x : Vec ℝ n) : x - cost.xf = Vec.zero n - cost.xf + x := by
  apply Vec.fn_injective
  simp only [Vec.fn_add, Vec.fn_sub, Vec.fn_zero]
  abel

theorem stage_eq_toCost (hQ : cost.Q.matrix.IsSymm) (hR : cost.R.matrix.IsSymm) (dt : ℝ) :
    (⟨fun x u => cost.stage x u dt, fun x u => cost.stageTerms x u dt⟩ : StageCost ℝ n m) =
      (cost.stageTerms (Vec.zero n) (Vec.zero m) dt).toCost
        (cost.stage (Vec.zero n) (Vec.zero m) dt) := by
  rw [StageTerms.toCost, StageCost.mk.injEq]
  constructor
  · ext x u
    rw [stage, sub_goal x]
    simp only [stage, StageTerms.change, stageTerms, Mat.halfForm_add hQ, Mat.halfForm_zero,
      Mat.halfForm_halfFormHessian, Mat.halfFormGradient_eq hQ, Mat.halfFormGradient_eq hR]
    simp [Vec.dot_eq, Mat.bilinear_eq]
    ring
  · funext x u
    simp only [stageTerms, StageTerms.mk.injEq, and_true]
    constructor
    · apply Vec.fn_injective
      rw [sub_goal x]
      simp [Mat.halfFormGradient_eq hQ, Mat.matrix_halfFormHessian_of_isSymm hQ, mulVec_add,
        smul_mulVec]
    · apply Vec.fn_injective
      simp [Mat.halfFormGradient_eq hR, Mat.matrix_halfFormHessian_of_isSymm hR, smul_mulVec]

theorem terminal_eq_quadratic (hQf : cost.Qf.matrix.IsSymm) :
    (⟨cost.terminal, cost.terminalGradient, fun _ => cost.terminalHessian⟩ : TerminalCost ℝ n) =
      .quadratic (cost.terminal (Vec.zero n)) (cost.terminalGradient (Vec.zero n))
        cost.terminalHessian := by
  rw [TerminalCost.quadratic, TerminalCost.mk.injEq]
  refine ⟨?_, ?_, rfl⟩
  · ext x
    rw [terminal, sub_goal x]
    simp only [terminal, terminalGradient, terminalHessian, Mat.halfForm_add hQf,
      Mat.halfForm_halfFormHessian, Mat.halfFormGradient_eq hQf]
    simp [Vec.dot_eq]
    ring
  · funext x
    apply Vec.fn_injective
    rw [terminalGradient, sub_goal x]
    simp [terminalGradient, terminalHessian, Mat.halfFormGradient_eq hQf,
      Mat.matrix_halfFormHessian_of_isSymm hQf, mulVec_add]

end QuadraticCost

/-- The costs of symmetric matrices are quadratic. -/
theorem StageProblem.HasCost.isQuadratic {problem : StageProblem ℝ n m p q}
    {cost : QuadraticCost ℝ n m} (h : problem.HasCost cost) (hQ : cost.Q.matrix.IsSymm)
    (hR : cost.R.matrix.IsSymm) (hQf : cost.Qf.matrix.IsSymm) : problem.IsQuadratic :=
  ⟨⟨_, _, Mat.isSymm_halfFormHessian _ _, Mat.isSymm_halfFormHessian _ _,
      h.stage.trans (QuadraticCost.stage_eq_toCost hQ hR _)⟩,
    ⟨_, _, _, Mat.isSymm_halfFormHessian _ _,
      h.terminal.trans (QuadraticCost.terminal_eq_quadratic hQf)⟩⟩

end TrajOpt
