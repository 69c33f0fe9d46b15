import Mathlib
import TrajOpt.Problem.Slack
import TrajOpt.Proofs.Descent.Moves
import TrajOpt.Proofs.Lagrangian
import TrajOpt.Proofs.Linear.Blocks
import TrajOpt.Proofs.Options
import TrajOpt.Solve.Outer

/-!
# Convex problems

Where the costs are convex, no backward pass fails in exact arithmetic. What a knot and all that
follows it cost is convex in the deviation and the control together, and the recursion inserts a
control that is linear in the deviation. The value function thus stays convex whatever the gain is,
and the regularization, which makes the gain another one than the best, does no harm.

## Main definitions

* `StageTerms.IsConvex`, `StageProblem.IsConvex` - costs that are convex to second order.
* `StageProblem.PassesSucceed` - no backward pass fails on a problem.

## Main statements

* `Riccati.halfForm_extend` - the value function is the cost of the control that is inserted.
* `Riccati.sweep_of_convex` - a sweep over convex knots goes through.
* `StageProblem.passesSucceed_of_hasCost` - the same for all passes on a quadratic cost.
-/

namespace TrajOpt

open Matrix

variable {n m p q : Nat}

namespace Mat

/-- A matrix has a factor where its form is positive. -/
theorem isSome_factor?_of_halfForm {a : Mat ℝ n n} (h : ∀ d, d ≠ Vec.zero n → 0 < a.halfForm d) :
    a.factor?.isSome := by
  rw [isSome_factor?]
  intro x hx
  have hd : Vector.ofFn x ≠ Vec.zero n := fun hzero => hx (by simpa using congrArg Vec.fn hzero)
  have hpos := h _ hd
  rw [halfForm_eq, Vec.fn_ofFn] at hpos
  linarith

theorem halfForm_regularize (a : Mat ℝ n n) (rho : ℝ) (d : Vec ℝ n) :
    (a.regularize rho).halfForm d = a.halfForm d + rho * Vec.dot d d / 2 := by
  rw [halfForm_eq, halfForm_eq, Vec.dot_eq, form_regularize]
  ring

end Mat

theorem StageTerms.curvature_zero (t : StageTerms ℝ n m) (du : Vec ℝ m) :
    t.curvature (Vec.zero n) du = t.luu.halfForm du := by
  simp [curvature, Mat.bilinear_eq]

/-- The second-order part of the cost of a knot is nonnegative, and positive where only the control
changes. -/
structure StageTerms.IsConvex (t : StageTerms ℝ n m) : Prop where
  nonneg : ∀ dx du, 0 ≤ t.curvature dx du
  pos : ∀ du, du ≠ Vec.zero m → 0 < t.curvature (Vec.zero n) du

namespace Riccati

variable {e : StageExpansion ℝ n m} {s : Sweep ℝ n m}

/-- The second-order part of the cost of a knot and of what follows. -/
theorem curvature_action (e : StageExpansion ℝ n m) (hs : s.Vxx.matrix.IsSymm) (dx : Vec ℝ n)
    (du : Vec ℝ m) :
    (action e s).curvature dx du = e.curvature dx du + s.Vxx.halfForm (e.next dx du) := by
  have hcross := dotProduct_mulVec_comm hs (e.A.matrix *ᵥ dx.fn) (e.B.matrix *ᵥ du.fn)
  simp only [StageTerms.curvature, StageExpansion.next, Mat.halfForm_eq, Mat.bilinear_eq, action,
    Vec.fn_add, Mat.fn_mulVec, Mat.matrix_add, Mat.matrix_mul, Mat.matrix_transpose,
    ← mulVec_mulVec, add_mulVec, mulVec_add, dotProduct_add, add_dotProduct,
    dotProduct_transpose_mulVec, hcross]
  ring

theorem isConvex_action (he : e.IsConvex) (hs : s.Vxx.matrix.PosSemidef) :
    (action e s).IsConvex := by
  have hcurvature := curvature_action e (Mat.isSymm_of_posSemidef hs)
  constructor
  · intro dx du
    rw [hcurvature]
    exact add_nonneg (he.nonneg dx du) (Mat.halfForm_nonneg hs _)
  · intro du hdu
    rw [hcurvature]
    exact add_pos_of_pos_of_nonneg (he.pos du hdu) (Mat.halfForm_nonneg hs _)

/-- The second-order part of the value function one knot further back is that of the control which
reacts to the deviation, however the gain was found. -/
theorem halfForm_extend (s : Sweep ℝ n m) (t : StageTerms ℝ n m) (g : Gain ℝ n m) (dx : Vec ℝ n) :
    (s.extend t g).Vxx.halfForm dx = t.curvature dx (g.K.mulVec dx) := by
  have hlux := dotProduct_comm (t.lux.matrix *ᵥ dx.fn) (g.K.matrix *ᵥ dx.fn)
  simp only [Sweep.extend, StageTerms.curvature, Mat.halfForm_eq, Mat.bilinear_eq,
    Mat.form_symmetrize, Mat.fn_mulVec, Mat.matrix_add, Mat.matrix_mul, Mat.matrix_transpose,
    ← mulVec_mulVec, add_mulVec, dotProduct_add, dotProduct_transpose_mulVec, hlux]
  ring

theorem posSemidef_extend {t : StageTerms ℝ n m} (ht : t.IsConvex) (s : Sweep ℝ n m)
    (g : Gain ℝ n m) : (s.extend t g).Vxx.matrix.PosSemidef := by
  apply Mat.posSemidef_of_halfForm (isSymm_extend s t g)
  intro dx
  rw [halfForm_extend]
  exact ht.nonneg _ _

/-- One knot further back, the recursion goes on and the value function stays convex. -/
theorem stage_of_convex {rho : ℝ} (hrho : 0 ≤ rho) (he : e.IsConvex)
    (hs : s.Vxx.matrix.PosSemidef) :
    ∃ t, stage rho e s = some t ∧ t.Vxx.matrix.PosSemidef := by
  have hconvex := isConvex_action he hs
  have hfactor : ((action e s).luu.regularize rho).factor?.isSome := by
    apply Mat.isSome_factor?_of_halfForm
    intro d hd
    have hsquare := d.dot_self_nonneg
    have hpos := hconvex.pos d hd
    rw [Mat.halfForm_regularize, ← StageTerms.curvature_zero]
    positivity
  obtain ⟨l, hl⟩ := Option.isSome_iff_exists.1 hfactor
  refine ⟨s.extend (action e s) (gainOf l (action e s)), ?_, posSemidef_extend hconvex s _⟩
  rw [stage_eq, hl]
  rfl

/-- A sweep over convex knots goes through. -/
theorem sweep_of_convex {rho : ℝ} (hrho : 0 ≤ rho) (hs : s.Vxx.matrix.PosSemidef)
    {es : List (StageExpansion ℝ n m)} (hes : ∀ e ∈ es, e.IsConvex) :
    ∃ t, sweep rho s es = some t ∧ t.Vxx.matrix.PosSemidef := by
  induction es with
  | nil => exact ⟨s, rfl, hs⟩
  | cons e es ih =>
    obtain ⟨t, ht, hVxx⟩ := ih fun e' he' => hes e' (List.mem_cons_of_mem e he')
    obtain ⟨t', ht', hVxx'⟩ := stage_of_convex hrho (hes e List.mem_cons_self) hVxx
    exact ⟨t', by rw [sweep, ht, Option.bind_some, ht'], hVxx'⟩

end Riccati

/-- The costs of all knots and of the final state are convex to second order. -/
structure StageProblem.IsConvex (problem : StageProblem ℝ n m p q) : Prop where
  stage : ∀ x u, (problem.stageCost.terms x u).IsConvex
  terminal : ∀ x, (problem.terminalCost.hessian x).matrix.PosSemidef

section Costs

variable {problem : StageProblem ℝ n m p q} {cost : QuadraticCost ℝ n m}

/-- The costs of a quadratic cost are convex for semidefinite state weights and a definite control
weight. -/
theorem StageProblem.HasCost.isConvex (h : problem.HasCost cost) (hQ : cost.Q.matrix.PosSemidef)
    (hR : cost.R.matrix.PosDef) (hQf : cost.Qf.matrix.PosSemidef) (hdt : 0 < problem.dt) :
    problem.IsConvex := by
  constructor
  · intro x u
    rw [h.stage]
    have hcurvature : ∀ dx du, (cost.stageTerms x u problem.dt).curvature dx du =
        problem.dt * (cost.Q.halfForm dx + cost.R.halfForm du) := by
      intro dx du
      simp only [StageTerms.curvature, QuadraticCost.stageTerms, Mat.halfForm_halfFormHessian,
        Mat.bilinear_zero]
      ring
    constructor
    · intro dx du
      rw [hcurvature]
      exact mul_nonneg hdt.le
        (add_nonneg (Mat.halfForm_nonneg hQ dx) (Mat.halfForm_nonneg hR.posSemidef du))
    · intro du hdu
      rw [hcurvature, Mat.halfForm_zero, zero_add]
      exact mul_pos hdt (Mat.halfForm_pos hR hdu)
  · intro x
    rw [h.terminal]
    exact Mat.posSemidef_halfFormHessian hQf zero_le_one

/-- Slack controls of positive weight keep the costs convex. -/
theorem StageProblem.isConvex_withSlack (h : problem.IsConvex) {weight : ℝ}
    (hweight : 0 < weight) : (problem.withSlack weight).IsConvex := by
  have hslack : ∀ w : Vec ℝ n, (Mat.diagonal n (0.5 * weight + 0.5 * weight)).halfForm w =
      weight * (Mat.identity n).halfForm w := by
    intro w
    have hhalves : (0.5 * weight + 0.5 * weight : ℝ) = weight := by
      norm_num
      ring
    rw [Mat.halfForm_eq, Mat.halfForm_eq, Mat.matrix_diagonal, Mat.matrix_identity, hhalves,
      smul_mulVec, dotProduct_smul, smul_eq_mul, mul_div_assoc]
  have hidentity : (Mat.identity n : Mat ℝ n n).matrix.PosDef := by
    rw [Mat.matrix_identity]
    exact PosDef.one
  refine ⟨fun x v => ?_, h.terminal⟩
  have hconvex := h.stage x (Vec.left v)
  have hcurvature : ∀ dx dv, ((problem.withSlack weight).stageCost.terms x v).curvature dx dv =
      (problem.stageCost.terms x (Vec.left v)).curvature dx (Vec.left dv) +
        weight * (Mat.identity n).halfForm (Vec.right dv) := by
    intro dx dv
    simp only [StageTerms.curvature, StageProblem.withSlack, StageCost.withSlack,
      Mat.bilinear_above, Mat.bilinear_zero, Mat.halfForm_ofBlocks, hslack]
    ring
  constructor
  · intro dx dv
    rw [hcurvature]
    exact add_nonneg (hconvex.nonneg dx _)
      (mul_nonneg hweight.le (Mat.halfForm_nonneg hidentity.posSemidef _))
  · intro dv hdv
    rw [hcurvature]
    by_cases hu : Vec.left dv = Vec.zero m
    · have hw : (Vec.right dv : Vec ℝ n) ≠ Vec.zero n := by
        intro hw
        apply hdv
        rw [← Vec.append_left_right dv, hu, hw, Vec.append_zero]
      exact add_pos_of_nonneg_of_pos (hconvex.nonneg _ _)
        (mul_pos hweight (Mat.halfForm_pos hidentity hw))
    · exact add_pos_of_pos_of_nonneg (hconvex.pos _ hu)
        (mul_nonneg hweight.le (Mat.halfForm_nonneg hidentity.posSemidef _))

end Costs

namespace Lagrangian

variable {l : Lagrangian ℝ n m p q}

/-- The terms of constraints keep the costs of a knot convex. -/
theorem isConvex_expandKnot (h : l.problem.IsConvex) (k : Knot ℝ n m) {w : Weights ℝ p}
    (hw : w.NonnegPenalties) : (l.expandKnot k w).IsConvex := by
  have hcost : (l.problem.expandKnot k).IsConvex := h.stage k.state k.control
  have hsquares := Vec.squares_nonneg (Weights.activePenalties_nonneg hw
    l.problem.stageConstraints.isEquality (l.problem.stageConstraints.value k.state k.control))
  constructor
  · intro dx du
    rw [expandKnot, curvature_addStageTerms]
    exact add_nonneg (hcost.nonneg dx du) (div_nonneg (hsquares _) zero_le_two)
  · intro du hdu
    rw [expandKnot, curvature_addStageTerms]
    exact add_pos_of_pos_of_nonneg (hcost.pos du hdu) (div_nonneg (hsquares _) zero_le_two)

theorem exists_of_mem_stages {path : Path ℝ n m} {e : StageExpansion ℝ n m}
    (he : e ∈ (l.expand path).stages) :
    ∃ k, ∃ w ∈ l.multipliers.stages, e = l.expandKnot k w := by
  obtain ⟨i, hi, rfl⟩ := List.mem_iff_getElem.1 he
  exact ⟨_, _, List.getElem_mem _, List.getElem_zipWith⟩

theorem isConvex_of_mem_stages (h : l.problem.IsConvex) (hw : l.multipliers.NonnegPenalties)
    (path : Path ℝ n m) : ∀ e ∈ (l.expand path).stages, e.IsConvex := by
  intro e he
  obtain ⟨k, w, hmem, rfl⟩ := exists_of_mem_stages he
  exact isConvex_expandKnot h k (hw.stages w hmem)

theorem posSemidef_Vxx (h : l.problem.IsConvex) (hw : l.multipliers.NonnegPenalties)
    (path : Path ℝ n m) : (l.expand path).Vxx.matrix.PosSemidef := by
  set D := l.multipliers.terminal.activePenalties l.problem.terminalConstraints.isEquality
    (l.problem.terminalConstraints.value path.final)
  set Cx := l.problem.terminalConstraints.jacobian path.final
  have hsquares := Vec.squares_nonneg (Weights.activePenalties_nonneg hw.terminal
    l.problem.terminalConstraints.isEquality (l.problem.terminalConstraints.value path.final))
  have hVxx : (l.expand path).Vxx =
      l.problem.terminalCost.hessian path.final + weightedProduct Cx D Cx := rfl
  rw [hVxx]
  have hhessian := h.terminal path.final
  apply Mat.posSemidef_of_halfForm
  · rw [Mat.matrix_add]
    exact (Mat.isSymm_of_posSemidef hhessian).add (isSymm_weightedProduct Cx D)
  · intro d
    rw [halfForm_add_weightedProduct]
    exact add_nonneg (Mat.halfForm_nonneg hhessian d) (div_nonneg (hsquares _) zero_le_two)

end Lagrangian

/-- Neither the weight of a regularization nor its factor is negative. -/
structure Regularization.IsNonneg (r : Regularization ℝ) : Prop where
  weight : 0 ≤ r.weight
  change : 0 ≤ r.change

namespace Regularization

variable {o : Options ℝ} {r : Regularization ℝ}

theorem isNonneg_start (ho : o.Accepted) : (start o).IsNonneg :=
  ⟨not_lt.1 fun h => ho.regularization (.inl h), le_rfl⟩

theorem isNonneg_increase (ho : o.Accepted) (hr : r.IsNonneg) : (r.increase o).IsNonneg := by
  have hfactor : 1 < o.regFactor := not_le.1 ho.regFactor
  have hchange : 0 ≤ (r.increase o).change := by
    simp only [increase, Arith.larger_eq_max]
    exact le_max_of_le_right (by linarith)
  refine ⟨?_, hchange⟩
  simp only [increase, Arith.larger_eq_max] at hchange ⊢
  exact le_max_of_le_left (mul_nonneg hr.weight hchange)

theorem isNonneg_decrease (ho : o.Accepted) (hr : r.IsNonneg) : (r.decrease o).IsNonneg := by
  have hfactor : 0 < o.regFactor := zero_lt_one.trans (not_le.1 ho.regFactor)
  have hchange : 0 ≤ (r.decrease o).change := by
    simp only [decrease, Arith.smaller_eq_min]
    exact le_min (div_nonneg hr.change hfactor.le) (by positivity)
  refine ⟨?_, hchange⟩
  simp only [decrease] at hchange ⊢
  split
  · exact le_rfl
  · exact mul_nonneg hr.weight hchange

end Regularization

namespace Descent

variable {o : Options ℝ} {aim : Aim ℝ n m}

/-- Where every backward pass succeeds, so does every solve get past it. -/
theorem status_of_passes (ho : o.Accepted)
    (hpass : ∀ path rho, 0 ≤ rho → (Riccati.backwardPass (aim.expand path) rho).isSome)
    {path : Path ℝ n m} {r : Result ℝ n m} (h : (solve o aim path).outcome = .ok r) :
    r.status ≠ .backwardPassFailed := by
  have hmove : ∀ s reg mv, s.reg.IsNonneg → move o aim s = .ok (reg, mv) →
      reg = s.reg ∧ ∀ gains, mv ≠ .stuck gains := by
    intro s reg mv hs hmv
    obtain ⟨sweep, hsweep⟩ := Option.isSome_iff_exists.1 (hpass s.path _ hs.weight)
    obtain ⟨pass, hfound, hcases⟩ := move_eq_ok hmv
    rw [regularizedBackwardPass_of_isSome hsweep] at hfound
    cases hfound
    refine ⟨rfl, ?_⟩
    rintro gains rfl
    obtain ⟨_, h, -⟩ | ⟨_, -, ⟨-, h⟩ | h | ⟨_, _, -, h⟩⟩ := hcases <;> cases h
  refine (loop_induction (fun _ s => s.reg.IsNonneg)
    (fun _ _ status => status ≠ .backwardPassFailed) ?_ ?_ (fun _ _ _ => nofun) [] h
    (Regularization.isNonneg_start ho)).1
  · intro _ s reg mv t hs hmv hcarry
    obtain ⟨rfl, -⟩ := hmove s reg mv hs hmv
    have hnext : (mv.carryOut o aim s s.reg).1.reg.IsNonneg :=
      reg_carryOut Regularization.IsNonneg (fun _ => Regularization.isNonneg_increase ho)
        (fun _ => Regularization.isNonneg_decrease ho) hs mv s
    rwa [hcarry] at hnext
  · rintro _ s reg mv t status hs hmv hcarry rfl
    obtain ⟨-, hne⟩ := hmove s reg mv hs hmv
    obtain ⟨gains, hstuck⟩ := eq_stuck_of_carryOut hcarry
    exact hne gains hstuck

end Descent

/-- No backward pass fails on the problem, whatever the multipliers and the path are, and every
value function on the way is symmetric and convex. No solve gives up for want of a backward pass. -/
structure StageProblem.PassesSucceed (problem : StageProblem ℝ n m p q) : Prop where
  pass : ∀ w : Multipliers ℝ p q, w.NonnegPenalties → ∀ (path : Path ℝ n m) (rho : ℝ), 0 ≤ rho →
    let e := Lagrangian.expand ⟨problem, w⟩ path
    (∃ s, Riccati.backwardPass e rho = some s) ∧
      ∀ ks, ks <:+ e.stages →
        ∃ s, Riccati.sweep rho (Riccati.start e) ks = some s ∧ s.Vxx.matrix.PosSemidef
  solve : ∀ w : Multipliers ℝ p q, w.NonnegPenalties → ∀ (path : Path ℝ n m) (o : Options ℝ),
    o.Accepted → ∀ r, (Descent.solve o (Lagrangian.aim ⟨problem, w⟩) path).outcome = .ok r →
      r.status ≠ .backwardPassFailed

theorem StageProblem.passesSucceed_of_isConvex {problem : StageProblem ℝ n m p q}
    (h : problem.IsConvex) : problem.PassesSucceed := by
  have hsweep : ∀ w : Multipliers ℝ p q, w.NonnegPenalties → ∀ (path : Path ℝ n m) (rho : ℝ),
      0 ≤ rho → ∀ ks, ks <:+ (Lagrangian.expand ⟨problem, w⟩ path).stages →
        ∃ s, Riccati.sweep rho (Riccati.start (Lagrangian.expand ⟨problem, w⟩ path)) ks = some s ∧
          s.Vxx.matrix.PosSemidef := by
    intro w hw path rho hrho ks hks
    have hstages := Lagrangian.isConvex_of_mem_stages (l := ⟨problem, w⟩) h hw path
    exact Riccati.sweep_of_convex hrho (Lagrangian.posSemidef_Vxx (l := ⟨problem, w⟩) h hw path)
      fun e he => hstages e (hks.subset he)
  have hpass : ∀ w : Multipliers ℝ p q, w.NonnegPenalties → ∀ (path : Path ℝ n m) (rho : ℝ),
      0 ≤ rho → ∃ s, Riccati.backwardPass (Lagrangian.expand ⟨problem, w⟩ path) rho = some s := by
    intro w hw path rho hrho
    obtain ⟨s, hs, -⟩ := hsweep w hw path rho hrho _ List.suffix_rfl
    exact ⟨s, hs⟩
  constructor
  · intro w hw path rho hrho
    exact ⟨hpass w hw path rho hrho, hsweep w hw path rho hrho⟩
  · intro w hw path o ho r hr
    exact Descent.status_of_passes ho
      (fun path rho hrho => Option.isSome_iff_exists.2 (hpass w hw path rho hrho)) hr

/-- In exact arithmetic, the backward pass succeeds on every problem with a quadratic cost whose
state weights are positive semidefinite and whose control weight is positive definite, with or
without slack controls, for any dynamics and constraints, any multipliers, nonnegative penalties and
any nonnegative regularization. -/
theorem StageProblem.passesSucceed_of_hasCost {problem : StageProblem ℝ n m p q}
    {cost : QuadraticCost ℝ n m} (h : problem.HasCost cost) (hQ : cost.Q.matrix.PosSemidef)
    (hR : cost.R.matrix.PosDef) (hQf : cost.Qf.matrix.PosSemidef) (hdt : 0 < problem.dt) :
    problem.PassesSucceed ∧ ∀ weight : ℝ, 0 < weight → (problem.withSlack weight).PassesSucceed :=
  have hconvex := h.isConvex hQ hR hQf hdt
  ⟨passesSucceed_of_isConvex hconvex,
    fun _ hweight => passesSucceed_of_isConvex (isConvex_withSlack hconvex hweight)⟩

/-- Half the squares of the controls and of the final state. -/
noncomputable def integratorCost : QuadraticCost ℝ 1 1 where
  Q := Mat.zero 1 1
  R := Mat.identity 1
  Qf := Mat.identity 1
  tf := 1
  x0 := Vec.const 1 1
  xf := Vec.zero 1
  c := 0

/-- One interval of the integrator `x + u`, at a distance from the origin. -/
noncomputable def integratorProblem : StageProblem ℝ 1 1 0 0 where
  x0 := Vec.const 1 1
  intervals := 1
  dt := 1
  dynamics := .affine (Mat.identity 1) (Mat.identity 1) (Vec.zero 1)
  stageCost := ⟨fun x u => integratorCost.stage x u 1, fun x u => integratorCost.stageTerms x u 1⟩
  terminalCost := ⟨integratorCost.terminal, integratorCost.terminalGradient,
    fun _ => integratorCost.terminalHessian⟩
  stageConstraints := (Objective.unconstrained integratorCost).stageConstraints
  terminalConstraints := (Objective.unconstrained integratorCost).terminalConstraints

theorem hasCost_integratorProblem : integratorProblem.HasCost integratorCost := ⟨rfl, rfl⟩

theorem posSemidef_Q_integrator : integratorCost.Q.matrix.PosSemidef := by
  simp [integratorCost, PosSemidef.zero]

theorem posDef_R_integrator : integratorCost.R.matrix.PosDef := by
  simp [integratorCost, PosDef.one]

theorem posSemidef_Qf_integrator : integratorCost.Qf.matrix.PosSemidef := by
  simp [integratorCost, PosSemidef.one]

theorem passesSucceed_integrator :
    integratorProblem.PassesSucceed ∧ (integratorProblem.withSlack 1).PassesSucceed := by
  obtain ⟨hproblem, hslack⟩ := StageProblem.passesSucceed_of_hasCost hasCost_integratorProblem
    posSemidef_Q_integrator posDef_R_integrator posSemidef_Qf_integrator zero_lt_one
  exact ⟨hproblem, hslack 1 zero_lt_one⟩

end TrajOpt
