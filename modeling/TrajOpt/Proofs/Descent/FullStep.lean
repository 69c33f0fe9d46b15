import TrajOpt.Proofs.Descent.ExpectedDecrease

/-!
# The full step on problems without constraints

The value function of a sweep is what its gains cost, whether they are the best ones or those of a
regularized Hessian: it is the cost of the controls that the gains give, knot by knot. With affine
dynamics and a quadratic cost the quadratic model is the problem itself, so the full step changes
the cost just as expected for every regularization, although only without one it leads to the
minimizer. The expected change is a decrease, and the line search takes the step.

## Main statements

* `Riccati.changeFrom_of_followsFrom` - a value function is the cost of what the gains ask for.
* `Lagrangian.cost_closedLoop` - the full step changes the cost as expected.
* `Descent.lineSearch_fullStep` - the line search takes the full step.
-/

namespace TrajOpt

variable {n m : Nat}

namespace Riccati

/-- The value function of a backward pass is the cost of what its gains ask for. -/
theorem changeFrom_of_followsFrom {e : Expansion ℝ n m} (he : e.IsSymmetric) {rho : ℝ}
    {s : Sweep ℝ n m} (h : backwardPass e rho = some s) :
    ∀ (dx : Vec ℝ n) (dus : List (Vec ℝ m)), Expansion.FollowsFrom e.stages s.gains dx dus →
      e.changeFrom e.stages dx dus = s.value dx := by
  refine (sweep_induction (P := fun ks s => ∀ dx dus, Expansion.FollowsFrom ks s.gains dx dus →
    e.changeFrom ks dx dus = s.value dx) he.isSymm_Vxx ?_ ?_ he.isSymm_luu h).2
  · intro dx dus _
    simp [Expansion.changeFrom, Sweep.value, start]
  · intro k ks s l hk hs _ hrest dx dus hfollows
    cases dus with
    | nil => cases hfollows
    | cons du dus =>
      obtain ⟨rfl, hfollows⟩ := hfollows
      rw [Expansion.changeFrom, hrest _ _ hfollows, change_add_value k hs,
        value_extend s (isSymm_action hk hs)]

/-- The full step along the gains of a backward pass changes the quadratic model as expected. -/
theorem change_of_follows {e : Expansion ℝ n m} (he : e.IsSymmetric) {rho : ℝ} {s : Sweep ℝ n m}
    (h : backwardPass e rho = some s) {dus : List (Vec ℝ m)} (hdus : e.Follows s.gains dus) :
    e.change dus = s.linear + s.quadratic := by
  rw [← s.value_zero]
  exact changeFrom_of_followsFrom he h (Vec.zero n) dus hdus

end Riccati

section Unconstrained

variable {A : Mat ℝ n n} {B : Mat ℝ n m} {b : Vec ℝ n}

/-- Without constraints there is nothing to add to the expansion of a problem. -/
theorem Lagrangian.expand_of_unconstrained (l : Lagrangian ℝ n m 0 0) {path : Path ℝ n m}
    (hlength : l.multipliers.stages.length = path.knots.length) :
    l.expand path = l.problem.expand path := by
  have hgradient : ∀ {k : Nat} (v : Vec ℝ k) (g : Vec ℝ 0) (C : Mat ℝ 0 k),
      v + Mat.vecMul g C = v := by
    intro k v g C
    apply Vec.fn_injective
    ext j
    simp
  have hproduct : ∀ {j k : Nat} (H : Mat ℝ j k) (C : Mat ℝ 0 j) (d : Vec ℝ 0) (C' : Mat ℝ 0 k),
      H + weightedProduct C d C' = H := by
    intro j k H C d C'
    apply Mat.matrix_injective
    ext i j
    simp [matrix_weightedProduct]
  have hknot : ∀ k w, l.expandKnot k w = l.problem.expandKnot k := by
    intro k w
    simp only [expandKnot, addStageTerms, hgradient, hproduct]
  have hstages : List.zipWith l.expandKnot path.knots l.multipliers.stages =
      path.knots.map l.problem.expandKnot := by
    refine List.ext_getElem (by simp [hlength]) fun i _ _ => ?_
    rw [List.getElem_zipWith, List.getElem_map, hknot]
  simp only [expand, StageProblem.expand, hstages, hgradient, hproduct]

/-- With affine dynamics and a quadratic cost, the full step along the gains of a backward pass
changes the cost as expected. -/
theorem Lagrangian.cost_closedLoop {l : Lagrangian ℝ n m 0 0}
    (hdynamics : l.problem.dynamics = .affine A B b) (hcost : l.problem.IsQuadratic)
    {path : Path ℝ n m} (hpath : path.IsRollout l.problem.dynamics.step)
    (hlength : path.knots.length = l.multipliers.stages.length) {rho : ℝ} {s : Riccati.Sweep ℝ n m}
    (hs : Riccati.backwardPass (l.expand path) rho = some s) :
    l.problem.cost (Path.closedLoop l.problem.dynamics.step 1 path s.gains) - l.problem.cost path =
      s.linear + s.quadratic := by
  obtain ⟨us, x, rfl⟩ : ∃ us x, path = Path.rollout l.problem.dynamics.step x us :=
    ⟨path.controls, path.first, hpath.symm⟩
  rw [Path.length_knots_rollout] at hlength
  obtain ⟨hnext, hcontrols, hfollows⟩ :=
    follows_closedLoop hdynamics x hlength (length_gains_of_rollout hlength hs)
  rw [hnext, cost_rollout hdynamics hcost x hlength hcontrols]
  exact Riccati.change_of_follows (isSymmetric_expand hcost _) hs hfollows

end Unconstrained

namespace Descent

/-- In exact arithmetic, on a problem with affine dynamics, a quadratic cost and no constraints, the
line search from a path of the dynamics takes the full step along the gains of every backward pass
that asks for a change, with any regularization that is not negative, and the cost changes just as
expected. The bounds have to let a decrease pass that is just as expected. What the solver knows
about the problem is its own cost and its own expansion, as there are no multipliers to add. -/
theorem lineSearch_fullStep {A : Mat ℝ n n} {B : Mat ℝ n m} {b : Vec ℝ n}
    {problem : StageProblem ℝ n m 0 0} (hdynamics : problem.dynamics = .affine A B b)
    (hcost : problem.IsQuadratic) {o : Options ℝ} (hc : o.c1 < 1 ∧ 1 < o.c2) {path : Path ℝ n m}
    (hpath : path.IsRollout problem.dynamics.step) {rho : ℝ} (hrho : 0 ≤ rho)
    {s : Riccati.Sweep ℝ n m} (hs : Riccati.backwardPass (problem.expand path) rho = some s)
    (hd : ∃ g ∈ s.gains, g.d ≠ Vec.zero m) {w : Multipliers ℝ 0 0}
    (hw : w.stages.length = path.knots.length) {trials : Nat} (htrials : 0 < trials) :
    let aim := Lagrangian.aim ⟨problem, w⟩
    let next := Path.closedLoop problem.dynamics.step 1 path s.gains
    (aim.expand path = problem.expand path ∧ ∀ path, aim.cost path = problem.cost path) ∧
    problem.cost next - problem.cost path = s.linear + s.quadratic ∧
    lineSearch o aim path (aim.cost path) s trials = some ⟨next, aim.cost next, 1⟩ := by
  intro aim next
  have hexpand : aim.expand path = problem.expand path :=
    Lagrangian.expand_of_unconstrained ⟨problem, w⟩ hw
  have haim : ∀ path, aim.cost path = problem.cost path :=
    Lagrangian.cost_of_unconstrained ⟨problem, w⟩
  rw [← hexpand] at hs
  have hchange : problem.cost next - problem.cost path = s.linear + s.quadratic :=
    Lagrangian.cost_closedLoop (l := ⟨problem, w⟩) hdynamics hcost hpath hw.symm hs
  have hneg : s.linear + s.quadratic < 0 := by
    have hdescends := Riccati.descends_of_backwardPass
      (Lagrangian.isSymmetric_expand (l := ⟨problem, w⟩) hcost path) hrho hs
    have hpos := hdescends.pos hd 1 zero_lt_one le_rfl
    rw [Riccati.Sweep.expectedChange] at hpos
    linarith
  refine ⟨⟨hexpand, haim⟩, hchange, ?_⟩
  rw [← haim, ← haim] at hchange
  exact lineSearch_of_exact aim path hc hchange hneg htrials

/-- The gradient and the control Hessian of the integrator left alone. -/
theorem action_integrator :
    let t := Riccati.action (integratorProblem.expandKnot ⟨Vec.const 1 1, Vec.zero 1⟩)
      (Riccati.start (integratorProblem.expand (integratorProblem.rollout [Vec.zero 1])))
    t.lu.fn 0 = 1 ∧ t.luu.matrix 0 0 = 2 := by
  constructor <;>
  simp [Riccati.action, Riccati.start, StageProblem.expand, StageProblem.expandKnot,
    integratorProblem, StageProblem.rollout, Path.rollout, Path.cons, QuadraticCost.stageTerms,
    QuadraticCost.terminalGradient, QuadraticCost.terminalHessian, integratorCost,
    Mat.halfFormGradient, Mat.matrix_halfFormHessian, Dynamics.affine] <;>
  norm_num

/-- The integrator left alone takes the full step, with a regularization of one. -/
theorem lineSearch_integrator : ∃ s, ∃ next : Path ℝ 1 1,
    Riccati.backwardPass (integratorProblem.expand (integratorProblem.rollout [Vec.zero 1])) 1 =
      some s ∧
    lineSearch .standard integratorLagrangian.aim (integratorProblem.rollout [Vec.zero 1])
      (integratorLagrangian.aim.cost (integratorProblem.rollout [Vec.zero 1])) s 20 =
        some ⟨next, integratorLagrangian.aim.cost next, 1⟩ ∧
    integratorProblem.cost next - integratorProblem.cost (integratorProblem.rollout [Vec.zero 1]) =
      s.linear + s.quadratic := by
  obtain ⟨hlu, hluu⟩ := action_integrator
  set path := integratorProblem.rollout [Vec.zero 1]
  set e := integratorProblem.expandKnot ⟨Vec.const 1 1, Vec.zero 1⟩
  set rest := Riccati.start (integratorProblem.expand path)
  have hpos : 0 < (Riccati.action e rest).luu.matrix 0 0 + 1 := by
    rw [hluu]
    norm_num
  obtain ⟨g, hstage, hd, -⟩ := Riccati.exists_stage_single e rest hpos
  have hpass : Riccati.backwardPass (integratorProblem.expand path) 1 =
      some (rest.extend (Riccati.action e rest) g) := hstage
  have hne : g.d ≠ Vec.zero 1 := by
    intro hzero
    rw [hlu, hluu] at hd
    norm_num [hzero] at hd
  have hc : (Options.standard : Options ℝ).c1 < 1 ∧ 1 < (Options.standard : Options ℝ).c2 := by
    norm_num [Options.standard]
  have hw : integratorLagrangian.multipliers.stages.length = path.knots.length := rfl
  obtain ⟨-, hchange, hsearch⟩ := lineSearch_fullStep rfl isLinearQuadratic_integrator.quadratic hc
    (Path.isRollout_rollout _ _ _) zero_le_one hpass ⟨g, List.mem_cons_self, hne⟩ hw
    (Nat.succ_pos 19)
  exact ⟨_, _, hpass, hsearch, hchange⟩

end Descent

end TrajOpt
