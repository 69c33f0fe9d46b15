import Mathlib
import TrajOpt.Proofs.Descent.Progress
import TrajOpt.Proofs.Problem.LinearQuadratic

/-!
# Solving linear-quadratic problems

The decrease of the full step is just the expected one, so the line search takes it at once, and at
the minimizer the gains ask for no change. The solver thus needs one iteration for the step and at
most one more to find that it has arrived. A line search can only count with a budget that is given
as an integer.

## Main statements

* `Descent.lineSearch_of_exact` - a step whose change is as expected is accepted.
* `Descent.solve_linearQuadratic` - the solve ends in the unique minimizer.
* `Descent.notCountable_of_doubleBudget` - a budget that is accepted and cannot be counted.
-/

namespace TrajOpt

variable {n m : Nat}

theorem Regularization.weight_decrease_of_zero {o : Options ℝ} {r : Regularization ℝ}
    (h : r.weight = 0) : (r.decrease o).weight = 0 := by
  simp [decrease, h]

namespace Descent

variable {o : Options ℝ} {aim : Aim ℝ n m} {path : Path ℝ n m}

theorem foldl_maximum_of_zeros {l : List ℝ} (h : ∀ a ∈ l, a = 0) :
    l.foldl Arith.maximum 0 = 0 := by
  induction l with
  | nil => rfl
  | cons a l ih =>
    obtain rfl := h a List.mem_cons_self
    rw [List.foldl_cons, Arith.maximum_eq_max, max_self]
    exact ih fun a ha => h a (List.mem_cons_of_mem _ ha)

theorem gradient_of_zeros {gains : List (Gain ℝ n m)} (h : ∀ g ∈ gains, g.d = Vec.zero m) :
    gradient gains path = 0 := by
  apply foldl_maximum_of_zeros
  intro a ha
  obtain ⟨i, hi, rfl⟩ := List.mem_iff_getElem.1 ha
  rw [List.getElem_zipWith, h _ (List.getElem_mem _), Vec.maximum, ← Vector.foldl_toList]
  apply foldl_maximum_of_zeros
  intro a ha
  obtain ⟨j, hj, rfl⟩ := Vector.mem_iff_getElem.1 (Vector.mem_toList_iff.1 ha)
  simp [Vec.zero, Scalar.abs]

/-- Gains that ask for no open-loop change pass the gradient test. -/
theorem gradient_lt_of_zeros (ho : o.Accepted) {gains : List (Gain ℝ n m)}
    (h : ∀ g ∈ gains, g.d = Vec.zero m) : gradient gains path < o.gradientTolerance := by
  rw [gradient_of_zeros h]
  exact not_le.1 ho.not_gradientTolerance_le

/-- The full step is accepted when its change is as expected and a decrease. -/
theorem lineSearch_of_exact (aim : Aim ℝ n m) (path : Path ℝ n m) {sweep : Riccati.Sweep ℝ n m}
    (hc : o.c1 < 1 ∧ 1 < o.c2)
    (hchange : aim.cost (Path.closedLoop aim.step 1 path sweep.gains) - aim.cost path =
      sweep.linear + sweep.quadratic)
    (hneg : sweep.linear + sweep.quadratic < 0) {trials : Nat} (htrials : 0 < trials) :
    lineSearch o aim path (aim.cost path) sweep trials =
      some ⟨Path.closedLoop aim.step 1 path sweep.gains,
        aim.cost (Path.closedLoop aim.step 1 path sweep.gains), 1⟩ := by
  obtain ⟨k, rfl⟩ := Nat.exists_eq_add_one.2 htrials
  have hexpected : sweep.expectedChange 1 = sweep.linear + sweep.quadratic := by
    rw [Riccati.Sweep.expectedChange]
    ring
  have hquotient : (aim.cost path - aim.cost (Path.closedLoop aim.step 1 path sweep.gains)) /
      -(sweep.linear + sweep.quadratic) = 1 := by
    rw [← hchange, neg_sub]
    apply div_self
    linarith
  have hpos : ¬ -(sweep.linear + sweep.quadratic) ≤ 0 := by linarith
  have hstep : tryStep o aim path (aim.cost path) sweep (stepSize 0) =
      some ⟨Path.closedLoop aim.step 1 path sweep.gains,
        aim.cost (Path.closedLoop aim.step 1 path sweep.gains), 1⟩ := by
    have hsize : (stepSize 0 : ℝ) = 1 := rfl
    have hfinite : ∀ p : Path ℝ n m, p.isFinite = true := by
      intro p
      simp [Path.isFinite, Scalar.isFinite]
    rw [hsize, tryStep]
    simp only [hfinite, hexpected, hpos, hquotient, hc, Scalar.isFinite, Bool.not_true,
      Bool.false_eq_true, and_self, if_true, if_false]
  rw [lineSearch, List.range_succ_eq_map, List.findSome?_cons, hstep]

section LinearQuadratic

variable {l : Lagrangian ℝ n m 0 0}

theorem exists_pass (h : l.problem.IsLinearQuadratic) (path : Path ℝ n m) :
    ∃ s, Riccati.backwardPass (l.expand path) 0 = some s := by
  have hw := l.multipliers.nonnegPenalties_of_unconstrained
  obtain ⟨s, hs, -⟩ := Riccati.sweep_of_convex (s := Riccati.start (l.expand path)) (le_refl 0)
    (Lagrangian.posSemidef_Vxx h.convex hw path)
    (Lagrangian.isConvex_of_mem_stages h.convex hw path)
  exact ⟨s, hs⟩

/-- At a minimizer the gradient test ends the solve. -/
theorem move_of_minimizer (h : l.problem.IsLinearQuadratic) (ho : o.Accepted) {us : List (Vec ℝ m)}
    (hlength : us.length = l.multipliers.stages.length) (hmin : l.problem.IsUniqueMinimizer us)
    {s : Iterate ℝ n m} (hpath : s.path = l.problem.rollout us) (hreg : s.reg.weight = 0) :
    ∃ gains, move o l.aim s = .ok (s.reg, .stationary gains) := by
  obtain ⟨sweep, hsweep⟩ := exists_pass h s.path
  have hpass : Riccati.backwardPass (l.aim.expand s.path) s.reg.weight = some sweep := by
    rw [hreg]
    exact hsweep
  rw [hpath] at hsweep
  obtain ⟨hnext, hcontrols, -, hchange⟩ :=
    Lagrangian.isUniqueMinimizer_closedLoop h hlength hsweep
  set next := Path.closedLoop l.problem.dynamics.step 1 (l.problem.rollout us) sweep.gains
  have hle : l.problem.cost (l.problem.rollout us) ≤ l.problem.cost next := by
    rw [hnext]
    by_cases heq : next.controls = us
    · rw [heq]
    · exact (hmin _ hcontrols heq).le
  have hzeros := Lagrangian.gains_of_expectedChange h hlength hsweep (by linarith)
  refine ⟨sweep.gains, ?_⟩
  rw [move_of_pass hpass, if_pos (gradient_lt_of_zeros ho hzeros)]

/-- Elsewhere the full step along the gains is taken. -/
theorem move_of_gradient (h : l.problem.IsLinearQuadratic) (ho : o.Accepted)
    (hcount : o.iterationsLineSearch.int?.isSome) (hc : o.c1 < 1 ∧ 1 < o.c2)
    {us : List (Vec ℝ m)} (hlength : us.length = l.multipliers.stages.length)
    {s : Iterate ℝ n m} (hpath : s.path = l.problem.rollout us) (hcost : s.cost = l.aim.cost s.path)
    (hreg : s.reg.weight = 0) {sweep : Riccati.Sweep ℝ n m}
    (hsweep : Riccati.backwardPass (l.expand (l.problem.rollout us)) 0 = some sweep)
    (hgradient : ¬ gradient sweep.gains s.path < o.gradientTolerance) :
    let next := Path.closedLoop l.problem.dynamics.step 1 (l.problem.rollout us) sweep.gains
    move o l.aim s = .ok (s.reg, .taken sweep.gains ⟨next, l.cost next, 1⟩) := by
  intro next
  have hpass : Riccati.backwardPass (l.aim.expand s.path) s.reg.weight = some sweep := by
    rw [hreg, hpath]
    exact hsweep
  obtain ⟨-, -, -, hchange⟩ := Lagrangian.isUniqueMinimizer_closedLoop h hlength hsweep
  have hneg : sweep.linear + sweep.quadratic < 0 := by
    by_contra hexpected
    exact hgradient (gradient_lt_of_zeros ho
      (Lagrangian.gains_of_expectedChange h hlength hsweep (not_lt.1 hexpected)))
  rw [move_of_pass hpass, if_neg hgradient, Options.counted_of_isInt (b := .lineSearch) hcount,
    hcost, hpath]
  rw [← Lagrangian.cost_of_unconstrained, ← Lagrangian.cost_of_unconstrained] at hchange
  have hsearch := lineSearch_of_exact l.aim (l.problem.rollout us) hc hchange hneg
    (ho.budgetNat_pos .lineSearch)
  simp only [Except.map]
  rw [hsearch]
  rfl

/-- A step to the minimizer is the last one. -/
theorem solved_of_taken (h : l.problem.IsLinearQuadratic) (ho : o.Accepted) {us : List (Vec ℝ m)}
    (hlength : us.length = l.multipliers.stages.length) (hmin : l.problem.IsUniqueMinimizer us)
    {s : Iterate ℝ n m} {reg : Regularization ℝ} {gains : List (Gain ℝ n m)} {step : Step ℝ n m}
    (hmove : move o l.aim s = .ok (reg, .taken gains step))
    (hstep : step.path = l.problem.rollout us) (hreg : reg.weight = 0) (left done : Nat) :
    ∃ r, (loop o l.aim (left + 2) done s).outcome = .ok r ∧ r.status = .solved ∧
      r.iterations ≤ done + 2 ∧ r.final.path = l.problem.rollout us := by
  rw [outcome_loop, hmove, ok_bind]
  rcases hcarry : (Move.taken gains step).carryOut o l.aim s reg with ⟨t, stop⟩
  obtain ⟨hpath, hweight, hstop⟩ := carryOut_taken hcarry
  obtain rfl | rfl := hstop
  · obtain ⟨gains', hstationary⟩ := move_of_minimizer h ho hlength hmin (hpath.trans hstep)
      (hweight ▸ Regularization.weight_decrease_of_zero hreg)
    exact ⟨_, outcome_loop_stationary hstationary left _, rfl, le_rfl, hpath.trans hstep⟩
  · exact ⟨_, rfl, rfl, Nat.le_succ _, hpath.trans hstep⟩

end LinearQuadratic

/-- In exact arithmetic, a problem with affine dynamics, a convex quadratic cost and no constraints
is solved in at most two iterations, if the regularization starts at zero, the line search lets a
decrease pass that is just as expected, and its budget is given as an integer. Unless the gradient
test ends the solve at its start, it ends in the unique minimizer. -/
theorem solve_linearQuadratic {A : Mat ℝ n n} {B : Mat ℝ n m} {b : Vec ℝ n}
    {problem : StageProblem ℝ n m 0 0} {cost : QuadraticCost ℝ n m}
    (hdynamics : problem.dynamics = .affine A B b) (hcost : problem.HasCost cost)
    (hQ : cost.Q.matrix.PosSemidef) (hR : cost.R.matrix.PosDef) (hQf : cost.Qf.matrix.PosSemidef)
    (hdt : 0 < problem.dt) (ho : o.Accepted) (hcount : o.iterationsLineSearch.int?.isSome)
    (hc : o.c1 < 1 ∧ 1 < o.c2) (hreg : o.regInitial = 0) (hbudget : 2 ≤ o.budgetNat .iterations)
    (w : Multipliers ℝ 0 0) (us : List (Vec ℝ m)) (hlength : us.length = w.stages.length) :
    let aim := Lagrangian.aim ⟨problem, w⟩
    let path := problem.rollout us
    ∃ r, (solve o aim path).outcome = .ok r ∧ r.status = .solved ∧ r.iterations ≤ 2 ∧
      ((∃ gains, solveMoves o aim path = [.stationary gains]) ∨
        r.final.path = problem.rollout r.final.path.controls ∧
          r.final.path.controls.length = us.length ∧
          problem.IsUniqueMinimizer r.final.path.controls) := by
  intro aim path
  set l : Lagrangian ℝ n m 0 0 := ⟨problem, w⟩
  have h : l.problem.IsLinearQuadratic :=
    ⟨⟨A, B, b, hdynamics⟩, hcost.isQuadratic (Mat.isSymm_of_posSemidef hQ)
      (Mat.isSymm_of_posSemidef hR.posSemidef) (Mat.isSymm_of_posSemidef hQf),
      hcost.isConvex hQ hR hQf hdt⟩
  obtain ⟨left, hleft⟩ := Nat.exists_eq_add_of_le' hbudget
  obtain ⟨sweep, hsweep⟩ := exists_pass h path
  have hstart : (start o aim path).reg.weight = 0 := hreg
  rw [solve, hleft, solveMoves, hleft]
  by_cases hgradient : gradient sweep.gains path < o.gradientTolerance
  · have hmove : move o aim (start o aim path) =
        .ok ((start o aim path).reg, .stationary sweep.gains) := by
      have hpass : Riccati.backwardPass (aim.expand path) (start o aim path).reg.weight =
          some sweep := by
        rw [hstart]
        exact hsweep
      rw [move_of_pass hpass]
      exact if_pos hgradient
    refine ⟨_, outcome_loop_stationary hmove _ _, rfl, one_le_two, .inl ⟨sweep.gains, ?_⟩⟩
    simp only [moves, hmove, Move.carryOut]
  · have hmove := move_of_gradient (s := start o aim path) h ho hcount hc hlength rfl rfl hstart
      hsweep hgradient
    obtain ⟨hnext, hcontrols, hmin, -⟩ :=
      Lagrangian.isUniqueMinimizer_closedLoop h hlength hsweep
    set next := Path.closedLoop l.problem.dynamics.step 1 (l.problem.rollout us) sweep.gains
    obtain ⟨r, hr, hstatus, hiterations, hpath⟩ :=
      solved_of_taken h ho (hcontrols.trans hlength) hmin hmove hnext hstart left 0
    have hfinal : r.final.path.controls = next.controls := by
      rw [hpath]
      exact Path.controls_rollout _ _ _
    rw [← hfinal] at hpath hcontrols hmin
    exact ⟨r, hr, hstatus, hiterations, .inr ⟨hpath, hcontrols, hmin⟩⟩

section Integrator

/-- The integrator without any constraints. -/
noncomputable def integratorLagrangian : Lagrangian ℝ 1 1 0 0 :=
  ⟨integratorProblem, [⟨Vec.empty, Vec.empty⟩], ⟨Vec.empty, Vec.empty⟩⟩

theorem isLinearQuadratic_integrator : integratorProblem.IsLinearQuadratic where
  affine := ⟨_, _, _, rfl⟩
  quadratic := hasCost_integratorProblem.isQuadratic
    (Mat.isSymm_of_posSemidef posSemidef_Q_integrator)
    (Mat.isSymm_of_posSemidef posDef_R_integrator.posSemidef)
    (Mat.isSymm_of_posSemidef posSemidef_Qf_integrator)
  convex := hasCost_integratorProblem.isConvex posSemidef_Q_integrator posDef_R_integrator
    posSemidef_Qf_integrator zero_lt_one

theorem cost_integrator (u : Vec ℝ 1) : integratorProblem.cost (integratorProblem.rollout [u]) =
    u.fn 0 ^ 2 / 2 + (1 + u.fn 0) ^ 2 / 2 := by
  simp [StageProblem.cost, StageProblem.rollout, Path.rollout, Path.cons, integratorProblem,
    QuadraticCost.stage, QuadraticCost.terminal, integratorCost, Mat.halfForm_eq, Dynamics.affine,
    dotProduct]
  ring

/-- The gain of the integrator asks for half the distance to the origin. -/
theorem gradient_integrator {s : Riccati.Sweep ℝ 1 1}
    (hs : Riccati.backwardPass (integratorLagrangian.expand
      (integratorProblem.rollout [Vec.zero 1])) 0 = some s) :
    gradient s.gains (integratorProblem.rollout [Vec.zero 1]) = 1 / 2 := by
  have hgains : s.gains.length = 1 := Riccati.length_gains_sweep hs
  obtain ⟨g, hg⟩ := List.length_eq_one_iff.1 hgains
  have hd : g.d.fn 0 = -1 / 2 := by
    obtain ⟨hnext, -, hmin, -⟩ := Lagrangian.isUniqueMinimizer_closedLoop
      (l := integratorLagrangian) isLinearQuadratic_integrator rfl hs
    rw [hg] at hnext hmin
    set u := Path.reaction 1 (Vec.const 1 1) ⟨Vec.const 1 1, Vec.zero 1⟩ g
    have hmin' : integratorProblem.IsUniqueMinimizer [u] := hmin
    have hu : u.fn 0 = g.d.fn 0 := by simp [u, Path.reaction, Vec.sub_self]
    by_contra hne
    have hlt := hmin' [Vec.const 1 (-1 / 2)] rfl (by
      intro heq
      apply hne
      rw [← hu, ← (List.cons.inj heq).1, Vec.fn_const])
    rw [cost_integrator, cost_integrator, hu, Vec.fn_const] at hlt
    nlinarith [sq_nonneg (g.d.fn 0 + 1 / 2)]
  have habs : ∀ a : ℝ, Scalar.abs a = |a| := fun _ => rfl
  have hd' : g.d.toList = [-1 / 2] := by simp [Vec.toList_eq_ofFn, hd]
  rw [hg]
  norm_num [gradient, StageProblem.rollout, Path.rollout, Path.cons, Path.controls, Vec.maximum,
    Vec.zero, Vec.const, ← Vector.foldl_toList, Arith.maximum_eq_max, habs, hd']

theorem accepted_standard : (Options.standard : Options ℝ).Accepted where
  budget b := by
    cases b with
    | iterations => exact Options.checkBudget_eq_ok (k := 500) rfl (by decide +kernel)
    | outer => exact Options.checkBudget_eq_ok (k := 50) rfl (by decide +kernel)
    | lineSearch => exact Options.checkBudget_eq_ok (k := 20) rfl (by decide +kernel)
  positive := by norm_num [Options.positives, Options.standard]
  lineSearch := by norm_num [Options.standard]
  penaltyFactor := by norm_num [Options.standard]
  penaltyMax := by norm_num [Options.standard]
  decreaseFraction := by norm_num [Options.standard]
  regFactor := by norm_num [Options.standard]
  regularization := by norm_num [Options.standard]

theorem solved_integrator : ∃ r,
    (solve .standard integratorLagrangian.aim (integratorProblem.rollout [Vec.zero 1])).outcome = .ok r ∧
      r.status = .solved ∧ r.iterations ≤ 2 := by
  have hc : (Options.standard : Options ℝ).c1 < 1 ∧ 1 < (Options.standard : Options ℝ).c2 := by
    norm_num [Options.standard]
  have hreg : (Options.standard : Options ℝ).regInitial = 0 := by norm_num [Options.standard]
  have hbudget : 2 ≤ (Options.standard : Options ℝ).budgetNat .iterations := by
    have hvalue : (Options.standard : Options ℝ).budgetNat .iterations = 500 := rfl
    rw [hvalue]
    norm_num
  obtain ⟨r, hr, hstatus, hiterations, -⟩ := solve_linearQuadratic rfl hasCost_integratorProblem
    posSemidef_Q_integrator posDef_R_integrator posSemidef_Qf_integrator zero_lt_one
    accepted_standard rfl hc hreg hbudget integratorLagrangian.multipliers [Vec.zero 1] rfl
  exact ⟨r, hr, hstatus, hiterations⟩

/-- The standard options with the budget of the line search given as a double. -/
noncomputable def doubleBudget : Options ℝ :=
  { Options.standard with iterationsLineSearch := .double 20.0 }

/-- A budget of the line search that is a double is accepted, and no solve that comes to a line
search can count with it. -/
theorem notCountable_of_doubleBudget :
    (integratorProblem.dynamics = .affine (Mat.identity 1) (Mat.identity 1) (Vec.zero 1) ∧
      integratorProblem.HasCost integratorCost ∧ integratorCost.Q.matrix.PosSemidef ∧
      integratorCost.R.matrix.PosDef ∧ integratorCost.Qf.matrix.PosSemidef ∧
      0 < integratorProblem.dt) ∧
    (doubleBudget.Accepted ∧ (doubleBudget.c1 < 1 ∧ 1 < doubleBudget.c2) ∧
      doubleBudget.regInitial = 0 ∧ 2 ≤ doubleBudget.budgetNat .iterations) ∧
    (solve doubleBudget integratorLagrangian.aim (integratorProblem.rollout [Vec.zero 1])).outcome =
      .error .notCountable := by
  have haccepted : doubleBudget.Accepted :=
    accepted_standard.withLineSearch
      (Options.checkBudget_eq_ok (k := 20) rfl (by decide +kernel))
  have hc : doubleBudget.c1 < 1 ∧ 1 < doubleBudget.c2 := by
    norm_num [doubleBudget, Options.standard]
  have hreg : doubleBudget.regInitial = 0 := by norm_num [doubleBudget, Options.standard]
  have hbudget : doubleBudget.budgetNat .iterations = 499 + 1 := rfl
  refine ⟨⟨rfl, hasCost_integratorProblem, posSemidef_Q_integrator, posDef_R_integrator,
    posSemidef_Qf_integrator, zero_lt_one⟩, ⟨haccepted, hc, hreg, by rw [hbudget]; norm_num⟩, ?_⟩
  set path := integratorProblem.rollout [Vec.zero 1]
  obtain ⟨sweep, hsweep⟩ :=
    exists_pass (l := integratorLagrangian) isLinearQuadratic_integrator path
  have hgradient : ¬ gradient sweep.gains path < doubleBudget.gradientTolerance := by
    rw [gradient_integrator hsweep]
    norm_num [doubleBudget, Options.standard]
  set s := start doubleBudget integratorLagrangian.aim path
  have hpass : Riccati.backwardPass (integratorLagrangian.aim.expand s.path) s.reg.weight =
      some sweep := by
    have hweight : s.reg.weight = 0 := hreg
    rw [hweight]
    exact hsweep
  have hmove : move doubleBudget integratorLagrangian.aim s = .error .notCountable := by
    rw [move_of_pass hpass]
    exact if_neg hgradient
  rw [solve, hbudget, outcome_loop, hmove]
  rfl

end Integrator

end Descent

end TrajOpt
