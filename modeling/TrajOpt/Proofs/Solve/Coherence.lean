import TrajOpt.Dynamics.Systems
import TrajOpt.Proofs.Descent.Moves
import TrajOpt.Proofs.Solve.Rounds
import TrajOpt.Solver

/-!
# Coherence of solutions

A workspace is coherent when its path is the one that its controls lead to from the initial state,
and its values, cost and violation are those of the path. Every workspace of a solve is coherent for
the problem of its stage: the first one is built so, the inner solver goes from paths of the
dynamics to paths of the dynamics, and an update of the multipliers leaves all this as it is. The
last stage solves the problem without slacks, so nothing of the slacks is left in a solution.

## Main definitions

* `Workspace.IsCoherent` - what is recorded of a path is true of it.
* `Solver.EndsWith` - the last stage of a solve.

## Main statements

* `Outer.isCoherent_of_solve` - the outer loop keeps a workspace coherent.
* `Solver.endsWith_of_solve` - the last stage of a solve starts from a coherent workspace.
* `Solver.rollout_of_solve` - the controls of a solution lead to the solution.
-/

namespace TrajOpt

variable {α : Type} [Scalar α] {n m p q : Nat}

/-- The path follows from its controls, has the right number of knots, and the record of its values
is true. -/
structure Workspace.IsCoherent (problem : StageProblem α n m p q) (w : Workspace α n m p q) :
    Prop where
  rollout : problem.rollout w.path.controls = w.path
  values : w.values = problem.evaluateConstraints w.path
  cost : w.cost = problem.cost w.path
  violation : w.violation = w.values.violation problem.stageConstraints.isEquality
    problem.terminalConstraints.isEquality
  length_knots : w.path.knots.length = problem.intervals
  length_multipliers : w.multipliers.stages.length = problem.intervals

namespace StageProblem

variable {problem : StageProblem α n m p q} {path : Path α n m}

omit [Scalar α] in
/-- The paths that controls lead to are those of the dynamics that begin in the initial state. -/
theorem rollout_controls_iff :
    problem.rollout path.controls = path ↔
      path.IsRollout problem.dynamics.step ∧ path.first = problem.x0 := by
  constructor
  · intro h
    have hfirst : path.first = problem.x0 := by
      rw [← h, rollout, Path.first_rollout]
    exact ⟨by rwa [Path.IsRollout, hfirst], hfirst⟩
  · rintro ⟨hrollout, hfirst⟩
    rwa [Path.IsRollout, hfirst] at hrollout

end StageProblem

namespace Workspace

variable {problem : StageProblem α n m p q} {path : Path α n m} {w : Workspace α n m p q}

theorem isCoherent_ofPath {multipliers : Multipliers α p q} {gains : List (Gain α n m)}
    (hpath : problem.rollout path.controls = path) (hknots : path.knots.length = problem.intervals)
    (hstages : multipliers.stages.length = problem.intervals) :
    (ofPath problem path multipliers gains).IsCoherent problem :=
  ⟨hpath, rfl, rfl, rfl, hknots, hstages⟩

theorem isCoherent_start {us : List (Vec α m)} {mu : α} {lam : Option (List (Vec α p))}
    {lamN : Option (Vec α q)} (hus : us.length = problem.intervals)
    (hlam : ∀ l ∈ lam, l.length = problem.intervals) :
    (start problem us mu lam lamN).IsCoherent problem := by
  refine isCoherent_ofPath ?_ ?_ ?_
  · simp [StageProblem.rollout]
  · simpa [StageProblem.rollout] using hus
  · cases lam with
    | none => simpa using hus
    | some l => simpa using hlam l rfl

end Workspace

namespace Outer

variable {problem : StageProblem α n m p q} {o : Options α} {w : Workspace α n m p q}

/-- The inner solver leads from a coherent workspace to the workspace of another path. -/
theorem isCoherent_of_descend {inner : Descent.Result α n m} (hw : w.IsCoherent problem)
    (h : (descend problem o w).outcome = .ok inner) :
    (Workspace.ofPath problem inner.final.path w.multipliers inner.final.gains).IsCoherent
      problem := by
  obtain ⟨hrollout, hfirst⟩ := StageProblem.rollout_controls_iff.1 hw.rollout
  obtain ⟨hfinal, hstart, -⟩ := Descent.solve_isRollout hrollout h
  have hlength := Descent.solve_length (fun path hpath => ?_) h
  · exact Workspace.isCoherent_ofPath
      (StageProblem.rollout_controls_iff.2 ⟨hfinal, hstart.trans hfirst⟩)
      (hlength.trans hw.length_knots) hw.length_multipliers
  · simp [Lagrangian.aim, Lagrangian.expand, hpath, hw.length_knots, hw.length_multipliers]

theorem isCoherent_update {previous : α} (hw : w.IsCoherent problem) :
    (update problem o previous w).IsCoherent problem := by
  refine ⟨hw.rollout, hw.values, hw.cost, hw.violation, hw.length_knots, ?_⟩
  simp [update, Multipliers.update, hw.values, StageProblem.evaluateConstraints, hw.length_knots,
    hw.length_multipliers]

theorem isCoherent_of_solve {history : History (Snapshot α)} {stage : Stage}
    {r : Result α n m p q} (hw : w.IsCoherent problem)
    (h : (solve problem o w history stage).outcome = .ok r) : r.workspace.IsCoherent problem := by
  obtain ⟨t, ht, hr⟩ := solve_invariant (P := fun _ s => s.workspace.IsCoherent problem) (by
    intro _ s x history' hs hround _
    obtain ⟨inner, hinner, rfl⟩ := round_eq_ok.1 hround
    have hx := isCoherent_of_descend hs hinner
    simp only [Iterate.next]
    split
    · exact hx
    · exact isCoherent_update hx) h hw
  rw [hr]
  exact ht

theorem isCoherent_of_solveUnconstrained {history : History (Snapshot α)}
    {r : Result α n m p q} (hw : w.IsCoherent problem)
    (h : (solveUnconstrained problem o w history).outcome = .ok r) :
    r.workspace.IsCoherent problem := by
  simp only [solveUnconstrained, Run.outcome_bind_eq_ok] at h
  obtain ⟨inner, hinner, history', -, -, -, h⟩ := h
  cases h
  exact isCoherent_of_descend hw hinner

end Outer

namespace Infeasible

variable {problem : StageProblem α n m p q} {o : Options α}

theorem isCoherent_startWithSlack {guess : Path α n m}
    (hguess : guess.knots.length = problem.intervals) :
    (startWithSlack problem o guess).IsCoherent (problem.withSlack o.slackWeight) := by
  refine Workspace.isCoherent_start ?_ nofun
  simp [slackControls, StageProblem.initialSlacks, StageProblem.withSlack, hguess]

theorem isCoherent_dropSlack {w : Workspace α n (m + n) (p + n) q}
    (hw : w.IsCoherent (problem.withSlack o.slackWeight)) :
    (dropSlack problem o w).IsCoherent problem := by
  refine Workspace.isCoherent_start ?_ ?_
  · simpa [StageProblem.withSlack] using hw.length_knots
  · simpa [StageProblem.withSlack] using hw.length_multipliers

end Infeasible

namespace Solver

variable {ν : Type} {s : Solver α n m}

omit [Scalar α] in
theorem length_of_controlsOf {us : Tensor α} {l : List (Vec α m)}
    (h : (s.controlsOf us : Except (Error ν) _) = .ok l) : l.length = s.horizon := by
  unfold controlsOf at h
  split at h
  · cases h
    simp
  · cases h

/-- How a solve comes to its solution: its last stage starts from a coherent workspace and is the
outer loop, or the single inner solve of a problem without constraints. -/
def EndsWith (s : Solver α n m) (sol : Solution α n m) : Prop :=
  ∃ w history r, w.IsCoherent s.bound.problem ∧
    (∃ outer inner, sol = .ofResult s.bound.problem.dt r outer inner) ∧
    ((Outer.solve s.bound.problem s.options w history .feasible).outcome = .ok r ∨
      s.bound.constrained = false ∧
        (Outer.solveUnconstrained s.bound.problem s.options w history).outcome = .ok r)

theorem endsWith_of_solveFromControls {us : List (Vec α m)} {sol : Solution α n m}
    (hus : us.length = s.horizon) (h : (s.solveFromControls us).outcome = .ok sol) :
    s.EndsWith sol := by
  have hstart : (Workspace.start s.bound.problem us s.options.penaltyInitial none
      none).IsCoherent s.bound.problem := Workspace.isCoherent_start hus nofun
  cases hconstrained : s.bound.constrained with
  | true =>
    simp only [solveFromControls, hconstrained, if_true, Run.outcome_bind_eq_ok] at h
    obtain ⟨r, hr, h⟩ := h
    cases h
    exact ⟨_, _, r, hstart, ⟨_, _, rfl⟩, .inl hr⟩
  | false =>
    simp only [solveFromControls, hconstrained, if_false, Bool.false_eq_true,
      Run.outcome_bind_eq_ok] at h
    obtain ⟨r, hr, h⟩ := h
    cases h
    exact ⟨_, _, r, hstart, ⟨_, _, rfl⟩, .inr ⟨hconstrained, hr⟩⟩

theorem endsWith_of_solveFromPath {guess : Path α n m} {sol : Solution α n m}
    (hguess : guess.knots.length = s.horizon) (h : (s.solveFromPath guess).outcome = .ok sol) :
    s.EndsWith sol := by
  simp only [solveFromPath, Run.outcome_bind_eq_ok] at h
  obtain ⟨stages, hstages, h⟩ := h
  cases h
  simp only [Infeasible.solve, Run.outcome_bind_eq_ok] at hstages
  obtain ⟨infeasible, hinfeasible, -, -, feasible, hfeasible, hstages⟩ := hstages
  cases hstages
  have hslack := Outer.isCoherent_of_solve (Infeasible.isCoherent_startWithSlack hguess)
    hinfeasible
  exact ⟨_, _, feasible, Infeasible.isCoherent_dropSlack hslack, ⟨_, _, rfl⟩, .inl hfeasible⟩

/-- Every guess that a solver accepts leads to a last stage from a coherent workspace. -/
theorem endsWith_of_solve {guess : List (Tensor α)} {sol : Solution α n m}
    (h : (s.solve guess).outcome = .ok sol) : s.EndsWith sol := by
  unfold solve at h
  split at h
  · simp only [Run.outcome_bind_eq_ok, Run.outcome_ofExcept] at h
    obtain ⟨us, hus, -, -, h⟩ := h
    exact endsWith_of_solveFromControls (length_of_controlsOf hus) h
  · simp only [Run.outcome_bind_eq_ok, Run.outcome_ofExcept] at h
    obtain ⟨xs, -, us, hus, h⟩ := h
    split at h
    · next path hpath =>
      obtain ⟨-, -, h⟩ := Run.outcome_bind_eq_ok.1 h
      obtain ⟨-, -, h⟩ := Run.outcome_bind_eq_ok.1 h
      refine endsWith_of_solveFromPath ?_ h
      rw [← Path.length_controls, Path.controls_of_ofLists? hpath, length_of_controlsOf hus]
    · cases h
  · cases h

/-- However a solve ends, the controls of the solution are as many as the grid has intervals, and
their path from the initial state, its cost and its violation are those of the solution. -/
theorem rollout_of_solve {guess : List (Tensor α)} {sol : Solution α n m}
    (h : (s.solve guess).outcome = .ok sol) :
    sol.path.controls.length = s.horizon ∧
      s.rollout sol.path.controls = ⟨sol.path, sol.cost, sol.violation⟩ := by
  obtain ⟨w, history, r, hw, ⟨outer, inner, rfl⟩, hr⟩ := endsWith_of_solve h
  have hfinal : r.workspace.IsCoherent s.bound.problem := by
    rcases hr with hr | ⟨-, hr⟩
    · exact Outer.isCoherent_of_solve hw hr
    · exact Outer.isCoherent_of_solveUnconstrained hw hr
  refine ⟨by simpa [Solution.ofResult, horizon] using hfinal.length_knots, ?_⟩
  simp only [rollout, Solution.ofResult, hfinal.rollout, hfinal.cost, hfinal.violation,
    hfinal.values]

end Solver

namespace PointMass

/-- A point mass that is to be at rest at the origin after one interval, where it also starts. -/
def model : Model Float 2 1 where
  dynamics := ⟨"dynamics", .pure, true, 2, Systems.doubleIntegratorStep⟩
  size_dynamics := rfl
  integration := none
  jacobian := some Systems.doubleIntegratorJacobians

def cost : QuadraticCost Float 2 1 :=
  ⟨Mat.identity 2, Mat.identity 1, Mat.identity 2, 1, Vec.zero 2, Vec.zero 2, 0⟩

def constraints : ConstraintSet Float 2 1 :=
  ⟨Vec.zero 2, #v[some (-1)], #v[some 1], #v[none, none], #v[none, none], none, none, none, none,
    true⟩

def solver : Solver Float 2 1 where
  bound := ⟨_, _, .ofObjective model (.constrained cost constraints) 1 1, true, none⟩
  options := .standard

/-- A control that does not leave the point mass at rest. -/
def guess : List (Tensor Float) := [⟨[1, 1], [0.5]⟩]

/-- The workspace of the same control. -/
def controlStart := Workspace.start solver.bound.problem [Vec.const 1 0.5] 1 none none

theorem exists_solved :
    ∃ sol, (solver.solve guess).outcome = .ok sol ∧ sol.status = .solved := by
  have hrun : (solver.solve guess).outcome.toOption.any
      (fun sol => decide (sol.status = .solved)) = true := by decide +kernel
  obtain ⟨sol, hsol, hstatus⟩ := exists_ok_of_any hrun
  exact ⟨sol, hsol, of_decide_eq_true hstatus⟩

theorem rollout_of_guess : ∃ sol, (solver.solve guess).outcome = .ok sol ∧
    sol.path.controls.length = 1 ∧
      solver.rollout sol.path.controls = ⟨sol.path, sol.cost, sol.violation⟩ := by
  obtain ⟨sol, hsol, -⟩ := exists_solved
  exact ⟨sol, hsol, Solver.rollout_of_solve hsol⟩

end PointMass

end TrajOpt
