import TrajOpt.Proofs.Descent.Progress
import TrajOpt.Proofs.Objective.Constraints
import TrajOpt.Proofs.Options
import TrajOpt.Proofs.Scalar.Double
import TrajOpt.Proofs.Solve.Coherence

/-!
# Soundness of solved constrained problems

The outer loop reports success after an iteration that left a violation below the tolerance and a
small decrease. The violation is that of the path which is returned, so every constraint holds on
this path up to the tolerance.

## Main statements

* `Outer.lt_of_solved` - what the outer loop makes sure of before it reports success.
* `Solver.constraints_of_solved` - the constraints hold along a path that is reported as solved.
-/

namespace TrajOpt

variable {α : Type} [Scalar α] {n m p q : Nat}

namespace Outer

variable {problem : StageProblem α n m p q} {o : Options α} {w : Workspace α n m p q}

theorem meets_eq_true {violation : α} {decrease : Option α} :
    meets o violation decrease = true ↔
      violation < o.epsConstraint ∧ ∃ d, decrease = some d ∧ d < o.eps := by
  cases decrease <;> simp [meets]

variable [LawfulScalar α]

/-- The loop reports success for a violation below the tolerance and a last decrease that is small
and not negative. -/
theorem lt_of_solved {history : History (Snapshot α)} {stage : Stage} {r : Result α n m p q}
    (hc1 : 0 < o.c1) (h : (solve problem o w history stage).outcome = .ok r)
    (hsolved : r.status = .solved) :
    r.workspace.violation < o.epsConstraint ∧
      ∃ d, r.decrease = some d ∧ 0 ≤ d ∧ d < o.eps := by
  obtain ⟨v, x, hround, hends, hworkspace, hdecrease⟩ := exists_round_of_solved h hsolved
  obtain ⟨inner, hinner, rfl⟩ := round_eq_ok.1 hround
  obtain ⟨hviolation, d, hd, hlt⟩ := meets_eq_true.1 hends
  rw [hworkspace, hdecrease]
  exact ⟨hviolation, d, hd, (Descent.progress_of_solve hc1 hinner).1.nonneg hd, hlt⟩

end Outer

theorem BoundProblem.create_eq_ok {ν : Type} {model : Model α n m} {objective : Objective α n m}
    {dt : α} {intervals : Int} {bound : BoundProblem α n m}
    (h : (create model ⟨n, m, objective⟩ dt intervals : Except (Error ν) _) = .ok bound) :
    bound = ⟨objective.p, objective.q, .ofObjective model objective dt intervals.toNat,
      objective.isConstrained, model.fault?.or objective.fault?⟩ := by
  simp only [create, and_self, dite_true] at h
  split at h
  · cases h
  · cases h
    rfl

namespace Solver

variable [LawfulScalar α] {ν : Type} {model : Model α n m} {cost : QuadraticCost α n m}
  {cs : ConstraintSet α n m} {dt : α} {intervals : Int} {s : Solver α n m}
  {guess : List (Tensor α)} {sol : Solution α n m}

/-- The constraints hold along a path that is reported as solved, whatever the scalars. -/
theorem constraints_of_bound
    (hbound : (BoundProblem.create model ⟨n, m, .constrained cost cs⟩ dt intervals :
      Except (Error ν) _) = .ok s.bound)
    (hc1 : 0 < s.options.c1) (h : (s.solve guess).outcome = .ok sol)
    (hsolved : sol.status = .solved) :
    (sol.path = Path.rollout (fun x u => model.step x u dt) cost.x0 sol.path.controls ∧
      sol.path.controls.length = s.horizon) ∧
    (∀ k ∈ sol.path.knots, cs.StageWithin s.options.epsConstraint k.state k.control) ∧
    cs.TerminalWithin s.options.epsConstraint sol.path.final ∧
    ∃ summary d, sol.summary = some summary ∧ summary.decrease = some d ∧
      0 ≤ d ∧ d < s.options.eps := by
  have hs := BoundProblem.create_eq_ok hbound
  obtain ⟨bound, options⟩ := s
  subst hs
  obtain ⟨w, history, r, hw, ⟨outer, inner, rfl⟩, hr | ⟨hfree, -⟩⟩ := endsWith_of_solve h
  · have hfinal := Outer.isCoherent_of_solve hw hr
    obtain ⟨hviolation, d, hd, hnonneg, hlt⟩ := Outer.lt_of_solved hc1 hr hsolved
    rw [hfinal.violation, hfinal.values] at hviolation
    obtain ⟨-, hstages, hterminal⟩ := ConstraintValues.violation_lt.1 hviolation
    refine ⟨⟨hfinal.rollout.symm, ?_⟩, fun k hk => ?_, ?_, _, d, rfl, hd, hnonneg, hlt⟩
    · exact (Path.length_controls _).trans hfinal.length_knots
    · exact ConstraintSet.stageWithin_of_lt (hstages _ (List.mem_map_of_mem hk))
    · exact ConstraintSet.terminalWithin_of_lt hterminal
  · exact absurd hfree (by simp [Objective.isConstrained, Objective.constraints?])

end Solver

section Solved

open Solver

variable {model : Model Float n m} {cost : QuadraticCost Float n m} {cs : ConstraintSet Float n m}
  {dt : Numeral} {given : Option Numeral} {options used : Options Numeral}
  {changes : List (String × Numeral)} {s : Solver Float n m} {guess : List (Tensor Float)}
  {sol : Solution Float n m}

/-- A solution that is reported as solved is the path of its controls from the initial state, every
constraint holds along it up to the tolerance, and the last decrease was small. -/
theorem Solver.constraints_of_solved (hoptions : options.check = .ok ())
    (hcreate : create model ⟨n, m, .constrained cost cs⟩ dt given options changes = .ok (s, used))
    (h : (s.solve guess).outcome = .ok sol) (hsolved : sol.status = .solved) :
    (sol.path = Path.rollout (fun x u => model.step x u dt.toFloat) cost.x0 sol.path.controls ∧
      sol.path.controls.length = s.horizon) ∧
    (∀ k ∈ sol.path.knots, cs.StageWithin s.options.epsConstraint k.state k.control) ∧
    cs.TerminalWithin s.options.epsConstraint sol.path.final ∧
    ∃ summary d, sol.summary = some summary ∧ summary.decrease = some d ∧
      0 ≤ d ∧ d < s.options.eps := by
  obtain ⟨-, haccepted, hs, intervals, hbound⟩ :=
    create_eq_ok (Options.check_eq_ok_iff.1 hoptions) hcreate
  have hc1 : 0 < s.options.c1 := by
    rw [hs]
    exact haccepted.map_toFloat.1
  exact constraints_of_bound hbound hc1 h hsolved

end Solved

/-- The point mass is brought back to rest within its bounds, up to the tolerance. -/
theorem PointMass.constraints_of_guess : ∃ (s : Solver Float 2 1) (used : Options Numeral)
    (sol : Solution Float 2 1),
    Solver.create model ⟨2, 1, .constrained cost constraints⟩ (.double 1) (some (.int 1)) .standard
      [] = .ok (s, used) ∧
    (s.solve guess).outcome = .ok sol ∧ sol.status = .solved ∧
    (∀ k ∈ sol.path.knots, constraints.StageWithin s.options.epsConstraint k.state k.control) ∧
    constraints.TerminalWithin s.options.epsConstraint sol.path.final := by
  have hcheck : (Options.check (.standard : Options Numeral)).toOption.any
      (fun _ => true) = true := by decide +kernel
  have hrun : (Solver.create model ⟨2, 1, .constrained cost constraints⟩ (.double 1)
      (some (.int 1)) .standard []).toOption.any (fun (s, _) =>
        (s.solve guess).outcome.toOption.any fun sol =>
          decide (sol.status = .solved)) = true := by decide +kernel
  obtain ⟨⟨⟩, hoptions, -⟩ := exists_ok_of_any hcheck
  obtain ⟨⟨s, used⟩, hcreate, hrun⟩ := exists_ok_of_any hrun
  obtain ⟨sol, hsol, hstatus⟩ := exists_ok_of_any hrun
  have hsolved := of_decide_eq_true hstatus
  obtain ⟨-, hstages, hterminal, -⟩ :=
    Solver.constraints_of_solved hoptions hcreate hsol hsolved
  exact ⟨s, used, sol, hcreate, hsol, hsolved, hstages, hterminal⟩

end TrajOpt
