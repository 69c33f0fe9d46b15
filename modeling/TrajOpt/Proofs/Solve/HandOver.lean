import TrajOpt.Proofs.Problem.Slack
import TrajOpt.Proofs.Scalar.Double
import TrajOpt.Proofs.Solve.Soundness

/-!
# From the infeasible to the feasible stage

The second stage of an infeasible start takes over what the first one found: the controls without
their slacks, and the multipliers of all constraints but those on slacks. A multiplier stays with
its constraint, since the constraints on slacks come after all others. Penalties start anew, and so
does the path, which is the one that the dynamics without slacks make of the controls.

## Main statements

* `StageProblem.getElem_withSlack` - the constraints of the problem come first, as they are.
* `Infeasible.slack_lt_of_violation` - a small violation leaves only small slacks.
* `Infeasible.handOver_of_solve` - what the second stage starts from.
-/

namespace TrajOpt

variable {α : Type} [Scalar α] {n m p q : Nat}

/-- The constraints of a problem come first among those with slacks, with the same values and of the
same kinds. -/
theorem StageProblem.getElem_withSlack (problem : StageProblem α n m p q) (weight : α) (x : Vec α n)
    (u : Vec α m) (w : Vec α n) {j : Nat} (hj : j < p) :
    ((problem.withSlack weight).stageConstraints.value x (Vec.append u w))[j] =
        (problem.stageConstraints.value x u)[j] ∧
      (problem.withSlack weight).stageConstraints.isEquality[j] =
        problem.stageConstraints.isEquality[j] := by
  constructor
  · simp only [withSlack, StageConstraints.withSlack, Vec.left_append]
    simp [Vec.append, hj]
  · simp [withSlack, StageConstraints.withSlack, Vec.append, hj]

namespace Infeasible

variable {problem : StageProblem α n m p q} {o : Options α} {guess : Path α n m}

variable [LawfulScalar α]

/-- A small violation leaves only small slacks. -/
theorem slack_lt_of_violation {weight eps : α} {path : Path α n (m + n)}
    (h : ((problem.withSlack weight).evaluateConstraints path).violation
      (problem.withSlack weight).stageConstraints.isEquality
      (problem.withSlack weight).terminalConstraints.isEquality < eps) :
    ∀ s ∈ path.slackParts, ∀ i (hi : i < n), Scalar.abs s[i] < eps := by
  obtain ⟨-, hstages, -⟩ := ConstraintValues.violation_lt.1 h
  simp only [Path.slackParts, Path.controls, List.forall_mem_map]
  intro k hk i hi
  have hentries := hstages _ (List.mem_map_of_mem hk)
  have hslack := ((Vec.forall_append (P := fun e a => violationOf e a < eps)).1 hentries).2 i hi
  rwa [Vec.getElem_const, violationOf_true_lt] at hslack

/-- Whatever becomes of the second stage, it starts from the path of the controls without slacks,
with the multipliers of the first stage and with penalties as at the beginning. Each multiplier that
it takes over is one of the same constraint. A first stage that solved its problem left only small
slacks. -/
theorem handOver_of_solve {history : History (Snapshot α)}
    {infeasible : Outer.Result α n (m + n) (p + n) q}
    (h : (Outer.solve (problem.withSlack o.slackWeight) o (startWithSlack problem o guess) history
      .infeasible).outcome = .ok infeasible) :
    let w := infeasible.workspace
    let multipliers : Multipliers α p q :=
      ⟨w.multipliers.stages.map fun s => ⟨Vec.left s.lam, Vec.const p o.penaltyInitial⟩,
        ⟨w.multipliers.terminal.lam, Vec.const q o.penaltyInitial⟩⟩
    let start := Workspace.ofPath problem (problem.rollout (w.path.controls.map Vec.left))
      multipliers (Workspace.noGains problem)
    (solve problem o guess history).outcome =
      (Outer.solve problem o start infeasible.history .feasible).outcome.map
        (fun feasible => ⟨infeasible, feasible⟩) ∧
    (∀ x u w j (hj : j < p),
      ((problem.withSlack o.slackWeight).stageConstraints.value x (Vec.append u w))[j] =
          (problem.stageConstraints.value x u)[j] ∧
        (problem.withSlack o.slackWeight).stageConstraints.isEquality[j] =
          problem.stageConstraints.isEquality[j]) ∧
    (problem.withSlack o.slackWeight).terminalConstraints = problem.terminalConstraints ∧
    (infeasible.status = .solved →
      ∀ s ∈ w.path.slackParts, ∀ i (hi : i < n), Scalar.abs s[i] < o.epsConstraint) := by
  intro w multipliers start
  have hstart : dropSlack problem o w = start := by
    simp [dropSlack, Workspace.start, start, multipliers, Function.comp_def]
  refine ⟨?_, fun x u v j hj => problem.getElem_withSlack _ x u v hj, rfl, fun hsolved => ?_⟩
  · rw [← hstart]
    simp only [solve, Run.outcome_bind, h, ok_bind, Run.outcome_reportIf]
    cases (Outer.solve problem o (dropSlack problem o w) infeasible.history .feasible).outcome <;>
      rfl
  · obtain ⟨v, x, hround, hends, hworkspace, -⟩ := Outer.exists_round_of_solved h hsolved
    obtain ⟨inner, -, rfl⟩ := Outer.round_eq_ok.1 hround
    have hw : w = _ := hworkspace
    rw [hw]
    exact slack_lt_of_violation (Outer.meets_eq_true.1 hends).1

end Infeasible

namespace PointMass

/-- A guess that leaves the origin although nothing moves the point mass. -/
def pathGuess : Path Float 2 1 := ⟨[⟨Vec.zero 2, Vec.zero 1⟩], #v[0.5, 0]⟩

/-- The slacks of the guess are driven out, and the point mass goes on without them. -/
theorem handOver_of_guess : ∃ infeasible start,
    (Outer.solve (solver.bound.problem.withSlack (Options.slackWeight .standard)) .standard
      (Infeasible.startWithSlack solver.bound.problem .standard pathGuess) (.empty 100 true)
      .infeasible).outcome = .ok infeasible ∧
    infeasible.status = .solved ∧
    (Infeasible.solve solver.bound.problem .standard pathGuess (.empty 100 true)).outcome =
      (Outer.solve solver.bound.problem .standard start infeasible.history .feasible).outcome.map
        (fun feasible => ⟨infeasible, feasible⟩) ∧
    start.path = solver.bound.problem.rollout (infeasible.workspace.path.controls.map Vec.left) ∧
    ∀ s ∈ infeasible.workspace.path.slackParts, ∀ i (hi : i < 2),
      Scalar.abs s[i] < (Options.standard : Options Float).epsConstraint := by
  have hrun : (Outer.solve (solver.bound.problem.withSlack (Options.slackWeight .standard))
      .standard (Infeasible.startWithSlack solver.bound.problem .standard pathGuess)
      (.empty 100 true) .infeasible).outcome.toOption.any
      (fun r => decide (r.status = .solved)) = true := by
    decide +kernel
  obtain ⟨infeasible, hinfeasible, hstatus⟩ := exists_ok_of_any hrun
  have hsolved := of_decide_eq_true hstatus
  obtain ⟨hfeasible, -, -, hslack⟩ := Infeasible.handOver_of_solve hinfeasible
  exact ⟨infeasible, _, hinfeasible, hsolved, hfeasible, rfl, hslack hsolved⟩

end PointMass

end TrajOpt
