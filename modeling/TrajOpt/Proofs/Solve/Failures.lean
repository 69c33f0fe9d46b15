import TrajOpt.Proofs.Descent.Moves
import TrajOpt.Proofs.Solve.Coherence
import TrajOpt.Proofs.Solve.Stages

/-!
# How a solve fails

A solve from arrays that fit, of a problem whose functions raise nothing, can fail in two ways only.
Either one of its searches for the regularization takes more passes than are followed, or a budget
was not given as an integer. The history has room for every round, so it is never full.

The numbers among the options are doubles. A number that is given as an integer stays one while the
regularization and the penalties grow, and may leave the range of the doubles there; such options
are not a `Solver.Setup`.

## Main definitions

* `Solver.Setup` - what a solver is built from.

## Main statements

* `Outer.interrupts_of_solve` - how the outer loop fails.
* `Solver.interrupts_of_solve`, `Solver.status_of_solve` - how a solve fails, and how it ends if it
  does not.
* `Solver.outcome_of_fits` - both in one.
* `Solver.Setup.outcome_of_create` - the same for every solver that is built.
* `PointMass.notCountable_of_doubleTrials` - options that are accepted and cannot be counted with.
-/

namespace TrajOpt

variable {α : Type} [Scalar α] {n m p q : Nat}

namespace Outer

variable {problem : StageProblem α n m p q} {o : Options α} {w : Workspace α n m p q}
  {history : History (Snapshot α)} {stage : Stage} {r : Result α n m p q} {e : Error α}

theorem interrupts_of_round (h : round problem o w = .error e) : o.Interrupts e := by
  rw [round, map_eq_error] at h
  exact Descent.interrupts_of_solve h

/-- Where the history has room for the whole budget, a loop only fails with one of its rounds. -/
theorem interrupts_of_loop {entries : List (Snapshot α)} {left done : Nat}
    {s : Iterate α n m p q} (hs : s.history = history.extend stage entries)
    (hroom : history.HasRoom stage (entries.length + left))
    (h : (loop problem o stage left done s).outcome = .error e) : o.Interrupts e := by
  -- The history has the rounds so far, so its entries vary with what is left of the budget.
  induction left generalizing done s entries with
  | zero => cases h
  | succ left ih =>
    rw [outcome_loop_of_room hs (hroom.mono (by omega)), bind_eq_error] at h
    obtain hround | ⟨x, -, h⟩ := h
    · exact interrupts_of_round hround
    · dsimp only at h
      split at h
      · cases h
      · refine ih rfl (hroom.mono ?_) h
        simp only [List.length_append, List.length_singleton]
        omega

theorem interrupts_of_solve (hroom : history.HasRoom stage (o.budgetNat .outer))
    (h : (solve problem o w history stage).outcome = .error e) : o.Interrupts e := by
  rw [solve, Run.outcome_bind_eq_error] at h
  obtain hcounted | ⟨budget, hcounted, h⟩ := h
  · obtain ⟨rfl, hint⟩ := Options.counted_eq_error hcounted
    exact .inl hint
  · obtain rfl := Options.eq_budgetNat_of_counted hcounted
    have hstart : history = history.extend stage [] := rfl
    exact interrupts_of_loop hstart (by simpa using hroom) h

theorem interrupts_of_solveUnconstrained (hroom : history.HasRoom .unconstrained 1)
    (h : (solveUnconstrained problem o w history).outcome = .error e) : o.Interrupts e := by
  rw [outcome_solveUnconstrained hroom, map_eq_error] at h
  exact interrupts_of_round h

theorem status_of_solve (h : (solve problem o w history stage).outcome = .ok r) :
    r.status ≠ .unknown := by
  obtain ⟨-, -, hstatus | hstatus⟩ := counts_of_solve h <;> simp [hstatus]

theorem status_of_solveUnconstrained
    (h : (solveUnconstrained problem o w history).outcome = .ok r) : r.status ≠ .unknown := by
  simp only [solveUnconstrained, Run.outcome_bind_eq_ok] at h
  obtain ⟨inner, hinner, history', -, -, -, h⟩ := h
  cases h
  exact Descent.status_of_solve hinner

end Outer

namespace Solver

variable {s : Solver α n m} {guess : List (Tensor α)} {e : Error α} {sol : Solution α n m}

theorem interrupts_of_solveFromControls {us : List (Vec α m)}
    (h : (s.solveFromControls us).outcome = .error e) : s.options.Interrupts e := by
  rw [outcome_solveFromControls, map_eq_error] at h
  split at h
  · exact Outer.interrupts_of_solve (hasRoom_historyFor (by simp)) h
  · exact Outer.interrupts_of_solveUnconstrained hasRoom_single h

theorem interrupts_of_solveFromPath {path : Path α n m}
    (h : (s.solveFromPath path).outcome = .error e) : s.options.Interrupts e := by
  rw [outcome_solveFromPath, bind_eq_error] at h
  obtain hinfeasible | ⟨infeasible, hinfeasible, h⟩ := h
  · exact Outer.interrupts_of_solve (hasRoom_historyFor (by omega)) hinfeasible
  · rw [map_eq_error] at h
    exact Outer.interrupts_of_solve (hasRoom_of_infeasible hinfeasible) h

/-- A solve that has read its guess fails only by counting as endless, or with a budget that it
cannot count with. -/
theorem interrupts_of_solve {g : Guess α n m} (hread : s.read guess = .ok g)
    (h : (s.solve guess).outcome = .error e) : s.options.Interrupts e := by
  rw [outcome_solve, hread] at h
  cases g with
  | controls us => exact interrupts_of_solveFromControls h
  | path path => exact interrupts_of_solveFromPath h

/-- A solve that returns tells how it ended. -/
theorem status_of_solve (h : (s.solve guess).outcome = .ok sol) : sol.status ≠ .unknown := by
  obtain ⟨w, history, r, -, ⟨outer, inner, rfl⟩, hr | ⟨-, hr⟩⟩ := endsWith_of_solve h
  · exact Outer.status_of_solve hr
  · exact Outer.status_of_solveUnconstrained hr

/-- Every solve from arrays that fit, of a problem whose functions raise nothing, returns a solution
that tells how the solve ended, or searches for the regularization in more passes than are followed,
or has a budget of a loop that counts which was not given as an integer. -/
theorem outcome_of_fits (hquiet : s.bound.fault? = none) (hguess : s.Fits guess) :
    (∃ sol, (s.solve guess).outcome = .ok sol ∧ sol.status ≠ .unknown) ∨
      (s.solve guess).outcome = .error .endless ∨
      (∃ e, (s.solve guess).outcome = .error e) ∧
        ((s.options.budget .outer).int? = none ∨ (s.options.budget .lineSearch).int? = none) := by
  cases h : (s.solve guess).outcome with
  | ok sol => exact .inl ⟨sol, rfl, status_of_solve h⟩
  | error e =>
    cases hbudget : (s.options.budget .outer).int? with
    | none => exact .inr (.inr ⟨⟨e, rfl⟩, .inl rfl⟩)
    | some k =>
      obtain ⟨g, hread⟩ := exists_read hguess hquiet hbudget
      have hinterrupts := interrupts_of_solve hread h
      cases e with
      | endless => exact .inr (.inl rfl)
      | notCountable =>
        rw [Options.Interrupts, hbudget] at hinterrupts
        exact .inr (.inr ⟨⟨_, rfl⟩, hinterrupts⟩)
      | _ => exact hinterrupts.elim

end Solver

/-- The rows make matrices of a step with `n` states and `m` controls. -/
structure StepJacobians.Fits (j : StepJacobians α) (n m : Nat) : Prop where
  length_state : j.state.length = n
  length_row_state : ∀ row ∈ j.state, row.length = n
  length_control : j.control.length = n
  length_row_control : ∀ row ∈ j.control, row.length = m

namespace Solver

/-- What a solver is built from: a model whose derivatives, if they are supplied, are matrices, an
objective, a time grid, and options that are accepted and whose numbers are doubles. The budgets are
given in any way. -/
structure Setup (n m : Nat) where
  model : Model Float n m
  jacobian_fits : ∀ j ∈ model.jacobian, j.Fits n m
  objective : Sized (Objective Float)
  dt : Numeral
  intervals : Option Numeral
  options : Options Float
  accepted : (options.map Numeral.double).check = .ok ()

namespace Setup

/-- The solver that is built. -/
def create (setup : Setup n m) : Except (Error Numeral) (Solver Float n m × Options Numeral) :=
  Solver.create setup.model setup.objective setup.dt setup.intervals
    (setup.options.map Numeral.double) []

variable {setup : Setup n m} {s : Solver Float n m} {used : Options Numeral}
  {guess : List (Tensor Float)}

/-- A solver works with the options that it was built with. -/
theorem options_of_create (h : setup.create = .ok (s, used)) : s.options = setup.options := by
  obtain ⟨hsettings, -, hs, -⟩ := create_eq_ok (Options.check_eq_ok_iff.1 setup.accepted) h
  cases hsettings
  rw [hs]
  rfl

/-- Every solver that is built, of a problem whose functions raise nothing, returns a solution that
tells how the solve ended from every guess that fits, or searches for the regularization in more
passes than are followed. The only exceptions are options in which the budget of the outer loop or
that of the line search is not given as an integer. -/
theorem outcome_of_create (hcreate : setup.create = .ok (s, used))
    (hquiet : s.bound.fault? = none) (hguess : s.Fits guess) :
    (∃ sol, (s.solve guess).outcome = .ok sol ∧ sol.status ≠ .unknown) ∨
      (s.solve guess).outcome = .error .endless ∨
      (∃ e, (s.solve guess).outcome = .error e) ∧
        ((setup.options.budget .outer).int? = none ∨
          (setup.options.budget .lineSearch).int? = none) := by
  rw [← options_of_create hcreate]
  exact outcome_of_fits hquiet hguess

end Setup

end Solver

namespace PointMass

/-- What the solver of the point mass is built from, with the default options. -/
def setup : Solver.Setup 2 1 where
  model := model
  jacobian_fits j hj := by
    cases hj
    exact ⟨rfl, by decide, rfl, by decide⟩
  objective := ⟨2, 1, .constrained cost constraints⟩
  dt := .double 1
  intervals := some (.int 1)
  options := .standard
  accepted := by
    have hrun : (Options.standard.map Numeral.double).check.toOption.any (fun _ => true) =
        true := by
      decide +kernel
    obtain ⟨⟨⟩, hcheck, -⟩ := exists_ok_of_any hrun
    exact hcheck

/-- The solver of the point mass solves its problem. -/
theorem status_of_setup : ∃ s used, setup.create = .ok (s, used) ∧ s.bound.fault? = none ∧
    s.Fits guess ∧ ∃ sol, (s.solve guess).outcome = .ok sol ∧ sol.status ≠ .unknown := by
  have hrun : setup.create.toOption.any (fun created => created.1.bound.fault?.isNone &&
      (Tensor.toMat? ⟨[1, 1], [(0.5 : Float)]⟩ created.1.horizon 1).isSome &&
        (errorOf? (created.1.solve guess).outcome).isNone) = true := by decide +kernel
  obtain ⟨⟨s, used⟩, hcreate, hrun⟩ := exists_ok_of_any hrun
  simp only [Bool.and_eq_true, Option.isNone_iff_eq_none] at hrun
  obtain ⟨⟨hquiet, hguess⟩, hreturns⟩ := hrun
  have hfits : s.Fits guess := hguess
  refine ⟨s, used, hcreate, hquiet, hfits, ?_⟩
  obtain h | h | ⟨⟨e, h⟩, -⟩ := Solver.Setup.outcome_of_create hcreate hquiet hfits
  · exact h
  · rw [h] at hreturns
    cases hreturns
  · rw [h] at hreturns
    cases hreturns

/-- A number of trials that is a double is accepted, a solver is built with it, and its solve does
not get past the first line search. -/
theorem notCountable_of_doubleTrials : ∃ (options used : Options Numeral) (s : Solver Float 2 1),
    Options.create [("iterations_linesearch", .double 20)] = .ok options ∧
    Solver.create model ⟨2, 1, .constrained cost constraints⟩ (.double 1) (some (.int 1)) options
      [] = .ok (s, used) ∧
    s.bound.fault? = none ∧ s.Fits guess ∧
      (s.solve guess).outcome = .error .notCountable := by
  have hrun : (Options.create [("iterations_linesearch", .double 20)]).toOption.any
      (fun options => (Solver.create model ⟨2, 1, .constrained cost constraints⟩ (.double 1)
        (some (.int 1)) options []).toOption.any fun created =>
          (created.1.options.budget .outer).int? == some 50 && created.1.bound.fault?.isNone &&
            (Tensor.toMat? ⟨[1, 1], [(0.5 : Float)]⟩ created.1.horizon 1).isSome &&
              (errorOf? (created.1.solve guess).outcome).any fun e =>
                decide (e.kind = .type)) = true := by decide +kernel
  obtain ⟨options, hoptions, hrun⟩ := exists_ok_of_any hrun
  obtain ⟨⟨s, used⟩, hcreate, hrun⟩ := exists_ok_of_any hrun
  simp only [Bool.and_eq_true, Option.isNone_iff_eq_none, beq_iff_eq] at hrun
  obtain ⟨⟨⟨hbudget, hquiet⟩, hguess⟩, hrun⟩ := hrun
  obtain ⟨e, he, hkind⟩ := exists_error_of_any hrun
  have hfits : s.Fits guess := hguess
  obtain ⟨g, hread⟩ := Solver.exists_read hfits hquiet hbudget
  refine ⟨options, used, s, hoptions, hcreate, hquiet, hfits, ?_⟩
  -- Of the errors that end a solve, only this one is about a type.
  have hinterrupts := Solver.interrupts_of_solve hread he
  cases e with
  | notCountable => exact he
  | endless => simp [Error.kind] at hkind
  | _ => exact hinterrupts.elim

end PointMass

end TrajOpt
