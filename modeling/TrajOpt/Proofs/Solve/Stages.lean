import TrajOpt.Proofs.Path
import TrajOpt.Proofs.Solve.Rounds
import TrajOpt.Solver

/-!
# Stages of a solve

The arrays of a guess are read first. A solve from controls has one stage; a solve from a guess of
states and controls has two, and the second one goes on from the workspace and the history of the
first. The history is as long as the budgets of the stages together.

## Main definitions

* `Solver.Guess`, `Solver.guessOf` - what the arrays of a guess stand for.
* `Solver.read` - the same if a solve can start from it.
* `Solver.Guess.stages` - the stages of a solve from it.
* `Solver.Fits` - arrays of the shapes that a solver starts from.

## Main statements

* `Solver.outcome_solve` - a solve reads its guess and solves from it.
* `Solver.outcome_solveFromControls`, `Solver.outcome_solveFromPath` - the stages of a solve.
* `Solver.hasRoom_historyFor`, `Solver.hasRoom_of_infeasible` - the history has room for each stage.
-/

namespace TrajOpt

namespace Solver

variable {α : Type} {n m k l p q : Nat} {s : Solver α n m}

/-- What the arrays of a guess stand for. -/
inductive Guess (α : Type) (n m : Nat) where
  | controls (us : List (Vec α m))
  | path (path : Path α n m)

/-- The stages of a solve from the guess. -/
def Guess.stages (constrained : Bool) : Guess α n m → List Stage
  | controls _ => if constrained then [.feasible] else [.unconstrained]
  | path _ => [.infeasible, .feasible]

/-- The guess that arrays stand for. -/
def guessOf (s : Solver α n m) (guess : List (Tensor α)) : Except (Error α) (Guess α n m) :=
  match guess with
  | [us] => (s.controlsOf us).map .controls
  | [xs, us] => do
    let xs ← s.statesOf xs
    let us ← s.controlsOf us
    match Path.ofLists? xs us with
    | some path => .ok (.path path)
    | none => .error .unusableArguments
  | _ => .error (.guessCount guess.length)

/-- What is found out before the first stage: the history has to have a size, and the problem can be
evaluated. -/
def ready (s : Solver α n m) : Guess α n m → Except (Error α) Unit
  | .controls _ => s.evaluable
  | .path _ => do
    s.recordable
    s.evaluable

/-- The guess that arrays stand for, if a solve can start from it. -/
def read (s : Solver α n m) (guess : List (Tensor α)) : Except (Error α) (Guess α n m) := do
  let g ← s.guessOf guess
  (s.ready g).map fun _ => g

theorem read_eq_ok {guess : List (Tensor α)} {g : Guess α n m} :
    s.read guess = .ok g ↔ s.guessOf guess = .ok g ∧ s.ready g = .ok () := by
  constructor
  · intro h
    obtain ⟨g', hg, h⟩ := bind_eq_ok.1 h
    obtain ⟨⟨⟩, hready, rfl⟩ := map_eq_ok.1 h
    exact ⟨hg, hready⟩
  · rintro ⟨hg, hready⟩
    exact bind_eq_ok.2 ⟨g, hg, map_eq_ok.2 ⟨(), hready, rfl⟩⟩

theorem evaluable_eq_ok {ν : Type} (h : s.bound.fault? = none) :
    (s.evaluable : Except (Error ν) Unit) = .ok () := by
  rw [evaluable, h]

/-- An integer as a budget can be doubled. -/
theorem recordable_eq_ok {ν : Type} {k : Int} (h : (s.options.budget .outer).int? = some k) :
    (s.recordable : Except (Error ν) Unit) = .ok () := by
  have hdouble : Numeral.int 2 * s.options.iterationsOuter = .int (2 * k) := by
    show Numeral.combine _ _ _ _ = _
    rw [Numeral.combine, show s.options.iterationsOuter.int? = some k from h]
    rfl
  rw [recordable, hdouble]
  rfl

theorem ready_eq_ok {k : Int} (hbudget : (s.options.budget .outer).int? = some k)
    (hfault : s.bound.fault? = none) : ∀ g : Guess α n m, s.ready g = .ok ()
  | .controls _ => evaluable_eq_ok hfault
  | .path _ => by rw [ready, recordable_eq_ok hbudget, ok_bind, evaluable_eq_ok hfault]

/-- One array stands for controls, and two for states and controls. -/
theorem stages_of_read {guess : List (Tensor α)} {g : Guess α n m} (h : s.read guess = .ok g)
    (constrained : Bool) :
    g.stages constrained = if guess.length = 2 then [.infeasible, .feasible]
      else if constrained then [.feasible] else [.unconstrained] := by
  obtain ⟨h, -⟩ := read_eq_ok.1 h
  unfold guessOf at h
  split at h
  · obtain ⟨us, -, rfl⟩ := map_eq_ok.1 h
    rfl
  · obtain ⟨xs, -, h⟩ := bind_eq_ok.1 h
    obtain ⟨us, -, h⟩ := bind_eq_ok.1 h
    split at h
    · cases h
      rfl
    · cases h
  · cases h

theorem guessOf_ne_logFull {guess : List (Tensor α)} {capacity : Int} :
    s.guessOf guess ≠ .error (.logFull capacity) := by
  unfold guessOf controlsOf statesOf
  split
  · split <;> simp [Except.map]
  · split
    · split
      · simp only [ok_bind]
        split <;> simp
      · exact nofun
    · exact nofun
  · exact nofun

theorem ready_ne_logFull {g : Guess α n m} {capacity : Int} :
    s.ready g ≠ .error (.logFull capacity) := by
  have hevaluable : (s.evaluable : Except (Error α) Unit) ≠ .error (.logFull capacity) := by
    unfold evaluable
    split <;> simp
  cases g with
  | controls us => exact hevaluable
  | path path =>
    intro h
    obtain h | ⟨-, -, h⟩ := bind_eq_error.1 h
    · unfold recordable at h
      split at h <;> cases h
    · exact hevaluable h

/-- No history takes part in reading. -/
theorem read_ne_logFull {guess : List (Tensor α)} {capacity : Int} :
    s.read guess ≠ .error (.logFull capacity) := by
  intro h
  obtain h | ⟨g, -, h⟩ := bind_eq_error.1 h
  · exact guessOf_ne_logFull h
  · exact ready_ne_logFull (map_eq_error.1 h)

/-- The arrays have the shapes that the solver starts from: controls for each interval, or states
and controls. -/
def Fits (s : Solver α n m) : List (Tensor α) → Prop
  | [us] => (us.toMat? s.horizon m).isSome
  | [xs, us] => (xs.toMat? (s.horizon + 1) n).isSome ∧ (us.toMat? s.horizon m).isSome
  | _ => False

theorem exists_guessOf {guess : List (Tensor α)} (h : s.Fits guess) :
    ∃ g, s.guessOf guess = .ok g := by
  unfold Fits at h
  split at h
  · obtain ⟨rows, hrows⟩ := Option.isSome_iff_exists.1 h
    exact ⟨_, by simp [guessOf, controlsOf, hrows, Except.map]; rfl⟩
  · obtain ⟨hxs, hus⟩ := h
    obtain ⟨rows, hrows⟩ := Option.isSome_iff_exists.1 hxs
    obtain ⟨rows', hrows'⟩ := Option.isSome_iff_exists.1 hus
    obtain ⟨path, hpath⟩ := Path.exists_ofLists? (show rows.toList.length = rows'.toList.length + 1
      by simp)
    exact ⟨.path path, by simp [guessOf, statesOf, controlsOf, hrows, hrows', hpath]⟩
  · exact h.elim

/-- Arrays that fit are read where the problem can be evaluated and the budget of the outer loop is
an integer. -/
theorem exists_read {guess : List (Tensor α)} {k : Int} (h : s.Fits guess)
    (hfault : s.bound.fault? = none) (hbudget : (s.options.budget .outer).int? = some k) :
    ∃ g, s.read guess = .ok g := by
  obtain ⟨g, hg⟩ := exists_guessOf h
  exact ⟨g, read_eq_ok.2 ⟨hg, ready_eq_ok hbudget hfault g⟩⟩

variable [Scalar α]

theorem outcome_solve : ∀ guess : List (Tensor α),
    (s.solve guess).outcome = s.read guess >>= fun
      | .controls us => (s.solveFromControls us).outcome
      | .path path => (s.solveFromPath path).outcome
  | [] => rfl
  | [us] => by
    simp only [solve, read, guessOf, ready, Run.outcome_bind, Run.outcome_ofExcept]
    cases (s.controlsOf us : Except (Error α) _) with
    | error e => rfl
    | ok us => cases (s.evaluable : Except (Error α) _) <;> rfl
  | [xs, us] => by
    simp only [solve, read, guessOf, ready, Run.outcome_bind, Run.outcome_ofExcept]
    cases (s.statesOf xs : Except (Error α) _) with
    | error e => rfl
    | ok xs =>
      cases (s.controlsOf us : Except (Error α) _) with
      | error e => rfl
      | ok us =>
        simp only [ok_bind]
        cases Path.ofLists? xs us with
        | none => rfl
        | some path =>
          simp only [Run.outcome_bind, Run.outcome_ofExcept]
          cases (s.recordable : Except (Error α) _) with
          | error e => rfl
          | ok _ => cases (s.evaluable : Except (Error α) _) <;> rfl
  | _ :: _ :: _ :: _ => rfl

/-- Where a solve from controls starts. -/
def start (s : Solver α n m) (us : List (Vec α m)) : Workspace α n m s.bound.p s.bound.q :=
  .start s.bound.problem us s.options.penaltyInitial none none

/-- A solve from controls has one stage. -/
theorem outcome_solveFromControls (us : List (Vec α m)) :
    (s.solveFromControls us).outcome =
      (if s.bound.constrained then
        Outer.solve s.bound.problem s.options (s.start us) (s.historyFor 1) .feasible
      else
        Outer.solveUnconstrained s.bound.problem s.options (s.start us)
          (.empty 1 s.options.cache.isTrue)).outcome.map fun r =>
        .ofResult s.bound.problem.dt r [r.iterations] [r.innerIterations] := by
  unfold solveFromControls start
  dsimp only
  cases s.bound.constrained <;> exact Run.outcome_bind_pure _ _

/-- A solve from states and controls has two stages. -/
theorem outcome_solveFromPath (guess : Path α n m) :
    (s.solveFromPath guess).outcome =
      (Outer.solve (s.bound.problem.withSlack s.options.slackWeight) s.options
        (Infeasible.startWithSlack s.bound.problem s.options guess) (s.historyFor 2)
        .infeasible).outcome >>= fun infeasible =>
      (Outer.solve s.bound.problem s.options
        (Infeasible.dropSlack s.bound.problem s.options infeasible.workspace) infeasible.history
        .feasible).outcome.map fun feasible =>
      .ofResult s.bound.problem.dt feasible [infeasible.iterations, feasible.iterations]
        [infeasible.innerIterations, feasible.innerIterations] := by
  rw [solveFromPath, Run.outcome_bind_pure, Infeasible.solve]
  simp only [Run.outcome_bind, Run.outcome_reportIf, ok_bind]
  cases (Outer.solve (s.bound.problem.withSlack s.options.slackWeight) s.options
    (Infeasible.startWithSlack s.bound.problem s.options guess) (s.historyFor 2)
    .infeasible).outcome with
  | error e => rfl
  | ok infeasible =>
    simp only [ok_bind]
    cases (Outer.solve s.bound.problem s.options
      (Infeasible.dropSlack s.bound.problem s.options infeasible.workspace) infeasible.history
      .feasible).outcome <;> rfl

section Room

omit [Scalar α] in
/-- The history of a solve has room for the budgets of its stages. -/
theorem hasRoom_historyFor {stages count : Nat} {stage : Stage}
    (hle : count ≤ stages * s.options.budgetNat .outer) :
    (s.historyFor stages).HasRoom stage count := by
  refine History.hasRoom_of_length ?_
  simp only [historyFor, History.empty, List.length_nil]
  exact_mod_cast (Nat.zero_add count).symm ▸ hle

omit [Scalar α] in
theorem hasRoom_single : (History.empty 1 s.options.cache.isTrue :
    History (Snapshot α)).HasRoom .unconstrained 1 :=
  History.hasRoom_of_length (by simp [History.empty])

/-- The first of two stages leaves room for the second one. -/
theorem hasRoom_of_infeasible {problem : StageProblem α n m p q} {w : Workspace α n m p q}
    {r : Outer.Result α n m p q} {stage next : Stage} {s : Solver α k l}
    (h : (Outer.solve problem s.options w (s.historyFor 2) stage).outcome = .ok r) :
    r.history.HasRoom next (s.options.budgetNat .outer) := by
  rw [Outer.history_of_solve h]
  refine History.hasRoom_of_length ?_
  have hentries : ((s.historyFor 2).extend stage
      ((Outer.solveRounds problem s.options w).map Outer.Round.snapshot)).entries.length ≤ _ :=
    History.length_entries_extend_le
  have hrounds : (Outer.solveRounds problem s.options w).length ≤ s.options.budgetNat .outer :=
    Outer.length_solveRounds_le
  rw [History.capacity_extend]
  simp only [historyFor, History.empty, List.length_nil, List.length_map] at *
  omega

end Room

end Solver

end TrajOpt
