import TrajOpt.Proofs.Solve.Failures

/-!
# What a solution records

A solve without constraints makes one round, and every other stage makes at least one and at most as
many as its budget allows. A history that keeps everything has a snapshot of each of them, stage by
stage; any other history has the last snapshot of each stage. The counts of the summary are those of
the rounds, kept or not, and the last snapshot shows the path that the solve returns.

## Main definitions

* `Solver.Makes` - the snapshots that the stages of a solve make.
* `Solution.Records` - what a solution says about them.

## Main statements

* `Outer.records_of_solve`, `Outer.records_of_solveUnconstrained` - what a stage returns of its
  rounds.
* `Solver.solve_records` - what a solve returns of its stages.
-/

namespace TrajOpt

variable {α : Type} {n m p q : Nat}

/-- The snapshot is one of the path, with its cost and its violation. -/
structure Snapshot.Shows (e : Snapshot α) (path : Path α n m) (cost violation : α) : Prop where
  states : e.states = path.states.map Vector.toList
  controls : e.controls = path.controls.map Vector.toList
  cost : e.cost = cost
  violation : e.violation = violation

/-- A stage with the snapshots of its rounds. -/
abbrev StageRecord (α : Type) := Stage × List (Snapshot α)

/-- What a history keeps of a stage: all snapshots or the last one. -/
def StageRecord.kept (cache : Bool) (x : StageRecord α) : List (Stage × Snapshot α) :=
  (if cache then x.2 else x.2.getLast?.toList).map (Prod.mk x.1)

/-- What a solution says about the snapshots that its stages made: the history has what is kept of
them, the summary counts all of them, and the last one shows the path of the solution. -/
structure Solution.Records (sol : Solution α n m) (cache : Bool) (made : List (StageRecord α))
    (history : History (Snapshot α)) (summary : Summary α) : Prop where
  history_eq : sol.history = some history
  summary_eq : sol.summary = some summary
  entries : history.entries = made.flatMap (StageRecord.kept cache)
  outerIterations : summary.outerIterations = made.map fun x => x.2.length
  innerIterations : summary.innerIterations = (made.map fun x => (x.2.map Snapshot.inner).sum).sum
  last : ∃ stage e, history.entries.getLast? = some (stage, e) ∧
    e.Shows sol.path sol.cost sol.violation

theorem StageRecord.getLast?_kept (cache : Bool) (x : StageRecord α) :
    (x.kept cache).getLast? = x.2.getLast?.map (Prod.mk x.1) := by
  obtain ⟨stage, made⟩ := x
  cases made using List.reverseRecOn <;> cases cache <;> simp [kept]

/-- Where everything is kept, the inner iterations are those of all entries. -/
theorem Solution.Records.innerIterations_eq {sol : Solution α n m} {made : List (StageRecord α)}
    {history : History (Snapshot α)} {summary : Summary α}
    (h : sol.Records true made history summary) :
    summary.innerIterations = (history.entries.map fun x => x.2.inner).sum := by
  have hsum : ∀ made : List (StageRecord α), (made.map fun x => (x.2.map Snapshot.inner).sum).sum =
      ((made.flatMap (StageRecord.kept true)).map fun x => x.2.inner).sum := by
    intro made
    induction made with
    | nil => rfl
    | cons x made ih => simp [StageRecord.kept, ih, Function.comp_def]
  rw [h.innerIterations, h.entries, hsum]

variable [Scalar α]

namespace Outer

variable {problem : StageProblem α n m p q} {o : Options α} {w : Workspace α n m p q}
  {history : History (Snapshot α)} {stage : Stage} {r : Result α n m p q}

/-- The snapshots of all rounds of a stage. -/
def stageRecord (problem : StageProblem α n m p q) (o : Options α) (w : Workspace α n m p q)
    (stage : Stage) : StageRecord α :=
  (stage, (solveRounds problem o w).map Round.snapshot)

/-- A result counts the snapshots of its stage and the inner iterations in them, and the last one
shows the path that it returns. -/
structure Result.Records (r : Result α n m p q) (made : List (Snapshot α)) : Prop where
  iterations : r.iterations = made.length
  innerIterations : r.innerIterations = (made.map Snapshot.inner).sum
  last : ∃ e, made.getLast? = some e ∧
    e.Shows r.workspace.path r.workspace.cost r.workspace.violation

omit [Scalar α] in
theorem Result.Records.ne_nil {made : List (Snapshot α)} (h : r.Records made) : made ≠ [] := by
  rintro rfl
  obtain ⟨e, he, -⟩ := h.last
  cases he

theorem records_of_solve (hbudget : 0 < o.budgetNat .outer)
    (h : (solve problem o w history stage).outcome = .ok r) :
    r.Records (stageRecord problem o w stage).2 := by
  obtain ⟨hiterations, hinner, -⟩ := counts_of_solve h
  refine ⟨hiterations.trans (List.length_map _).symm, ?_, ?_⟩
  · rw [hinner, stageRecord, List.map_map]
    rfl
  · obtain ⟨x, hx⟩ := Option.ne_none_iff_exists'.1
      (mt List.getLast?_eq_none_iff.1 (solveRounds_ne_nil hbudget h))
    obtain ⟨hpath, hcost, hviolation⟩ := workspace_of_solve h hx
    refine ⟨x.snapshot, by simp [stageRecord, hx], ?_⟩
    rw [hpath, hcost, hviolation]
    exact ⟨rfl, rfl, rfl, rfl⟩

/-- A history keeps of a new stage what it keeps of its snapshots. -/
theorem entries_of_solve (hstage : stage ∉ history.stages)
    (h : (solve problem o w history stage).outcome = .ok r) :
    r.history.entries =
      history.entries ++ (stageRecord problem o w stage).kept history.keepsAll := by
  rw [history_of_solve h, History.entries_extend_of_notMem hstage]
  rfl

theorem records_of_solveUnconstrained (hroom : history.HasRoom .unconstrained 1)
    (h : (solveUnconstrained problem o w history).outcome = .ok r) :
    ∃ x, round problem o w = .ok x ∧ r.Records [x.snapshot] ∧
      r.history = history.extend .unconstrained [x.snapshot] := by
  rw [outcome_solveUnconstrained hroom, map_eq_ok] at h
  obtain ⟨x, hround, rfl⟩ := h
  have hinner : x.inner.iterations = ([x.snapshot].map Snapshot.inner).sum := by
    simp [Round.snapshot, Workspace.snapshot]
  exact ⟨x, hround, ⟨rfl, hinner, _, rfl, rfl, rfl, rfl, rfl⟩, rfl⟩

end Outer

namespace Solver

variable {s : Solver α n m}

/-- The snapshots that the stages of a solve make, whether they are kept or not. -/
inductive Makes (s : Solver α n m) : Guess α n m → List (StageRecord α) → Prop
  | unconstrained {us : List (Vec α m)} {x : Outer.Round α n m s.bound.p s.bound.q}
      (hconstrained : s.bound.constrained = false)
      (hround : Outer.round s.bound.problem s.options (s.start us) = .ok x) :
      s.Makes (.controls us) [(.unconstrained, [x.snapshot])]
  | feasible {us : List (Vec α m)} (hconstrained : s.bound.constrained = true) :
      s.Makes (.controls us)
        [Outer.stageRecord s.bound.problem s.options (s.start us) .feasible]
  | infeasible {path : Path α n m} {r : Outer.Result α n (m + n) (s.bound.p + n) s.bound.q}
      (hinfeasible : (Outer.solve (s.bound.problem.withSlack s.options.slackWeight) s.options
        (Infeasible.startWithSlack s.bound.problem s.options path) (s.historyFor 2)
        .infeasible).outcome = .ok r) :
      s.Makes (.path path)
        [Outer.stageRecord (s.bound.problem.withSlack s.options.slackWeight) s.options
          (Infeasible.startWithSlack s.bound.problem s.options path) .infeasible,
        Outer.stageRecord s.bound.problem s.options
          (Infeasible.dropSlack s.bound.problem s.options r.workspace) .feasible]

/-- A solution records what its stages made if its last stage does, and if the history and the
counts have the stages before. -/
theorem records_ofResult {r : Outer.Result α n m p q} {dt : α} {cache : Bool}
    (before : List (StageRecord α)) {last : StageRecord α} {outer inner : List Nat}
    (hr : r.Records last.2)
    (hentries : r.history.entries = (before ++ [last]).flatMap (StageRecord.kept cache))
    (houter : outer = before.map fun x => x.2.length)
    (hinner : inner = before.map fun x => (x.2.map Snapshot.inner).sum) :
    ∃ summary, (Solution.ofResult dt r (outer ++ [r.iterations])
      (inner ++ [r.innerIterations])).Records cache (before ++ [last]) r.history summary := by
  obtain ⟨e, hlast, hshows⟩ := hr.last
  refine ⟨_, rfl, rfl, hentries, ?_, ?_, last.1, e, ?_, hshows⟩
  · simp [houter, hr.iterations]
  · rw [← List.sum_eq_foldl]
    simp [hinner, hr.innerIterations]
  · rw [hentries, List.flatMap_append, List.flatMap_singleton, List.getLast?_append,
      StageRecord.getLast?_kept, hlast]
    rfl

theorem records_of_solveFromControls {us : List (Vec α m)} {sol : Solution α n m}
    (hbudget : 0 < s.options.budgetNat .outer) (h : (s.solveFromControls us).outcome = .ok sol) :
    ∃ made history summary, s.Makes (.controls us) made ∧
      sol.Records s.options.cache.isTrue made history summary ∧ ∀ x ∈ made, x.2 ≠ [] := by
  rw [outcome_solveFromControls, map_eq_ok] at h
  obtain ⟨r, hr, rfl⟩ := h
  split at hr
  next hconstrained =>
    have hmade := Outer.records_of_solve hbudget hr
    have hentries := Outer.entries_of_solve (by simp [historyFor]) hr
    obtain ⟨summary, hsummary⟩ := records_ofResult [] hmade
      (hentries.trans (List.flatMap_singleton _ _).symm) rfl rfl
    exact ⟨_, _, summary, .feasible hconstrained, hsummary, by simpa using hmade.ne_nil⟩
  next hconstrained =>
    obtain ⟨x, hround, hmade, hhistory⟩ :=
      Outer.records_of_solveUnconstrained hasRoom_single hr
    have hentries : r.history.entries = ([] ++ [(Stage.unconstrained, [x.snapshot])]).flatMap
        (StageRecord.kept s.options.cache.isTrue) := by
      rw [hhistory, History.entries_extend_of_notMem (by simp)]
      exact (List.flatMap_singleton _ _).symm
    obtain ⟨summary, hsummary⟩ := records_ofResult [] hmade hentries rfl rfl
    exact ⟨_, _, summary, .unconstrained (by simpa using hconstrained) hround, hsummary, by simp⟩

theorem records_of_solveFromPath {path : Path α n m} {sol : Solution α n m}
    (hbudget : 0 < s.options.budgetNat .outer) (h : (s.solveFromPath path).outcome = .ok sol) :
    ∃ made history summary, s.Makes (.path path) made ∧
      sol.Records s.options.cache.isTrue made history summary ∧ ∀ x ∈ made, x.2 ≠ [] := by
  rw [outcome_solveFromPath, bind_eq_ok] at h
  obtain ⟨infeasible, hinfeasible, h⟩ := h
  obtain ⟨feasible, hfeasible, rfl⟩ := map_eq_ok.1 h
  have hfirst := Outer.records_of_solve hbudget hinfeasible
  have hsecond := Outer.records_of_solve hbudget hfeasible
  have hempty : Stage.infeasible ∉ (s.historyFor 2).stages := by simp [historyFor]
  have hnew : Stage.feasible ∉ infeasible.history.stages := by
    rw [Outer.history_of_solve hinfeasible]
    exact History.notMem_stages_extend hempty (by simp) (by simp [historyFor])
  have hkeeps : infeasible.history.keepsAll = s.options.cache.isTrue := by
    rw [Outer.history_of_solve hinfeasible, History.keepsAll_extend]
    rfl
  set first := Outer.stageRecord (s.bound.problem.withSlack s.options.slackWeight) s.options
    (Infeasible.startWithSlack s.bound.problem s.options path) .infeasible
  set second := Outer.stageRecord s.bound.problem s.options
    (Infeasible.dropSlack s.bound.problem s.options infeasible.workspace) .feasible
  have hentries : feasible.history.entries =
      ([first] ++ [second]).flatMap (StageRecord.kept s.options.cache.isTrue) := by
    rw [Outer.entries_of_solve hnew hfeasible, Outer.entries_of_solve hempty hinfeasible, hkeeps]
    simp [first, second, historyFor, History.empty]
  obtain ⟨summary, hsummary⟩ := records_ofResult [first] hsecond hentries
    (congrArg (fun k => [k]) hfirst.iterations) (congrArg (fun k => [k]) hfirst.innerIterations)
  refine ⟨_, _, summary, .infeasible hinfeasible, hsummary, ?_⟩
  simpa using ⟨hfirst.ne_nil, hsecond.ne_nil⟩

/-- The stages that a solve goes through, by what it starts from. -/
theorem Makes.stages {g : Guess α n m} {made : List (StageRecord α)} (h : s.Makes g made) :
    made.map Prod.fst = g.stages s.bound.constrained := by
  cases h with
  | unconstrained hconstrained => simp [Guess.stages, hconstrained]
  | feasible hconstrained => simp [Guess.stages, hconstrained, Outer.stageRecord]
  | infeasible => rfl

/-- No stage makes more rounds than its budget allows, and a problem without constraints takes a
single one. -/
theorem Makes.length_le {g : Guess α n m} {made : List (StageRecord α)} (h : s.Makes g made) :
    ∀ x ∈ made, x.2.length ≤ if x.1 = .unconstrained then 1 else s.options.budgetNat .outer := by
  cases h with
  | unconstrained => simp
  | feasible => simpa [Outer.stageRecord] using Outer.length_solveRounds_le
  | infeasible =>
    simpa [Outer.stageRecord] using ⟨Outer.length_solveRounds_le, Outer.length_solveRounds_le⟩

/-- The history of a solve is never full, and what the solve returns tells the rounds of its stages.
From controls there is one stage, which is a single round for a problem without constraints; from
states and controls there are two. Every stage has made a round, and none of them more than its
budget allows. The history has the snapshots of all rounds, or the last one of each stage; the
summary counts the rounds of each stage and all inner iterations; and the last entry shows the
solution. -/
theorem solve_records (hbudget : 0 < s.options.budgetNat .outer) (guess : List (Tensor α)) :
    (∀ capacity, (s.solve guess).outcome ≠ .error (.logFull capacity)) ∧
    ∀ sol, (s.solve guess).outcome = .ok sol → ∃ g made history summary,
      s.read guess = .ok g ∧ s.Makes g made ∧
      sol.Records s.options.cache.isTrue made history summary ∧
      (made.map Prod.fst = if guess.length = 2 then [.infeasible, .feasible]
        else if s.bound.constrained then [.feasible] else [.unconstrained]) ∧
      (∀ x ∈ made, 1 ≤ x.2.length ∧
        x.2.length ≤ if x.1 = .unconstrained then 1 else s.options.budgetNat .outer) ∧
      (s.options.cache.isTrue = true →
        summary.innerIterations = (history.entries.map fun x => x.2.inner).sum) := by
  refine ⟨fun capacity h => ?_, fun sol h => ?_⟩
  · cases hread : s.read guess with
    | ok g => exact interrupts_of_solve hread h
    | error e =>
      rw [outcome_solve, hread] at h
      cases h
      exact read_ne_logFull hread
  · rw [outcome_solve, bind_eq_ok] at h
    obtain ⟨g, hread, h⟩ := h
    obtain ⟨made, history, summary, hmakes, hrecords, hnonempty⟩ :
        ∃ made history summary, s.Makes g made ∧
          sol.Records s.options.cache.isTrue made history summary ∧ ∀ x ∈ made, x.2 ≠ [] := by
      cases g with
      | controls us => exact records_of_solveFromControls hbudget h
      | path path => exact records_of_solveFromPath hbudget h
    have hlength : ∀ x ∈ made, 1 ≤ x.2.length := fun x hx =>
      List.length_pos_of_ne_nil (hnonempty x hx)
    refine ⟨g, made, history, summary, hread, hmakes, hrecords,
      hmakes.stages.trans (stages_of_read hread _),
      fun x hx => ⟨hlength x hx, hmakes.length_le x hx⟩, fun hcache => ?_⟩
    rw [hcache] at hrecords
    exact hrecords.innerIterations_eq

end Solver

namespace PointMass

/-- The first state and the control of a path that the dynamics do not make. -/
def stateGuess : List (Tensor Float) := [⟨[2, 2], [0, 0, 0.5, 0]⟩, ⟨[1, 1], [0.5]⟩]

theorem exists_ok_of_stateGuess : ∃ sol, (solver.solve stateGuess).outcome = .ok sol := by
  have hrun : (solver.solve stateGuess).outcome.toOption.any
      (fun sol => decide (sol.status = .solved)) = true := by decide +kernel
  obtain ⟨sol, hsol, -⟩ := exists_ok_of_any hrun
  exact ⟨sol, hsol⟩

/-- From states that the point mass cannot reach, the solve has two stages, and the history has all
their rounds. -/
theorem records_of_stateGuess : 0 < solver.options.budgetNat .outer ∧
    ∃ sol made history summary, (solver.solve stateGuess).outcome = .ok sol ∧
      sol.Records true made history summary ∧ made.map Prod.fst = [.infeasible, .feasible] ∧
      summary.innerIterations = (history.entries.map fun x => x.2.inner).sum := by
  have hbudget : 0 < solver.options.budgetNat .outer := by decide
  obtain ⟨sol, hsol⟩ := exists_ok_of_stateGuess
  obtain ⟨g, made, history, summary, -, -, hrecords, hstages, -, hinner⟩ :=
    (Solver.solve_records hbudget stateGuess).2 sol hsol
  exact ⟨hbudget, sol, made, history, summary, hsol, hrecords, hstages, hinner rfl⟩

end PointMass

end TrajOpt
