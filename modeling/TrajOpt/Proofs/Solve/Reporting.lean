import TrajOpt.Proofs.Solve.Records

/-!
# What is reported and what is kept

Whether a solve reports its iterations and whether its history keeps all of them makes no difference
to what it computes. Two solves that differ in this take the same steps: every search, every line
search and every update reads the other options only, and the histories on both sides, though of
different lengths, have room for the same rounds.

## Main definitions

* `Options.withReport`, `Solver.withReport` - other settings of what is reported and what is kept.
* `Solution.withoutHistory` - everything in a solution but its history.

## Main statements

* `Outer.round_congr` - what a round depends on, and these settings do not take part in it.
* `Outer.agree_loop` - the outer loop takes the same rounds, whatever its history keeps.
* `Solver.solve_withReport` - neither setting changes a solution apart from its history, and a
  history that does not keep everything has the last entry of each stage.
-/

namespace TrajOpt

/-- The same options with other settings of what is reported and what is kept. -/
def Options.withReport {ν : Type} (o : Options ν) (verbose cache : Numeral) : Options ν :=
  { o with verbose, cache }

variable {α : Type} [Scalar α] {n m p q : Nat} {o : Options α} {verbose cache : Numeral}

namespace Outer

variable {problem : StageProblem α n m p q} {w : Workspace α n m p q}
  {h h' : History (Snapshot α)} {stage : Stage}

/-- A round depends on the options of its inner solve only. -/
theorem round_congr {o o' : Options α} (hsteps : o'.steps = o.steps)
    (hbudget : o'.budgetNat .iterations = o.budgetNat .iterations) (w : Workspace α n m p q) :
    round problem o' w = round problem o w := by
  rw [round, round]
  congr 1
  exact Descent.outcome_solve_congr hsteps hbudget _

theorem round_withReport (w : Workspace α n m p q) :
    round problem (o.withReport verbose cache) w = round problem o w := by
  refine round_congr ?_ ?_ w <;> rfl

/-- Two results that are the same apart from their histories, to which the stage added the same
entries. -/
def Alike (h h' : History (Snapshot α)) (stage : Stage) (r r' : Result α n m p q) : Prop :=
  r' = { r with history := r'.history } ∧
    ∃ es, r.history = h.extend stage es ∧ r'.history = h'.extend stage es

omit [Scalar α] in
theorem Alike.counts {r r' : Result α n m p q} (halike : Alike h h' stage r r') :
    r'.workspace = r.workspace ∧ r'.iterations = r.iterations ∧
      r'.innerIterations = r.innerIterations := by
  rw [halike.1]
  exact ⟨rfl, rfl, rfl⟩

/-- Where both histories have room, a loop takes the same rounds with each of them. -/
theorem agree_loop {es : List (Snapshot α)} {left done : Nat} {s s' : Iterate α n m p q}
    (hsame : s' = { s with history := s'.history }) (hs : s.history = h.extend stage es)
    (hs' : s'.history = h'.extend stage es) (hroom : h.HasRoom stage (es.length + left))
    (hroom' : h'.HasRoom stage (es.length + left)) :
    Agree (Alike h h' stage) (loop problem o stage left done s).outcome
      (loop problem (o.withReport verbose cache) stage left done s').outcome := by
  -- The entries that both histories have from the stage vary with the rounds so far.
  induction left generalizing done s s' es with
  | zero => exact ⟨by rw [hsame]; rfl, es, hs, hs'⟩
  | succ left ih =>
    have hworkspace : s'.workspace = s.workspace := by rw [hsame]
    rw [outcome_loop_of_room hs (hroom.mono (by omega)),
      outcome_loop_of_room hs' (hroom'.mono (by omega)), round_withReport, hworkspace]
    cases round problem o s.workspace with
    | error e => exact rfl
    | ok x =>
      have hends : x.ends (o.withReport verbose cache) = x.ends o := rfl
      have hnext : s'.next problem (o.withReport verbose cache) x
          (h'.extend stage (es ++ [x.snapshot])) =
            { s.next problem o x (h.extend stage (es ++ [x.snapshot])) with
              history := h'.extend stage (es ++ [x.snapshot]) } := by
        rw [hsame]
        rfl
      simp only [ok_bind, hends, hnext]
      cases x.ends o with
      | true => exact ⟨rfl, es ++ [x.snapshot], rfl, rfl⟩
      | false =>
        have hlength : (es ++ [x.snapshot]).length + left = es.length + (left + 1) := by
          simp only [List.length_append, List.length_singleton]
          omega
        exact ih rfl rfl rfl (hlength ▸ hroom) (hlength ▸ hroom')

theorem agree_solve (hroom : h.HasRoom stage (o.budgetNat .outer))
    (hroom' : h'.HasRoom stage (o.budgetNat .outer)) :
    Agree (Alike h h' stage) (solve problem o w h stage).outcome
      (solve problem (o.withReport verbose cache) w h' stage).outcome := by
  simp only [solve, Run.outcome_bind, Run.outcome_ofExcept]
  have hcounted : ((o.withReport verbose cache).counted .outer : Except (Error α) _) =
    o.counted .outer := rfl
  rw [hcounted]
  cases hbudget : (o.counted .outer : Except (Error α) _) with
  | error e => exact rfl
  | ok budget =>
    obtain rfl := Options.eq_budgetNat_of_counted hbudget
    have hstart : h = h.extend stage [] := rfl
    exact agree_loop rfl hstart rfl (by simpa using hroom) (by simpa using hroom')

theorem agree_solveUnconstrained (hroom : h.HasRoom .unconstrained 1)
    (hroom' : h'.HasRoom .unconstrained 1) :
    Agree (Alike h h' .unconstrained) (solveUnconstrained problem o w h).outcome
      (solveUnconstrained problem (o.withReport verbose cache) w h').outcome := by
  rw [outcome_solveUnconstrained hroom, outcome_solveUnconstrained hroom', round_withReport]
  cases round problem o w with
  | error e => exact rfl
  | ok x => exact ⟨rfl, [x.snapshot], rfl, rfl⟩

end Outer

/-- Everything in a solution but its history. -/
def Solution.withoutHistory (sol : Solution α n m) : Solution α n m :=
  { sol with history := none }

/-- Two solutions that are the same apart from their histories. These are parallel, and differ from
each other in what they keep. -/
def Solution.Alike (keepsAll keepsAll' : Bool) (sol sol' : Solution α n m) : Prop :=
  sol'.withoutHistory = sol.withoutHistory ∧
    ∃ h h', sol.history = some h ∧ sol'.history = some h' ∧ h.Parallel h' ∧
      h.keepsAll = keepsAll ∧ h'.keepsAll = keepsAll'

/-- A last stage that adds the same entries to parallel histories leads to alike solutions. -/
theorem agree_ofResult {h h' : History (Snapshot α)} {stage : Stage}
    {x y : Except (Error α) (Outer.Result α n m p q)} (hparallel : h.Parallel h')
    (hstage : stage ∉ h.stages) (hagree : Agree (Outer.Alike h h' stage) x y) (dt : α)
    (outer inner : List Nat) :
    Agree (Solution.Alike h.keepsAll h'.keepsAll)
      (x.map fun r => .ofResult dt r (outer ++ [r.iterations]) (inner ++ [r.innerIterations]))
      (y.map fun r => .ofResult dt r (outer ++ [r.iterations]) (inner ++ [r.innerIterations])) := by
  refine hagree.map fun r r' halike => ?_
  obtain ⟨hsame, es, hr, hr'⟩ := halike
  have hhistory : r.history.Parallel r'.history := by
    rw [hr, hr']
    exact hparallel.extend hstage
  refine ⟨?_, _, _, rfl, rfl, hhistory, by rw [hr, History.keepsAll_extend],
    by rw [hr', History.keepsAll_extend]⟩
  rw [hsame]
  simp only [Solution.withoutHistory, Solution.ofResult, hhistory.distinctStages]

namespace Solver

variable {s : Solver α n m}

/-- The same solver with other settings of what is reported and what is kept. -/
def withReport (s : Solver α n m) (verbose cache : Numeral) : Solver α n m :=
  { s with options := s.options.withReport verbose cache }

theorem agree_solveFromControls (us : List (Vec α m)) :
    Agree (Solution.Alike s.options.cache.isTrue cache.isTrue) (s.solveFromControls us).outcome
      ((s.withReport verbose cache).solveFromControls us).outcome := by
  rw [outcome_solveFromControls, outcome_solveFromControls]
  have hroom : ∀ s : Solver α n m,
      (s.historyFor 1).HasRoom .feasible (s.options.budgetNat .outer) :=
    fun s => hasRoom_historyFor (Nat.le_of_eq (Nat.one_mul _).symm)
  cases hconstrained : s.bound.constrained with
  | true =>
    have hconstrained' : (s.withReport verbose cache).bound.constrained = true := hconstrained
    rw [hconstrained', if_pos rfl, if_pos rfl]
    exact agree_ofResult (History.parallel_empty _ _ _ _) (by simp)
      (Outer.agree_solve (hroom s) (hroom (s.withReport verbose cache))) _ [] []
  | false =>
    have hconstrained' : (s.withReport verbose cache).bound.constrained = false := hconstrained
    rw [hconstrained', if_neg Bool.false_ne_true, if_neg Bool.false_ne_true]
    exact agree_ofResult (History.parallel_empty _ _ _ _) (by simp)
      (Outer.agree_solveUnconstrained hasRoom_single hasRoom_single) _ [] []

theorem agree_solveFromPath (path : Path α n m) :
    Agree (Solution.Alike s.options.cache.isTrue cache.isTrue) (s.solveFromPath path).outcome
      ((s.withReport verbose cache).solveFromPath path).outcome := by
  rw [outcome_solveFromPath, outcome_solveFromPath]
  have hroom : ∀ s : Solver α n m,
      (s.historyFor 2).HasRoom .infeasible (s.options.budgetNat .outer) :=
    fun s => hasRoom_historyFor (Nat.le_mul_of_pos_left _ Nat.two_pos)
  refine (Outer.agree_solve (hroom s) (hroom (s.withReport verbose cache))).bind
    fun r r' hr hr' halike => ?_
  obtain ⟨hworkspace, hiterations, hinner⟩ := halike.counts
  obtain ⟨-, es, hhistory, hhistory'⟩ := halike
  have hempty : Stage.infeasible ∉ (s.historyFor 2).stages := by simp [historyFor]
  have hparallel : r.history.Parallel r'.history := by
    rw [hhistory, hhistory']
    exact (History.parallel_empty _ _ _ _).extend hempty
  have hnew : Stage.feasible ∉ r.history.stages := by
    rw [hhistory]
    exact History.notMem_stages_extend hempty (by simp) (by simp [historyFor])
  have hkeeps : r.history.keepsAll = s.options.cache.isTrue := by
    rw [hhistory, History.keepsAll_extend]
    rfl
  have hkeeps' : r'.history.keepsAll = cache.isTrue := by
    rw [hhistory', History.keepsAll_extend]
    rfl
  rw [hworkspace, hiterations, hinner, ← hkeeps, ← hkeeps']
  exact agree_ofResult hparallel hnew
    (Outer.agree_solve (hasRoom_of_infeasible hr)
      (hasRoom_of_infeasible (s := s.withReport verbose cache) hr')) _ [_] [_]

omit [Scalar α] in
theorem read_withReport (guess : List (Tensor α)) :
    (s.withReport verbose cache).read guess = s.read guess := by
  have hcontrols : ∀ us : Tensor α, ((s.withReport verbose cache).controlsOf us :
      Except (Error α) _) = s.controlsOf us := by
    intro us
    simp only [controlsOf, horizon, withReport]
    cases us.toMat? s.bound.problem.intervals m <;> rfl
  have hstates : ∀ xs : Tensor α, ((s.withReport verbose cache).statesOf xs :
      Except (Error α) _) = s.statesOf xs := by
    intro xs
    simp only [statesOf, horizon, withReport]
    cases xs.toMat? (s.bound.problem.intervals + 1) n <;> rfl
  have hready : (s.withReport verbose cache).ready = s.ready := by
    funext g
    cases g <;> rfl
  simp only [read, guessOf, hcontrols, hstates, hready]

/-- Solves that differ in what they report and keep fail alike, or return alike solutions. -/
theorem agree_solve (guess : List (Tensor α)) :
    Agree (Solution.Alike s.options.cache.isTrue cache.isTrue) (s.solve guess).outcome
      ((s.withReport verbose cache).solve guess).outcome := by
  rw [outcome_solve, outcome_solve]
  rw [read_withReport]
  cases s.read guess with
  | error e => exact rfl
  | ok g =>
    cases g with
    | controls us => exact agree_solveFromControls us
    | path path => exact agree_solveFromPath path

/-- What is reported and what is kept changes neither whether a solve succeeds nor anything in its
solution but the history. A history that does not keep everything has the last entry of each stage
of one that does. -/
theorem solve_withReport (verbose cache : Numeral) (guess : List (Tensor α)) :
    ((s.withReport verbose cache).solve guess).outcome.map Solution.withoutHistory =
      (s.solve guess).outcome.map Solution.withoutHistory ∧
    (s.options.cache.isTrue = true → cache.isTrue = false → ∀ sol sol',
      (s.solve guess).outcome = .ok sol →
      ((s.withReport verbose cache).solve guess).outcome = .ok sol' →
      ∃ h h', sol.history = some h ∧ sol'.history = some h' ∧ h'.entries = h.latest) := by
  have hagree : Agree (Solution.Alike s.options.cache.isTrue cache.isTrue) (s.solve guess).outcome
    ((s.withReport verbose cache).solve guess).outcome := agree_solve guess
  refine ⟨hagree.map_eq fun _ _ halike => halike.1, fun hkeeps hkeeps' sol sol' hsol hsol' => ?_⟩
  obtain ⟨-, h, h', hhistory, hhistory', hparallel, hh, hh'⟩ := hagree.rel hsol hsol'
  exact ⟨h, h', hhistory, hhistory', hparallel.latest (hh.trans hkeeps) (hh'.trans hkeeps')⟩

end Solver

namespace PointMass

/-- Without keeping everything, the solve from states that the point mass cannot reach ends the same
way, and its history has the last entry of each stage. -/
theorem latest_of_stateGuess : solver.options.cache.isTrue = true ∧
    (Numeral.truth false).isTrue = false ∧ ∃ sol sol' h h',
      (solver.solve stateGuess).outcome = .ok sol ∧
      ((solver.withReport (.truth true) (.truth false)).solve stateGuess).outcome = .ok sol' ∧
      sol'.withoutHistory = sol.withoutHistory ∧
      sol.history = some h ∧ sol'.history = some h' ∧ h'.entries = h.latest := by
  obtain ⟨sol, hsol⟩ := exists_ok_of_stateGuess
  obtain ⟨hsame, hlatest⟩ := solver.solve_withReport (.truth true) (.truth false) stateGuess
  rw [hsol] at hsame
  obtain ⟨sol', hsol', hsame⟩ := map_eq_ok.1 hsame
  obtain ⟨h, h', hhistory, hhistory', hentries⟩ := hlatest rfl rfl sol sol' hsol hsol'
  exact ⟨rfl, rfl, sol, sol', h, h', hsol, hsol', hsame, hhistory, hhistory', hentries⟩

end PointMass

end TrajOpt
