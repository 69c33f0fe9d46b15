import TrajOpt.Proofs.Descent.Progress
import TrajOpt.Proofs.Number.Numeral
import TrajOpt.Proofs.Problem.Slack
import TrajOpt.Proofs.Solve.HandOver
import TrajOpt.Proofs.Solve.Warnings

/-!
# The warning about slacks

After the first stage of an infeasible start the largest slack is compared with the tolerance, and a
slack that exceeds it is reported. What is not a number exceeds nothing, so a slack that is not a
number hides all others. Such a slack comes with the guess: without one in the guess every slack
stays a number, since the inner solver accepts only finite paths; with one the cost is not a number
and no step is ever accepted.

## Main definitions

* `Vec.AreNumbers` - all entries of some vectors are numbers.

## Main statements

* `Infeasible.not_lt_largestSlack_iff` - when no slack is reported.
* `Path.areNumbers_of_isFinite`, `StageProblem.areNumbers_of_cost` - a path with a slack that is not
  a number is not finite, and neither is its cost.
* `Outer.areNumbers_of_solve` - such a slack stays in the path to the end, and none comes into it.
* `Infeasible.warnings_eq_nil_iff` - what it means that nothing is reported.
* `PointMass.missed_of_undefinedGuess` - slacks that are not small and not reported.
-/

namespace TrajOpt

/-- All entries of all vectors are numbers. -/
def Vec.AreNumbers {α : Type} [Scalar α] {n : Nat} (vs : List (Vec α n)) : Prop :=
  ∀ v ∈ vs, ∀ i (hi : i < n), Arith.isNumber v[i] = true

instance Vec.decidableAreNumbers {α : Type} [Scalar α] {n : Nat} (vs : List (Vec α n)) :
    Decidable (Vec.AreNumbers vs) :=
  inferInstanceAs (Decidable (∀ v ∈ vs, ∀ i (hi : i < n), Arith.isNumber v[i] = true))

section Largest

variable {α : Type} [Scalar α] [LawfulScalar α] {n m : Nat} {path : Path α n (m + n)} {c : α}

/-- The largest slack has a property of smaller numbers exactly if zero and all slacks have it. -/
theorem Infeasible.largestSlack_iff {P : α → Prop} (hP : Arith.IsLower P) :
    P (largestSlack path.controls) ↔
      P 0 ∧ ∀ w ∈ path.slackParts, ∀ i (hi : i < n), P (Scalar.abs w[i]) := by
  simp only [largestSlack, hP.foldl_maximum_iff, List.forall_mem_map, Vec.maximum_iff hP,
    Vector.getElem_map, Path.slackParts]
  exact and_congr_right fun hzero => forall₂_congr fun _ _ => and_iff_right hzero

/-- The largest slack exceeds a bound that is not negative, unless it is not a number or no slack
exceeds the bound. -/
theorem Infeasible.not_lt_largestSlack_iff (hc : Arith.isNumber c = true → 0 ≤ c) :
    ¬ c < largestSlack path.controls ↔
      (Arith.isNumber c = true → Vec.AreNumbers path.slackParts →
        ∀ w ∈ path.slackParts, ∀ i (hi : i < n), Scalar.abs w[i] ≤ c) := by
  have hnumber : Arith.isNumber (largestSlack path.controls) = true ↔
      Vec.AreNumbers path.slackParts := by
    simp only [largestSlack_iff Arith.isLower_isNumber, LawfulScalar.isNumber_zero, true_and,
      LawfulScalar.isNumber_abs, Vec.AreNumbers]
  rw [Arith.not_lt_iff, hnumber]
  constructor
  · intro h hcnumber hslacks
    exact ((largestSlack_iff (Arith.isLower_le c)).1 (h hslacks hcnumber)).2
  · intro h hslacks hcnumber
    exact (largestSlack_iff (Arith.isLower_le c)).2 ⟨hc hcnumber, h hcnumber hslacks⟩

end Largest

variable {n m p q : Nat} {problem : StageProblem Float n m p q}

/-- A product of vectors counts every entry that is not a number. -/
theorem Vec.isNumber_of_dot {u v : Vec Float n} (h : Arith.isNumber (dot u v) = true) :
    ∀ i (hi : i < n), Arith.isNumber u[i] = true ∧ Arith.isNumber v[i] = true := by
  intro i hi
  rw [dot, ← Vector.sum_toList] at h
  refine Double.isNumber_of_mul (Double.isNumber_of_sum h _ ?_)
  rw [Vector.mem_toList_iff, Vector.mem_iff_getElem]
  exact ⟨i, hi, by simp⟩

section Numbers

variable {weight : Float} {path : Path Float n (m + n)}

/-- The states of a path are finite only if its slacks are, since these are added to them. -/
theorem Path.areNumbers_of_isFinite {dynamics : Dynamics Float n m}
    (hrollout : path.IsRollout dynamics.withSlack.step)
    (hfinite : path.isFinite = true) : Vec.AreNumbers path.slackParts := by
  rw [Path.slackParts, Vec.AreNumbers, List.forall_mem_map]
  rw [← hrollout] at hfinite
  generalize path.first = x, path.controls = us at hfinite ⊢
  -- The controls are applied one after the other, so the first state varies along the path.
  induction us generalizing x with
  | nil => simp
  | cons v vs ih =>
    have hrest := (Path.isFinite_cons.1 hfinite).2
    refine List.forall_mem_cons.2 ⟨fun i hi => ?_, ih _ hrest⟩
    have hnext := Path.isFinite_first hrest i hi
    rw [Path.first_rollout] at hnext
    have hadd : Scalar.isFinite ((dynamics.step x (Vec.left v))[i] +
        (Vec.right v : Vec Float n)[i]) = true := by
      simpa [Dynamics.withSlack] using hnext
    exact Arith.isNumber_of_isFinite (Double.isFinite_of_add hadd).2

/-- The cost with slacks is a number only if all slacks are. -/
theorem StageProblem.areNumbers_of_cost
    (h : Arith.isNumber ((problem.withSlack weight).cost path) = true) :
    Vec.AreNumbers path.slackParts := by
  have hstages := Double.isNumber_of_sum (Double.isNumber_of_add h).1
  simp only [Path.slackParts, Path.controls, Vec.AreNumbers, List.forall_mem_map] at hstages ⊢
  intro knot hknot i hi
  exact (Vec.isNumber_of_dot (Double.isNumber_of_add (hstages knot hknot)).2 i hi).2

end Numbers

namespace Outer

variable {weight : Float} {o : Options Float} {w : Workspace Float n (m + n) (p + n) q}

/-- The inner solver takes a step only from a path whose cost is a number, and only to a finite
path; else it leaves the path as it is. -/
theorem areNumbers_of_descend {inner : Descent.Result Float n (m + n)} (hc1 : 0 < o.c1)
    (hw : w.IsCoherent (problem.withSlack weight))
    (h : (descend (problem.withSlack weight) o w).outcome = .ok inner) :
    Vec.AreNumbers inner.final.path.slackParts ↔ Vec.AreNumbers w.path.slackParts := by
  obtain ⟨hrollout, -⟩ := StageProblem.rollout_controls_iff.1 hw.rollout
  obtain ⟨hfinal, -, -⟩ := Descent.solve_isRollout hrollout h
  obtain ⟨hprogress, -⟩ := Descent.progress_of_solve hc1 h
  cases htaken : (Descent.solveMoves o (Lagrangian.aim ⟨problem.withSlack weight, w.multipliers⟩)
      w.path).any Descent.Move.isTaken with
  | false => rw [(hprogress.unchanged htaken).1]
  | true =>
    obtain ⟨hfinite, -, hlt⟩ := hprogress.improved htaken
    have hcost := Arith.isNumber_of_lt_right hlt
    have hunpenalized := (Double.isNumber_of_add (Double.isNumber_of_add hcost).1).1
    exact iff_of_true (Path.areNumbers_of_isFinite hfinal hfinite)
      (StageProblem.areNumbers_of_cost hunpenalized)

/-- A slack that is not a number stays in the path to the end, and none comes into it. -/
theorem areNumbers_of_solve {history : History (Snapshot Float)} {stage : Stage}
    {r : Result Float n (m + n) (p + n) q} (hc1 : 0 < o.c1)
    (hw : w.IsCoherent (problem.withSlack weight))
    (h : (solve (problem.withSlack weight) o w history stage).outcome = .ok r) :
    Vec.AreNumbers r.workspace.path.slackParts ↔ Vec.AreNumbers w.path.slackParts := by
  obtain ⟨t, ⟨-, ht⟩, hr⟩ := solve_invariant
    (P := fun _ s => s.workspace.IsCoherent (problem.withSlack weight) ∧
      (Vec.AreNumbers s.workspace.path.slackParts ↔ Vec.AreNumbers w.path.slackParts)) (by
    intro _ s x history' hs hround _
    obtain ⟨inner, hinner, rfl⟩ := round_eq_ok.1 hround
    have hx := isCoherent_of_descend hs.1 hinner
    have hnumbers := (areNumbers_of_descend hc1 hs.1 hinner).trans hs.2
    simp only [Iterate.next]
    split
    · exact ⟨hx, hnumbers⟩
    · exact ⟨isCoherent_update hx, hnumbers⟩) h ⟨hw, Iff.rfl⟩
  rw [hr]
  exact ht

end Outer

namespace Infeasible

variable {guess : Path Float n m} {o : Options Float}

/-- The path of the first stage begins with the slacks of the guess. -/
theorem slackParts_startWithSlack :
    (startWithSlack problem o guess).path.slackParts = problem.initialSlacks guess := by
  have hcontrols : (startWithSlack problem o guess).path.controls = slackControls problem guess :=
    Path.controls_rollout _ _ _
  rw [Path.slackParts, hcontrols]
  refine List.ext_getElem ?_ ?_
  · simp [slackControls, StageProblem.initialSlacks]
  · simp [slackControls]

/-- With accepted options, and from a guess of the right length, the only warning is the one about
the largest slack. At the end of the first stage the slacks are numbers exactly if those of the
guess are. There is no warning exactly if no slack exceeds the tolerance, or the tolerance or a
slack of the guess is not a number. -/
theorem warnings_eq_nil_iff {settings : Options Numeral} (ho : settings.Accepted)
    (hused : settings.map Numeral.toFloat = o) (hguess : guess.knots.length = problem.intervals)
    {history : History (Snapshot Float)} {infeasible : Outer.Result Float n (m + n) (p + n) q}
    (h : (Outer.solve (problem.withSlack o.slackWeight) o (startWithSlack problem o guess) history
      .infeasible).outcome = .ok infeasible) :
    let warnings := Event.warnings (solve problem o guess history).events
    let slacks := infeasible.workspace.path.slackParts
    (warnings = [] ∨ warnings =
      [.slackRemains (largestSlack infeasible.workspace.path.controls) o.epsConstraint]) ∧
    (Vec.AreNumbers slacks ↔ Vec.AreNumbers (problem.initialSlacks guess)) ∧
    (warnings = [] ↔
      (Arith.isNumber o.epsConstraint = true → Vec.AreNumbers (problem.initialSlacks guess) →
        ∀ w ∈ slacks, ∀ i (hi : i < n), Scalar.abs w[i] ≤ o.epsConstraint)) := by
  intro warnings slacks
  subst hused
  have hc1 := ho.map_toFloat.1
  have hpositive : ¬ settings.epsConstraint ≤ 0 :=
    ho.positive ("eps_constraint", settings.epsConstraint) (by simp [Options.positives])
  rw [Numeral.le_iff_toFloat (.inr rfl), Arith.not_le_iff] at hpositive
  have heps : Arith.isNumber (settings.map Numeral.toFloat).epsConstraint = true →
      0 ≤ (settings.map Numeral.toFloat).epsConstraint := fun hnumber =>
    Arith.le_of_lt (hpositive LawfulScalar.isNumber_zero hnumber)
  have hnumbers : Vec.AreNumbers slacks ↔ Vec.AreNumbers (problem.initialSlacks guess) := by
    rw [← slackParts_startWithSlack (o := settings.map Numeral.toFloat)]
    exact Outer.areNumbers_of_solve hc1 (isCoherent_startWithSlack hguess) h
  have hwarnings : warnings = _ := warnings_of_solve h
  refine ⟨?_, hnumbers, ?_⟩
  · rw [hwarnings]
    split
    · exact .inr rfl
    · exact .inl rfl
  · rw [← hnumbers, ← not_lt_largestSlack_iff heps, hwarnings]
    simp

end Infeasible

namespace PointMass

/-- Options with a single outer iteration, and with little regularization. -/
def brief {ν : Type} [Arith ν] [OfScientific ν] : Options ν :=
  { Options.standard with iterationsOuter := .int 1, regMax := 2e-8 }

/-- The first stage from a guess. -/
def firstStage (guess : Path Float 2 1) :=
  Outer.solve (solver.bound.problem.withSlack (Options.slackWeight brief)) brief
    (Infeasible.startWithSlack solver.bound.problem brief guess) (.empty 2 true) .infeasible

/-- The warnings of both stages from a guess. -/
def warningsFrom (guess : Path Float 2 1) : List (Event Float) :=
  Event.warnings (Infeasible.solve solver.bound.problem brief guess (.empty 2 true)).events

theorem check_brief : (brief : Options Numeral).check = .ok () := by
  have hcheck : (brief : Options Numeral).check.toOption.any (fun _ => true) = true := by
    decide +kernel
  obtain ⟨⟨⟩, hcheck, -⟩ := exists_ok_of_any hcheck
  exact hcheck

/-- The slacks of a guess that nothing reaches are driven out, so there is nothing to warn of. -/
theorem warnings_of_pathGuess : ∃ infeasible,
    (firstStage pathGuess).outcome = .ok infeasible ∧ warningsFrom pathGuess = [] ∧
    Vec.AreNumbers (solver.bound.problem.initialSlacks pathGuess) ∧
    ∀ w ∈ infeasible.workspace.path.slackParts, ∀ i (hi : i < 2),
      Scalar.abs w[i] ≤ (brief : Options Float).epsConstraint := by
  have hrun : (firstStage pathGuess).outcome.toOption.any (fun r =>
      decide (¬ (brief : Options Float).epsConstraint <
        Infeasible.largestSlack r.workspace.path.controls)) = true := by
    decide +kernel
  obtain ⟨infeasible, hinfeasible, hslack⟩ := exists_ok_of_any hrun
  have hwarnings : warningsFrom pathGuess = [] :=
    (Infeasible.warnings_of_solve hinfeasible).trans (if_neg (of_decide_eq_true hslack))
  have hnumbers : Vec.AreNumbers (solver.bound.problem.initialSlacks pathGuess) := by
    decide +kernel
  obtain ⟨-, -, hiff⟩ := Infeasible.warnings_eq_nil_iff (Options.check_eq_ok_iff.1 check_brief)
    rfl rfl hinfeasible
  exact ⟨infeasible, hinfeasible, hwarnings, hnumbers, hiff.1 hwarnings (by decide) hnumbers⟩

/-- A guess that ends in a state that is not a number. -/
def undefinedGuess : Path Float 2 1 := ⟨[⟨Vec.zero 2, Vec.zero 1⟩], Vec.const 2 (0 / 0)⟩

/-- The slacks of the guess stay what they are, and there is no warning. -/
theorem missed_of_undefinedGuess : (brief : Options Numeral).check = .ok () ∧
    undefinedGuess.knots.length = solver.bound.problem.intervals ∧ ∃ infeasible,
    (firstStage undefinedGuess).outcome = .ok infeasible ∧ warningsFrom undefinedGuess = [] ∧
    ¬ Vec.AreNumbers infeasible.workspace.path.slackParts := by
  have hrun : (firstStage undefinedGuess).outcome.toOption.any (fun r =>
      decide (¬ (brief : Options Float).epsConstraint <
          Infeasible.largestSlack r.workspace.path.controls ∧
        ¬ Vec.AreNumbers r.workspace.path.slackParts)) = true := by
    decide +kernel
  obtain ⟨infeasible, hinfeasible, hslack⟩ := exists_ok_of_any hrun
  obtain ⟨hsmall, hnumbers⟩ := of_decide_eq_true hslack
  have hwarnings : warningsFrom undefinedGuess = [] :=
    (Infeasible.warnings_of_solve hinfeasible).trans (if_neg hsmall)
  exact ⟨check_brief, rfl, infeasible, hinfeasible, hwarnings, hnumbers⟩

end PointMass

end TrajOpt
