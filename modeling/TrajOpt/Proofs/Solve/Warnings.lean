import TrajOpt.Proofs.Outcome
import TrajOpt.Solve.Infeasible

/-!
# Warnings of a solve

A solve reports on its iterations and on the regularization, as often as there is something to
report. It warns at most once, between the two stages of an infeasible start, where slacks remain.

## Main definitions

* `Run.Reports` - all events of a run have a property.
* `Event.IsNote` - an event that does not warn.
* `Event.warnings` - the events that do.

## Main statements

* `Run.Reports.bind` - what holds of all events of two runs holds of one after the other.
* `Descent.notes_solve`, `Outer.notes_solve` - the loops of a solve warn of nothing.
* `Infeasible.warnings_of_solve` - the warnings of an infeasible start.
-/

namespace TrajOpt

namespace Run

variable {ε η β γ : Type} {P : ε → Prop} {x : Run ε η β} {f : β → Run ε η γ}

theorem events_bind_of_ok {b : β} (h : x.outcome = .ok b) :
    (x >>= f).events = x.events ++ (f b).events := by
  show (bind x f).events = _
  simp [bind, h]

theorem events_bind_of_error {e : η} (h : x.outcome = .error e) :
    (x >>= f).events = x.events := by
  show (bind x f).events = _
  simp [bind, h]

/-- All events of the run have the property. -/
def Reports (P : ε → Prop) (x : Run ε η β) : Prop := ∀ e ∈ x.events, P e

namespace Reports

theorem pure (b : β) : (Pure.pure b : Run ε η β).Reports P := nofun

theorem fail (e : η) : (Run.fail e : Run ε η β).Reports P := nofun

theorem ofExcept (x : Except η β) : (Run.ofExcept x : Run ε η β).Reports P := nofun

theorem report {e : ε} (h : P e) : (Run.report e : Run ε η Unit).Reports P := by
  simpa [Reports, Run.report] using h

theorem reportIf {condition : Bool} {e : ε} (h : P e) :
    (Run.reportIf condition e : Run ε η Unit).Reports P := by
  cases condition with
  | false => exact nofun
  | true => exact report h

/-- An error ends the whole, so the second run may report nothing. -/
theorem bind (hx : x.Reports P) (hf : ∀ b, (f b).Reports P) : (x >>= f).Reports P := by
  intro e he
  cases hb : x.outcome with
  | ok b =>
    rw [events_bind_of_ok hb, List.mem_append] at he
    exact he.elim (hx e) (hf b e)
  | error e' =>
    rw [events_bind_of_error hb] at he
    exact hx e he

end Reports

end Run

section Notes

variable {α ν : Type}

/-- The event tells of the progress of a solve and does not warn. -/
def Event.IsNote (e : Event α) : Prop := e.level ≠ .warning

/-- The events that warn. -/
def Event.warnings (events : List (Event α)) : List (Event α) :=
  events.filter fun e => e.level = .warning

theorem Event.warnings_append (xs ys : List (Event α)) :
    warnings (xs ++ ys) = warnings xs ++ warnings ys :=
  List.filter_append xs ys

theorem Run.Reports.warnings_eq_nil {η β : Type} {x : Run (Event α) η β}
    (h : x.Reports Event.IsNote) : Event.warnings x.events = [] := by
  simpa [Event.warnings, Run.Reports, Event.IsNote] using h

variable [Scalar α] {n m : Nat} {o : Options α}

theorem Regularization.notes_raise {η : Type} (r : Regularization α) :
    (r.raise o : Run (Event α) η _).Reports Event.IsNote :=
  .bind (.report nofun) fun _ => .pure _

theorem notes_searchRegularization (e : Expansion α n m) (passes : Nat) (r : Regularization α) :
    (searchRegularization o e passes r : Run (Event α) (Error ν) _).Reports Event.IsNote := by
  induction passes generalizing r with
  | zero => exact .fail _
  | succ passes ih =>
    unfold searchRegularization
    split
    · exact .pure _
    · refine .bind r.notes_raise fun raised => ?_
      split
      · exact .pure _
      · exact ih raised

namespace Descent

variable {aim : Aim α n m}

theorem notes_iteration (number : Nat) (s : Iterate α n m) :
    (iteration o aim number s).Reports Event.IsNote := by
  refine .bind (notes_searchRegularization _ _ _) fun ⟨reg, sweep⟩ => ?_
  cases sweep with
  | error gains => exact .pure _
  | ok sweep =>
    dsimp only
    split
    · exact .pure _
    · refine .bind (.ofExcept _) fun trials => ?_
      split
      · exact .bind (Regularization.notes_raise _) fun _ => .pure _
      · exact .bind (.reportIf nofun) fun _ => .pure _

theorem notes_loop (left done : Nat) (s : Iterate α n m) :
    (loop o aim left done s).Reports Event.IsNote := by
  induction left generalizing done s with
  | zero => exact .pure _
  | succ left ih =>
    refine .bind (notes_iteration _ s) fun ⟨t, stop⟩ => ?_
    cases stop with
    | none => exact ih _ t
    | some status => exact .pure _

theorem notes_solve (path : Path α n m) : (solve o aim path).Reports Event.IsNote :=
  notes_loop _ _ _

end Descent

namespace Outer

variable {p q : Nat} {problem : StageProblem α n m p q} {stage : Stage}

theorem notes_iteration (number : Nat) (s : Iterate α n m p q) :
    (iteration problem o stage number s).Reports Event.IsNote := by
  refine .bind (Descent.notes_solve _) fun inner => ?_
  exact .bind (.ofExcept _) fun history => .bind (.reportIf nofun) fun _ => .pure _

theorem notes_loop (left done : Nat) (s : Iterate α n m p q) :
    (loop problem o stage left done s).Reports Event.IsNote := by
  induction left generalizing done s with
  | zero => exact .pure _
  | succ left ih =>
    refine .bind (notes_iteration _ s) fun ⟨t, solved⟩ => ?_
    cases solved with
    | false => exact ih _ t
    | true => exact .pure _

theorem notes_solve (w : Workspace α n m p q) (history : History (Snapshot α)) :
    (solve problem o w history stage).Reports Event.IsNote :=
  .bind (.ofExcept _) fun _ => notes_loop _ _ _

end Outer

/-- The only warning of an infeasible start compares the largest slack with the tolerance, whatever
becomes of the second stage. -/
theorem Infeasible.warnings_of_solve {p q : Nat} {problem : StageProblem α n m p q}
    {guess : Path α n m} {history : History (Snapshot α)}
    {infeasible : Outer.Result α n (m + n) (p + n) q}
    (h : (Outer.solve (problem.withSlack o.slackWeight) o (startWithSlack problem o guess) history
      .infeasible).outcome = .ok infeasible) :
    Event.warnings (solve problem o guess history).events =
      if o.epsConstraint < largestSlack infeasible.workspace.path.controls then
        [.slackRemains (largestSlack infeasible.workspace.path.controls) o.epsConstraint]
      else [] := by
  have hfirst : Event.warnings (Outer.solve (problem.withSlack o.slackWeight) o
      (startWithSlack problem o guess) history .infeasible).events = [] :=
    (Outer.notes_solve _ _).warnings_eq_nil
  have hsecond : (Outer.solve problem o (dropSlack problem o infeasible.workspace)
      infeasible.history .feasible >>= fun feasible =>
        Pure.pure (⟨infeasible, feasible⟩ : Result α n m p q)).Reports Event.IsNote :=
    .bind (Outer.notes_solve _ _) fun _ => .pure _
  rw [solve, Run.events_bind_of_ok h, Run.events_bind_of_ok (Run.outcome_reportIf _ _),
    Event.warnings_append, Event.warnings_append, hfirst, hsecond.warnings_eq_nil]
  by_cases hslack : o.epsConstraint < largestSlack infeasible.workspace.path.controls <;>
    simp [hslack, Run.reportIf, Run.report, Run.pure, Event.warnings, Event.level]

end Notes

end TrajOpt
