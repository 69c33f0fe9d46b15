import TrajOpt.Proofs.Descent.Progress
import TrajOpt.Proofs.Solve.Failures
import TrajOpt.Proofs.Solve.Reporting

/-!
# Budgets

No step of a run looks at the budget of the loop that it belongs to. A run with a larger budget thus
begins with the run of a smaller one, and goes on from where that one has used up its budget. If the
smaller budget was enough, the two runs are the same.

## Main definitions

* `Options.withBudget` - the same options with another budget.
* `Outer.Result.resume` - where a loop goes on from a result.

## Main statements

* `Descent.outcome_loop_add`, `Outer.outcome_loop_add` - a loop with the sum of two budgets.
* `solve_withBudget` - what a larger budget changes in a run of the inner solver and of the outer
  loop.
-/

namespace TrajOpt

/-- The same options with another number for one of the budgets. -/
def Options.withBudget {ν : Type} (o : Options ν) (b : Budget) (count : Nat) : Options ν :=
  match b with
  | .iterations => { o with iterations := .int count }
  | .outer => { o with iterationsOuter := .int count }
  | .lineSearch => { o with iterationsLineSearch := .int count }

variable {α : Type} [Scalar α] {n m p q : Nat} {o : Options α}

omit [Scalar α] in
/-- A budget that is given as an integer never interrupts a run. -/
theorem Options.interrupts_of_withBudget {b : Budget} {count : Nat} {e : Error α}
    (h : (o.withBudget b count).Interrupts e) : o.Interrupts e := by
  cases e with
  | endless => trivial
  | notCountable =>
    obtain h | h := h <;> cases b
    · exact .inl h
    · cases h
    · exact .inl h
    · exact .inr h
    · exact .inr h
    · cases h
  | _ => exact h

namespace Descent

variable {aim : Aim α n m} {path : Path α n m}

/-- A loop with the sum of two budgets goes on from where the first one is used up. -/
theorem outcome_loop_add (a b done : Nat) (s : Iterate α n m) :
    (loop o aim (a + b) done s).outcome = (loop o aim a done s).outcome >>= fun r =>
      if r.status = .maxIterations then (loop o aim b r.iterations r.final).outcome
      else .ok r := by
  induction a generalizing done s with
  | zero =>
    rw [Nat.zero_add]
    rfl
  | succ a ih =>
    rw [Nat.add_right_comm, outcome_loop, outcome_loop]
    cases move o aim s with
    | error e => rfl
    | ok found =>
      obtain ⟨reg, mv⟩ := found
      simp only [ok_bind]
      rcases hcarry : mv.carryOut o aim s reg with ⟨t, _ | status⟩
      · exact ih (done + 1) t
      · rw [ok_bind, if_neg (status_of_carryOut hcarry).2]

theorem outcome_solve_withBudget (count : Nat) (path : Path α n m) :
    (solve (o.withBudget .iterations count) aim path).outcome =
      (loop o aim count 0 (start o aim path)).outcome := by
  have hsteps : (o.withBudget .iterations count).steps = o.steps := rfl
  exact outcome_loop_congr hsteps count 0 _

/-- No iteration makes a cost that is a number larger. -/
theorem cost_le_of_loop [LawfulScalar α] (hc1 : 0 < o.c1) {left done : Nat} {s : Iterate α n m}
    {r : Result α n m} (hs : Arith.isNumber s.cost = true)
    (h : (loop o aim left done s).outcome = .ok r) : r.final.cost ≤ s.cost := by
  have hmove : ∀ t reg mv, t.cost ≤ s.cost → move o aim t = .ok (reg, mv) →
      (mv.carryOut o aim t reg).1.cost ≤ s.cost := by
    intro t reg mv hle hmv
    cases mv with
    | stuck gains => exact hle
    | stationary gains => exact hle
    | rejected gains => exact hle
    | taken gains step =>
      obtain ⟨sweep, size, -, hstep⟩ := move_taken hmv
      exact Arith.le_of_lt (Arith.lt_of_lt_of_le (tryStep_decreases hc1 hstep).2.2 hle)
  refine (loop_induction (fun _ t => t.cost ≤ s.cost) (fun _ t _ => t.cost ≤ s.cost) ?_ ?_
    (fun _ _ hle => hle) [] h (of_decide_eq_true hs)).1
  · intro _ t reg mv t' hle hmv hcarry
    simpa [hcarry] using hmove t reg mv hle hmv
  · intro _ t reg mv t' _ hle hmv hcarry
    simpa [hcarry] using hmove t reg mv hle hmv

/-- A run that stops before its budget is used up is the same with a larger one. -/
theorem outcome_solve_of_le {a b : Nat} (hab : a ≤ b) {r : Result α n m}
    (h : (solve (o.withBudget .iterations a) aim path).outcome = .ok r)
    (hstatus : r.status ≠ .maxIterations) :
    (solve (o.withBudget .iterations b) aim path).outcome = .ok r := by
  obtain ⟨c, rfl⟩ := Nat.exists_eq_add_of_le hab
  rw [outcome_solve_withBudget] at h ⊢
  rw [outcome_loop_add, h, ok_bind, if_neg hstatus]

/-- A run with a larger budget does not end in a larger cost. -/
theorem cost_le_of_le [LawfulScalar α] (hc1 : 0 < o.c1) {a b : Nat} (hab : a ≤ b)
    {r r' : Result α n m} (hcost : Arith.isNumber (aim.cost path) = true)
    (h : (solve (o.withBudget .iterations a) aim path).outcome = .ok r)
    (h' : (solve (o.withBudget .iterations b) aim path).outcome = .ok r') :
    r'.final.cost ≤ r.final.cost := by
  obtain ⟨c, rfl⟩ := Nat.exists_eq_add_of_le hab
  have hnumber : Arith.isNumber r.final.cost = true := by
    obtain ⟨hprogress, -⟩ := progress_of_solve (show 0 < (o.withBudget .iterations a).c1 from hc1) h
    exact (LawfulScalar.le_iff.1 (hprogress.le hcost)).1
  rw [outcome_solve_withBudget] at h h'
  rw [outcome_loop_add, h, ok_bind] at h'
  split at h'
  · exact cost_le_of_loop hc1 hnumber h'
  · cases h'
    exact of_decide_eq_true hnumber

end Descent

namespace Outer

variable {problem : StageProblem α n m p q} {w : Workspace α n m p q}
  {history : History (Snapshot α)} {stage : Stage} {r : Result α n m p q}

theorem round_withBudget (count : Nat) (w : Workspace α n m p q) :
    round problem (o.withBudget .outer count) w = round problem o w := by
  refine round_congr ?_ ?_ w <;> rfl

theorem outcome_loop_withBudget (count left done : Nat) (s : Iterate α n m p q) :
    (loop problem (o.withBudget .outer count) stage left done s).outcome =
      (loop problem o stage left done s).outcome := by
  induction left generalizing done s with
  | zero => rfl
  | succ left ih =>
    rw [outcome_loop, outcome_loop, round_withBudget]
    simp only [ih]
    rfl

theorem outcome_solve_withBudget (count : Nat) :
    (solve problem (o.withBudget .outer count) w history stage).outcome =
      (loop problem o stage count 0 ⟨w, w.violation, 0, none, history⟩).outcome := by
  simp only [solve, Run.outcome_bind, Run.outcome_ofExcept]
  exact outcome_loop_withBudget count count 0 _

/-- Where a loop goes on from a result. -/
def Result.resume (r : Result α n m p q) : Iterate α n m p q :=
  ⟨r.workspace, r.workspace.violation, r.innerIterations, r.decrease, r.history⟩

/-- A loop with the sum of two budgets goes on from where the first one is used up. -/
theorem outcome_loop_add (a b done : Nat) {s : Iterate α n m p q}
    (hs : s.previous = s.workspace.violation) :
    (loop problem o stage (a + b) done s).outcome =
      (loop problem o stage a done s).outcome >>= fun r =>
        if r.status = .solved then .ok r
        else (loop problem o stage b r.iterations r.resume).outcome := by
  induction a generalizing done s with
  | zero =>
    have hresume : (s.result .maxIterations done).resume = s := by
      rw [Iterate.result, Result.resume, ← hs]
    rw [Nat.zero_add]
    show _ = (loop problem o stage b done (s.result .maxIterations done).resume).outcome
    rw [hresume]
  | succ a ih =>
    rw [Nat.add_right_comm, outcome_loop, outcome_loop]
    cases round problem o s.workspace with
    | error e => rfl
    | ok x =>
      simp only [ok_bind]
      cases (s.history.append stage x.snapshot : Except (Error α) _) with
      | error e => rfl
      | ok history =>
        simp only [ok_bind]
        cases hends : x.ends o with
        | true => rfl
        | false =>
          refine ih (done + 1) ?_
          simp only [Iterate.next, hends]
          rfl

/-- A history that keeps everything is only added to. -/
theorem entries_prefix_of_loop {left done : Nat} {s : Iterate α n m p q}
    (hkeeps : s.history.keepsAll = true) (h : (loop problem o stage left done s).outcome = .ok r) :
    s.history.entries <+: r.history.entries := by
  let Grown (t : Iterate α n m p q) : Prop :=
    s.history.entries <+: t.history.entries ∧ t.history.keepsAll = true
  have hnext : ∀ t (x : Round α n m p q) history, Grown t →
      (t.history.append stage x.snapshot : Except (Error α) _) = .ok history →
      Grown (t.next problem o x history) := by
    rintro t x history ⟨hentries, hkeeps⟩ happend
    change ((t.history.extend stage []).append stage _ : Except (Error α) _) = _ at happend
    obtain rfl : history = t.history.extend stage [x.snapshot] :=
      History.eq_extend_of_append happend
    refine ⟨?_, by simpa [Iterate.next] using hkeeps⟩
    rw [Iterate.next, History.entries_extend hkeeps]
    exact hentries.trans (List.prefix_append _ _)
  obtain ⟨t, ht, hr, -⟩ := loop_induction (fun _ => Grown) (fun _ t _ => Grown t)
    (fun _ t x history hgrown _ happend _ => hnext t x history hgrown happend)
    (fun _ t x history hgrown _ happend _ => hnext t x history hgrown happend)
    (fun _ _ hgrown => hgrown) [] h ⟨List.prefix_rfl, hkeeps⟩
  rw [hr]
  exact ht.1

/-- The run with the larger budget goes on from the result of the other one. -/
theorem outcome_solve_add {a : Nat} (c : Nat)
    (h : (solve problem (o.withBudget .outer a) w history stage).outcome = .ok r) :
    (solve problem (o.withBudget .outer (a + c)) w history stage).outcome =
      if r.status = .solved then .ok r
      else (loop problem o stage c r.iterations r.resume).outcome := by
  rw [outcome_solve_withBudget] at h ⊢
  rw [outcome_loop_add a c 0 rfl, h]
  rfl

/-- A history that keeps everything begins with that of the run with a smaller budget. -/
theorem entries_prefix_of_le {a b : Nat} (hab : a ≤ b) (hkeeps : history.keepsAll = true)
    {r' : Result α n m p q}
    (h : (solve problem (o.withBudget .outer a) w history stage).outcome = .ok r)
    (h' : (solve problem (o.withBudget .outer b) w history stage).outcome = .ok r') :
    r.history.entries <+: r'.history.entries := by
  obtain ⟨c, rfl⟩ := Nat.exists_eq_add_of_le hab
  have hkept : r.resume.history.keepsAll = true := by
    show r.history.keepsAll = true
    rw [history_of_solve h, History.keepsAll_extend, hkeeps]
  rw [outcome_solve_add c h] at h'
  split at h'
  · cases h'
    exact List.prefix_rfl
  · exact entries_prefix_of_loop hkept h'

/-- The capacity of a history makes no difference to a run that it has room for. -/
theorem outcome_solve_withCapacity (capacity : Int)
    (hroom : history.HasRoom stage (o.budgetNat .outer))
    (hroom' : ({ history with capacity } : History _).HasRoom stage (o.budgetNat .outer))
    (h : (solve problem o w history stage).outcome = .ok r) :
    (solve problem o w { history with capacity } stage).outcome =
      .ok { r with history := { r.history with capacity } } := by
  have hagree : Agree (Alike history { history with capacity } stage)
      (solve problem o w history stage).outcome
      (solve problem (o.withReport o.verbose o.cache) w { history with capacity } stage).outcome :=
    agree_solve hroom hroom'
  rw [h] at hagree
  obtain ⟨r', hr', hsame, es, hhistory, hhistory'⟩ := hagree.exists_ok
  rw [History.extend_withCapacity, ← hhistory] at hhistory'
  rw [hhistory'] at hsame
  rw [← hsame]
  exact hr'

end Outer

/-- A larger budget only lets a run go on. An inner run that stops within the smaller budget is the
same with the larger one, and one that does not stop goes on to a cost that is not larger. The
history of an outer run begins with that of the run with the smaller budget, and the runs are the
same if that one is solved. -/
theorem solve_withBudget [LawfulScalar α] {a b : Nat} (hab : a ≤ b) :
    (∀ (aim : Aim α n m) (path : Path α n m) (r : Descent.Result α n m),
      (Descent.solve (o.withBudget .iterations a) aim path).outcome = .ok r →
      (r.status ≠ .maxIterations →
        (Descent.solve (o.withBudget .iterations b) aim path).outcome = .ok r) ∧
      (0 < o.c1 → Arith.isNumber (aim.cost path) = true →
        (∃ r', (Descent.solve (o.withBudget .iterations b) aim path).outcome = .ok r' ∧
          r'.final.cost ≤ r.final.cost) ∨
        ∃ e, (Descent.solve (o.withBudget .iterations b) aim path).outcome = .error e ∧
          o.Interrupts e)) ∧
    ∀ (problem : StageProblem α n m p q) (w : Workspace α n m p q)
      (history history' : History (Snapshot α)) (stage : Stage) (r : Outer.Result α n m p q),
      history' = { history with capacity := history'.capacity } → history.keepsAll = true →
      history.HasRoom stage a → history'.HasRoom stage b →
      (Outer.solve problem (o.withBudget .outer a) w history stage).outcome = .ok r →
      (r.status = .solved →
        (Outer.solve problem (o.withBudget .outer b) w history' stage).outcome =
          .ok { r with history := { r.history with capacity := history'.capacity } }) ∧
      ((∃ r', (Outer.solve problem (o.withBudget .outer b) w history' stage).outcome = .ok r' ∧
          r.history.entries <+: r'.history.entries) ∨
        ∃ e, (Outer.solve problem (o.withBudget .outer b) w history' stage).outcome = .error e ∧
          o.Interrupts e) := by
  constructor
  · intro aim path r h
    refine ⟨Descent.outcome_solve_of_le hab h, fun hc1 hcost => ?_⟩
    cases h' : (Descent.solve (o.withBudget .iterations b) aim path).outcome with
    | ok r' => exact .inl ⟨r', rfl, Descent.cost_le_of_le hc1 hab hcost h h'⟩
    | error e =>
      exact .inr ⟨e, rfl, Options.interrupts_of_withBudget (Descent.interrupts_of_solve h')⟩
  · intro problem w history history' stage r hhistory hkeeps hroom hroom' h
    -- The run with the smaller budget is the same with the other capacity.
    have hsmall := Outer.outcome_solve_withCapacity history'.capacity hroom
      (by rw [← hhistory]; exact hroom'.mono hab) h
    rw [← hhistory] at hsmall
    have hkeeps' : history'.keepsAll = true := by
      rw [hhistory]
      exact hkeeps
    constructor
    · intro hsolved
      obtain ⟨c, rfl⟩ := Nat.exists_eq_add_of_le hab
      rw [Outer.outcome_solve_add c hsmall]
      exact if_pos hsolved
    · cases h' : (Outer.solve problem (o.withBudget .outer b) w history' stage).outcome with
      | ok r' =>
        have hprefix := Outer.entries_prefix_of_le hab hkeeps' hsmall h'
        exact .inl ⟨r', rfl, hprefix⟩
      | error e =>
        exact .inr ⟨e, rfl, Options.interrupts_of_withBudget (Outer.interrupts_of_solve hroom' h')⟩

namespace PointMass

/-- The inner solve of the point mass, with a budget. -/
def budgetedDescent (count : Nat) : Except (Error Float) (Descent.Result Float 2 1) :=
  (Descent.solve (Options.standard.withBudget .iterations count)
    (Lagrangian.aim ⟨solver.bound.problem, controlStart.multipliers⟩) controlStart.path).outcome

/-- Two iterations are enough on both levels, whatever the history has room for apart from them. A
single one is not, and ends in a cost that is not smaller. -/
theorem withBudget_of_controlStart : 1 ≤ 2 ∧ 2 ≤ 50 ∧
    (∃ r₁ r, budgetedDescent 1 = .ok r₁ ∧ r₁.status = .maxIterations ∧
      budgetedDescent 2 = .ok r ∧ r.status ≠ .maxIterations ∧ budgetedDescent 50 = .ok r ∧
      r.final.cost ≤ r₁.final.cost) ∧
    ∃ r, (Outer.solve solver.bound.problem (Options.standard.withBudget .outer 2) controlStart
        (.empty 2 true) .feasible).outcome = .ok r ∧ r.status = .solved ∧
      (Outer.solve solver.bound.problem (Options.standard.withBudget .outer 50) controlStart
        (.empty 50 true) .feasible).outcome =
          .ok { r with history := { r.history with capacity := 50 } } := by
  have hsingle : (budgetedDescent 1).toOption.any
      (fun r => decide (r.status = .maxIterations)) = true := by decide +kernel
  have hinner : (budgetedDescent 2).toOption.any
      (fun r => decide (r.status ≠ .maxIterations)) = true := by decide +kernel
  have houter : (Outer.solve solver.bound.problem (Options.standard.withBudget .outer 2)
      controlStart (.empty 2 true) .feasible).outcome.toOption.any
        (fun r => decide (r.status = .solved)) = true := by decide +kernel
  obtain ⟨r₁, hr₁, hsingle⟩ := exists_ok_of_any hsingle
  obtain ⟨r, hr, hstatus⟩ := exists_ok_of_any hinner
  obtain ⟨r', hr', hsolved⟩ := exists_ok_of_any houter
  have hcost : r.final.cost ≤ r₁.final.cost := by
    obtain ⟨hgrown, -⟩ := solve_withBudget (o := .standard) (p := 0) (q := 0)
      (show 1 ≤ 2 by decide)
    obtain ⟨r₂, hr₂, hle⟩ | ⟨e, he, -⟩ :=
      (hgrown _ _ r₁ hr₁).2 (by decide +kernel) (by decide +kernel)
    · cases hr.symm.trans hr₂
      exact hle
    · cases hr.symm.trans he
  obtain ⟨hinner, houter⟩ := solve_withBudget (o := .standard) (show 2 ≤ 50 by decide)
  refine ⟨by decide, by decide, ⟨r₁, r, hr₁, of_decide_eq_true hsingle, hr,
    of_decide_eq_true hstatus, ?_, hcost⟩, r', hr', of_decide_eq_true hsolved, ?_⟩
  · exact (hinner _ _ r hr).1 (of_decide_eq_true hstatus)
  · exact (houter _ _ (.empty 2 true) (.empty 50 true) _ r' rfl rfl
      (History.hasRoom_of_length (by decide)) (History.hasRoom_of_length (by decide)) hr').1
      (of_decide_eq_true hsolved)

end PointMass

end TrajOpt
