import TrajOpt.Proofs.Solve.Soundness

/-!
# Convergence on both levels

The outer loop ends on a small violation and a small decrease, and does not ask how its inner solve
ended. An inner solve that ends without success may have taken steps before, the last of which left
its decrease behind. That step did not end the inner solve, so its decrease was not below the
tolerance that belongs to its path. On a path that is feasible enough for the outer loop this is
the tolerance for feasible paths, so unless that one is smaller than the tolerance of the outer
loop, the outer loop does not end there.

## Main definitions

* `Descent.Iterate.GoesOn` - the last step is no reason to stop.

## Main statements

* `Descent.goesOn_of_solve` - a run that ends without success ends where it could have gone on.
* `Outer.status_of_ends` - a round that may end the outer loop had a successful inner solve.
* `Outer.inner_solved_of_solved` - the outer loop is solved only if its last inner solve is.
-/

namespace TrajOpt

variable {α : Type} [Scalar α] {n m p q : Nat} {o : Options α}

namespace Descent

variable {aim : Aim α n m}

/-- The decrease of the last step, if there was one, is not below the tolerance for its path. -/
def Iterate.GoesOn (o : Options α) (aim : Aim α n m) (s : Iterate α n m) : Prop :=
  ∀ d, s.decrease = some d → ¬ d < tolerance o (aim.violation s.path)

/-- Unless a run stops with success, each move leaves an iterate that it could go on from. -/
theorem Iterate.GoesOn.carryOut {s t : Iterate α n m} {reg : Regularization α} {mv : Move α n m}
    {stop : Option Status} (hs : s.GoesOn o aim) (hcarry : mv.carryOut o aim s reg = (t, stop))
    (hstop : stop ≠ some .solved) : t.GoesOn o aim := by
  cases mv with
  | stuck gains =>
    cases hcarry
    exact hs
  | stationary gains =>
    cases hcarry
    exact absurd rfl hstop
  | rejected gains =>
    -- The iterate keeps the path and the decrease of an earlier step.
    cases hcarry
    exact hs
  | taken gains step =>
    obtain ⟨rfl, rfl⟩ := Prod.mk.inj hcarry
    rintro d ⟨⟩ hlt
    exact hstop (if_pos (.inl hlt))

theorem goesOn_of_solve {path : Path α n m} {r : Result α n m}
    (h : (solve o aim path).outcome = .ok r) (hstatus : r.status ≠ .solved) :
    r.final.GoesOn o aim := by
  have hrun := loop_induction (fun _ s => s.GoesOn o aim)
    (fun _ t status => status ≠ .solved → t.GoesOn o aim)
    (fun _ _ _ _ _ hs _ hcarry => hs.carryOut hcarry nofun)
    (fun _ _ _ _ _ _ hs _ hcarry hstatus => hs.carryOut hcarry fun h => hstatus (Option.some.inj h))
    (fun _ _ hs _ => hs) [] h nofun
  exact hrun.1 hstatus

end Descent

namespace Outer

variable [LawfulScalar α] {problem : StageProblem α n m p q} {w : Workspace α n m p q}
  {history : History (Snapshot α)} {stage : Stage} {r : Result α n m p q}

/-- The inner solve of a round that may end the loop was successful. -/
theorem status_of_ends (htolerance : o.eps ≤ o.costTolerance) {x : Round α n m p q}
    (h : round problem o w = .ok x) (hends : x.ends o = true) : x.inner.status = .solved := by
  obtain ⟨inner, hinner, rfl⟩ := round_eq_ok.1 h
  obtain ⟨hviolation, d, hd, hlt⟩ := meets_eq_true.1 hends
  by_contra hstatus
  refine Descent.goesOn_of_solve hinner hstatus d hd ?_
  have hfeasible : (Lagrangian.aim ⟨problem, w.multipliers⟩).violation inner.final.path <
      o.epsConstraint := hviolation
  rw [Descent.tolerance, if_pos hfeasible]
  exact Arith.lt_of_lt_of_le hlt htolerance

/-- If the outer loop reports success, so did the inner solve of its last round, from which it has
its workspace and the last entry of its history. -/
theorem inner_solved_of_solved (htolerance : o.eps ≤ o.costTolerance)
    (h : (solve problem o w history stage).outcome = .ok r) (hsolved : r.status = .solved) :
    ∃ v inner, (descend problem o v).outcome = .ok inner ∧ inner.status = .solved ∧
      r.workspace = .ofPath problem inner.final.path v.multipliers inner.final.gains ∧
      (solveRounds problem o w).getLast? = some ⟨inner, r.workspace⟩ ∧
      r.history.entries.getLast? =
        some (stage, r.workspace.snapshot inner.iterations inner.status) := by
  obtain ⟨t, ht, hr, -⟩ := solve_induction (fun _ _ => True)
    (fun xs t status => status = .solved → ∃ v x, round problem o v = .ok x ∧
      x.ends o = true ∧ xs.getLast? = some x ∧ t.workspace = x.workspace)
    (fun _ _ _ _ _ _ _ _ => trivial)
    (fun _ s x _ _ hround _ hends _ =>
      ⟨s.workspace, x, hround, hends, List.getLast?_concat .., if_pos hends⟩)
    (fun _ _ _ => nofun) h trivial
  obtain ⟨v, x, hround, hends, hlast, hworkspace⟩ := ht hsolved
  have hstatus := status_of_ends htolerance hround hends
  have hentry : r.history.entries.getLast? = some (stage, x.snapshot) := by
    rw [history_of_solve h]
    exact History.getLast?_entries_extend (by simp [hlast])
  have hw : r.workspace = x.workspace := by
    rw [hr]
    exact hworkspace
  obtain ⟨inner, hinner, rfl⟩ := round_eq_ok.1 hround
  rw [hw]
  exact ⟨v, inner, hinner, hstatus, rfl, hlast, hentry⟩

end Outer

/-- The point mass is solved on both levels. -/
theorem PointMass.inner_solved_of_controlStart :
    (Options.standard : Options Float).eps ≤ Options.costTolerance .standard ∧
    ∃ r v inner, (Outer.solve solver.bound.problem .standard controlStart (.empty 50 true)
        .feasible).outcome = .ok r ∧ r.status = .solved ∧
      (Outer.descend solver.bound.problem .standard v).outcome = .ok inner ∧
      inner.status = .solved ∧
      r.history.entries.getLast? =
        some (.feasible, r.workspace.snapshot inner.iterations inner.status) := by
  have hrun : (Outer.solve solver.bound.problem .standard controlStart (.empty 50 true)
      .feasible).outcome.toOption.any (fun r => decide (r.status = .solved)) = true := by
    decide +kernel
  obtain ⟨r, hr, hstatus⟩ := exists_ok_of_any hrun
  have hsolved := of_decide_eq_true hstatus
  have htolerance : (Options.standard : Options Float).eps ≤ Options.costTolerance .standard := by
    decide +kernel
  obtain ⟨v, inner, hinner, hstatus, -, -, hentry⟩ :=
    Outer.inner_solved_of_solved htolerance hr hsolved
  exact ⟨htolerance, r, v, inner, hr, hsolved, hinner, hstatus, hentry⟩

end TrajOpt
