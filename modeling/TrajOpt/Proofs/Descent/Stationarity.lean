import TrajOpt.Proofs.Descent.Progress
import TrajOpt.Proofs.Options
import TrajOpt.Proofs.Solve.Coherence

/-!
# The gradient test

The gradient test looks at the gains of the backward pass of the iteration, with the regularization
that this pass has needed or that earlier iterations have left. Regularization damps the gains, so a
path that passes the test need not be stationary: the test speaks of the weight that the run ends
with, and only where that is zero of the gains without regularization.

## Main definitions

* `Regularization.IsFloored` - weights that the schedule leads to.
* `Descent.Iterate.PassesTest` - an iterate that passes the test with its own regularization.

## Main statements

* `Descent.passesTest_of_solve`, `Descent.stationary_of_solve` - what holds of a run that the
  gradient test ends.
* `PointMass.not_stationary_of_regularized` - a path that passes the test and is not stationary.
-/

namespace TrajOpt

namespace Regularization

variable {α : Type} [Scalar α] {o : Options α}

/-- The weight is zero, or not below the smallest one. -/
def IsFloored (o : Options α) (r : Regularization α) : Prop := r.weight = 0 ∨ ¬ r.weight < o.regMin

theorem isFloored_increase [LawfulScalar α] (r : Regularization α) :
    (r.increase o).IsFloored o := by
  exact .inr (Arith.not_larger_lt _ _)

theorem isFloored_decrease (r : Regularization α) : (r.decrease o).IsFloored o := by
  unfold IsFloored
  simp only [decrease]
  split
  next => exact .inl rfl
  next h => exact .inr h

end Regularization

namespace Descent

variable {α : Type} [Scalar α] {n m : Nat} {o : Options α} {aim : Aim α n m}

/-- The iterate has the gains of a backward pass with its own regularization, and they ask for
hardly any change. -/
def Iterate.PassesTest (o : Options α) (aim : Aim α n m) (s : Iterate α n m) : Prop :=
  ∃ sweep, Riccati.backwardPass (aim.expand s.path) s.reg.weight = some sweep ∧
    s.gains = sweep.gains ∧ gradient sweep.gains s.path < o.gradientTolerance

theorem passesTest_carryOut {s : Iterate α n m} {reg : Regularization α} {mv : Move α n m}
    (h : move o aim s = .ok (reg, mv)) (hstationary : mv.isStationary = true) :
    (mv.carryOut o aim s reg).2 = some .solved ∧
      (mv.carryOut o aim s reg).1.PassesTest o aim := by
  cases mv with
  | stationary gains =>
    obtain ⟨sweep, hpass, rfl, hgradient⟩ := move_stationary h
    exact ⟨rfl, sweep, hpass, rfl, hgradient⟩
  | stuck gains => cases hstationary
  | rejected gains => cases hstationary
  | taken gains step => cases hstationary

theorem passesTest_of_solve {path : Path α n m} {r : Result α n m}
    (h : (solve o aim path).outcome = .ok r)
    (hends : endsStationary (solveMoves o aim path) = true) :
    r.status = .solved ∧ r.final.PassesTest o aim := by
  have hrun := loop_induction (fun ms _ => endsStationary ms = false)
    (fun ms t status => endsStationary ms = true → status = .solved ∧ t.PassesTest o aim)
    ?_ ?_ ?_ [] h rfl
  · exact hrun.1 hends
  · intro ms s reg mv t _ _ hcarry
    rw [endsStationary_concat]
    exact not_isStationary_of_carryOut hcarry
  · intro ms s reg mv t status _ hmv hcarry hstationary
    rw [endsStationary_concat] at hstationary
    obtain ⟨hstatus, htest⟩ := passesTest_carryOut hmv hstationary
    rw [hcarry] at hstatus htest
    exact ⟨Option.some.inj hstatus, htest⟩
  · intro ms s hgoing hstationary
    simp [hgoing] at hstationary

theorem isFloored_of_solve [LawfulScalar α] {path : Path α n m} {r : Result α n m}
    (h : (solve o aim path).outcome = .ok r)
    (hstart : o.regInitial = 0 ∨ ¬ o.regInitial < o.regMin) : r.final.reg.IsFloored o := by
  refine solve_invariant (P := fun s => s.reg.IsFloored o) hstart ?_ h
  intro s reg mv hs hmv
  have hreg := reg_of_move (fun r _ => Regularization.isFloored_increase r) hs hmv
  exact reg_carryOut (fun r => r.IsFloored o) (fun r _ => Regularization.isFloored_increase r)
    (fun r _ => Regularization.isFloored_decrease r) hreg mv s

/-- A run that the gradient test ends as solved has passed it with the regularization that it ends
with. Where that is zero, it has passed the test without regularization. It is zero or not below the
smallest one, unless it started there. -/
theorem stationary_of_solve [LawfulScalar α] {path : Path α n m} {r : Result α n m}
    (h : (solve o aim path).outcome = .ok r)
    (hends : endsStationary (solveMoves o aim path) = true) :
    r.status = .solved ∧
      (∃ sweep, Riccati.backwardPass (aim.expand r.final.path) r.final.reg.weight = some sweep ∧
        r.final.gains = sweep.gains ∧
        gradient sweep.gains r.final.path < o.gradientTolerance) ∧
      (r.final.reg.weight = 0 → ∀ sweep,
        Riccati.backwardPass (aim.expand r.final.path) 0 = some sweep →
          gradient sweep.gains r.final.path < o.gradientTolerance) ∧
      (o.regInitial = 0 ∨ ¬ o.regInitial < o.regMin →
        r.final.reg.weight = 0 ∨ ¬ r.final.reg.weight < o.regMin) := by
  obtain ⟨hstatus, sweep, hpass, hgains, hgradient⟩ := passesTest_of_solve h hends
  refine ⟨hstatus, ⟨sweep, hpass, hgains, hgradient⟩, ?_, isFloored_of_solve h⟩
  intro hzero sweep' hpass'
  rw [hzero, hpass', Option.some.injEq] at hpass
  rwa [hpass]

end Descent

namespace PointMass

/-- The augmented Lagrangian of the point mass without constraints. -/
def unconstrained : Lagrangian Float 2 1 0 0 :=
  ⟨.ofObjective model (.unconstrained cost) 1 1, [⟨Vec.empty, Vec.empty⟩], ⟨Vec.empty, Vec.empty⟩⟩

/-- The path of a control that does not leave the point mass at rest. -/
def disturbed : Path Float 2 1 := unconstrained.problem.rollout [#v[0.5]]

theorem stationary_of_disturbed : ∃ r,
    (Descent.solve .standard unconstrained.aim disturbed).outcome = .ok r ∧ r.status = .solved ∧
      r.final.reg.weight = 0 ∧ ∀ sweep,
        Riccati.backwardPass (unconstrained.aim.expand r.final.path) 0 = some sweep →
          Descent.gradient sweep.gains r.final.path <
            (Options.standard : Options Float).gradientTolerance := by
  have hrun : (Descent.solve .standard unconstrained.aim disturbed).outcome.toOption.any
      (fun r => decide (r.final.reg.weight = 0)) = true := by
    decide +kernel
  have hends : Descent.endsStationary
      (Descent.solveMoves .standard unconstrained.aim disturbed) = true := by
    decide +kernel
  obtain ⟨r, hr, hweight⟩ := exists_ok_of_any hrun
  have hzero := of_decide_eq_true hweight
  obtain ⟨hstatus, -, htest, -⟩ := Descent.stationary_of_solve hr hends
  exact ⟨r, hr, hstatus, hzero, htest hzero⟩

/-- Options that start with a regularization against which the control Hessian is nothing. -/
def regularized : Options Float :=
  { Options.standard with iterations := .int 1, regInitial := 1e8 }

/-- With enough regularization the gradient test takes any path for stationary: without it, the
gains at the path that the solver returns ask for a change of the control. -/
theorem not_stationary_of_regularized : regularized.Accepted ∧ ∃ r sweep,
    (Descent.solve regularized unconstrained.aim disturbed).outcome = .ok r ∧
      r.status = .solved ∧
      Descent.endsStationary (Descent.solveMoves regularized unconstrained.aim disturbed) = true ∧
      Riccati.backwardPass (unconstrained.aim.expand r.final.path) 0 = some sweep ∧
      ¬ Descent.gradient sweep.gains r.final.path < regularized.gradientTolerance := by
  have haccepted : regularized.Accepted := by
    obtain ⟨_, hcheck, -⟩ := exists_ok_of_any (x := regularized.check) (f := fun _ => true)
      (by decide +kernel)
    exact Options.check_eq_ok_iff.1 hcheck
  have hrun : (Descent.solve regularized unconstrained.aim disturbed).outcome.toOption.any
      (fun r => decide (r.status = .solved) &&
        (Riccati.backwardPass (unconstrained.aim.expand r.final.path) 0).any fun sweep =>
          !decide (Descent.gradient sweep.gains r.final.path < regularized.gradientTolerance)) =
      true := by
    decide +kernel
  have hends : Descent.endsStationary
      (Descent.solveMoves regularized unconstrained.aim disturbed) = true := by
    decide +kernel
  obtain ⟨r, hr, hr'⟩ := exists_ok_of_any hrun
  obtain ⟨hstatus, htest⟩ := Bool.and_eq_true_iff.1 hr'
  obtain ⟨sweep, hsweep, hgradient⟩ := (Option.any_eq_true _ _).1 htest
  exact ⟨haccepted, r, sweep, hr, of_decide_eq_true hstatus, hends, hsweep,
    by simpa using hgradient⟩

end PointMass

end TrajOpt
