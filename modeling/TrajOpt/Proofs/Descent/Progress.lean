import TrajOpt.Proofs.Descent.Moves
import TrajOpt.Proofs.Scalar.Double

/-!
# Progress of the inner solver

A step is accepted only if the cost decreases by a positive fraction of a positive number, so along
a run the cost falls with every step that is taken and does not change otherwise. What the solver
returns as the decrease of its last iteration thus tells three ways to end apart: zero after the
gradient test, nothing if there was no step, and a positive number in all other cases.

## Main definitions

* `Descent.Progress` - what the moves so far have achieved.

## Main statements

* `Descent.tryStep_decreases` - an accepted step decreases the cost.
* `Descent.solve_progress` - the cost and the decrease at the end of a run.
-/

namespace TrajOpt

namespace Descent

/-- Whether the move is a step. -/
def Move.isTaken {α : Type} {n m : Nat} : Move α n m → Bool
  | taken _ _ => true
  | _ => false

/-- Whether the gradient test ended the solve with this move. -/
def Move.isStationary {α : Type} {n m : Nat} : Move α n m → Bool
  | stationary _ => true
  | _ => false

/-- Whether the moves end with the gradient test. -/
def endsStationary {α : Type} {n m : Nat} (ms : List (Move α n m)) : Bool :=
  ms.getLast?.any Move.isStationary

@[simp] theorem endsStationary_concat {α : Type} {n m : Nat} (ms : List (Move α n m))
    (mv : Move α n m) : endsStationary (ms ++ [mv]) = mv.isStationary := by
  simp [endsStationary]

variable {α : Type} [Scalar α] {n m : Nat} {o : Options α} {aim : Aim α n m}
  {path : Path α n m} {s t : Iterate α n m} {ms : List (Move α n m)} {mv : Move α n m}

theorem not_isStationary_of_carryOut {reg : Regularization α}
    (h : mv.carryOut o aim s reg = (t, none)) : mv.isStationary = false := by
  cases mv <;> simp_all [Move.carryOut, Move.isStationary]

section Counting

theorem length_moves_le (budget : Nat) (s : Iterate α n m) :
    (moves o aim budget s).length ≤ budget := by
  induction budget generalizing s with
  | zero => simp [moves]
  | succ budget ih =>
    unfold moves
    split
    · simp
    · split
      · simp
      · next t _ => simpa using ih t

theorem length_moves_pos {budget : Nat} {r : Result α n m} (hbudget : 0 < budget)
    (h : (loop o aim budget 0 s).outcome = .ok r) : 0 < (moves o aim budget s).length := by
  obtain ⟨budget, rfl⟩ := Nat.exists_eq_add_one.2 hbudget
  rw [outcome_loop, bind_eq_ok] at h
  obtain ⟨⟨reg, mv⟩, hmv, -⟩ := h
  rcases hcarry : mv.carryOut o aim s reg with ⟨t, _ | status⟩ <;> simp [moves, hmv, hcarry]

end Counting

/-- What the moves from a path of the given cost have achieved when they led to an iterate. -/
structure Progress (path : Path α n m) (cost : α) (ms : List (Move α n m)) (s : Iterate α n m) :
    Prop where
  /-- Without a step nothing changes. -/
  unchanged : ms.any Move.isTaken = false → s.path = path ∧ s.cost = cost
  /-- Every step leaves something finite and cheaper. -/
  improved : ms.any Move.isTaken = true →
    s.path.isFinite = true ∧ Scalar.isFinite s.cost = true ∧ s.cost < cost
  stationary : endsStationary ms = true → s.decrease = some 0
  missing : endsStationary ms = false → ms.any Move.isTaken = false → s.decrease = none
  positive : endsStationary ms = false → ms.any Move.isTaken = true →
    ∃ d, s.decrease = some d ∧ 0 < d ∧ Scalar.isFinite d = true

section Account

variable {cost : α}

/-- A move that is neither a step nor the gradient test changes nothing that is accounted for. -/
theorem Progress.wait (h : Progress path cost ms s)
    (hgoing : endsStationary ms = false) (htaken : mv.isTaken = false)
    (hstationary : mv.isStationary = false) (hpath : t.path = s.path) (hcost : t.cost = s.cost)
    (hdecrease : t.decrease = s.decrease) : Progress path cost (ms ++ [mv]) t := by
  have hany : (ms ++ [mv]).any Move.isTaken = ms.any Move.isTaken := by simp [htaken]
  constructor
  · rw [hany, hpath, hcost]
    exact h.unchanged
  · rw [hany, hpath, hcost]
    exact h.improved
  · simp [hstationary]
  · rw [hany, hdecrease]
    exact fun _ => h.missing hgoing
  · rw [hany, hdecrease]
    exact fun _ => h.positive hgoing

/-- Without the gradient test the decrease is positive, if there is one. -/
theorem Progress.pos (h : Progress path cost ms s) {d : α} (hd : s.decrease = some d)
    (hends : endsStationary ms = false) : 0 < d ∧ Scalar.isFinite d = true := by
  cases htaken : ms.any Move.isTaken with
  | false => exact absurd (h.missing hends htaken) (by simp [hd])
  | true =>
    obtain ⟨e, he, hpos, hfinite⟩ := h.positive hends htaken
    obtain rfl : e = d := by simpa [hd] using he.symm
    exact ⟨hpos, hfinite⟩

theorem Progress.decrease_eq_none (h : Progress path cost ms s) :
    s.decrease = none ↔ ms.any Move.isTaken = false ∧ endsStationary ms = false := by
  refine ⟨fun hnone => ?_, fun hms => h.missing hms.2 hms.1⟩
  have hends : endsStationary ms = false := by
    by_contra hends
    exact absurd (h.stationary (by simpa using hends)) (by simp [hnone])
  refine ⟨?_, hends⟩
  by_contra htaken
  obtain ⟨d, hd, -⟩ := h.positive hends (by simpa using htaken)
  exact absurd hd (by simp [hnone])

variable [LawfulScalar α]

/-- The cost of an iterate is at most that of the start, below which every step takes it. -/
theorem Progress.lt_of_lt {a : α} (h : Progress path cost ms s) (ha : a < s.cost) :
    a < cost := by
  cases htaken : ms.any Move.isTaken with
  | false => rwa [← (h.unchanged htaken).2]
  | true => exact Arith.lt_trans ha (h.improved htaken).2.2

theorem Progress.lt_iff (h : Progress path cost ms s) :
    s.cost < cost ↔ ms.any Move.isTaken = true := by
  refine ⟨fun hlt => ?_, fun htaken => (h.improved htaken).2.2⟩
  by_contra htaken
  rw [(h.unchanged (by simpa using htaken)).2] at hlt
  exact Arith.lt_irrefl _ hlt

theorem Progress.le (h : Progress path cost ms s) (hcost : Arith.isNumber cost = true) :
    s.cost ≤ cost := by
  cases htaken : ms.any Move.isTaken with
  | true => exact Arith.le_of_lt (h.lt_iff.2 htaken)
  | false =>
    rw [(h.unchanged htaken).2]
    exact of_decide_eq_true hcost

theorem Progress.decrease_eq_zero (h : Progress path cost ms s) :
    s.decrease = some 0 ↔ endsStationary ms = true := by
  refine ⟨fun hzero => ?_, h.stationary⟩
  by_contra hends
  exact Arith.lt_irrefl _ (h.pos hzero (by simpa using hends)).1

theorem Progress.nonneg (h : Progress path cost ms s) {d : α} (hd : s.decrease = some d) :
    0 ≤ d := by
  cases hends : endsStationary ms with
  | false => exact Arith.le_of_lt (h.pos hd hends).1
  | true =>
    obtain rfl : 0 = d := by simpa [hd] using (h.stationary hends).symm
    exact of_decide_eq_true LawfulScalar.isNumber_zero

end Account

variable [LawfulScalar α]

/-- An accepted step decreases the cost, by a finite amount. -/
theorem tryStep_decreases {cost size : α} {sweep : Riccati.Sweep α n m} {step : Step α n m}
    (hc1 : 0 < o.c1) (h : tryStep o aim path cost sweep size = some step) :
    0 < cost - step.cost ∧ Scalar.isFinite (cost - step.cost) = true ∧ step.cost < cost := by
  obtain ⟨-, -, -, -, hexpected, hlow, hhigh⟩ := tryStep_eq_some h
  have hquotient : 0 < (cost - step.cost) / -sweep.expectedChange size := Arith.lt_trans hc1 hlow
  have hnumber := LawfulScalar.isNumber_of_div (Arith.isNumber_of_lt_right hquotient)
  have hpos : 0 < -sweep.expectedChange size :=
    Arith.lt_of_not_le hnumber.2 LawfulScalar.isNumber_zero hexpected
  have hdecrease : 0 < cost - step.cost := LawfulScalar.pos_of_div_pos hpos hquotient
  exact ⟨hdecrease, LawfulScalar.isFinite_of_div_lt hdecrease hpos hhigh,
    Arith.lt_of_sub_pos hdecrease⟩

/-- Every move keeps the account. -/
theorem Progress.carryOut {cost : α} {reg : Regularization α} (hc1 : 0 < o.c1)
    (h : Progress path cost ms s) (hgoing : endsStationary ms = false)
    (hmv : move o aim s = .ok (reg, mv)) :
    Progress path cost (ms ++ [mv]) (mv.carryOut o aim s reg).1 := by
  -- Only the gradient test and a step touch what is accounted for.
  cases mv with
  | stuck gains => exact h.wait hgoing rfl rfl rfl rfl rfl
  | rejected gains => exact h.wait hgoing rfl rfl rfl rfl rfl
  | stationary gains =>
    have hany : (ms ++ [Move.stationary gains]).any Move.isTaken = ms.any Move.isTaken := by
      simp [Move.isTaken]
    constructor
    · rw [hany]
      exact h.unchanged
    · rw [hany]
      exact h.improved
    · exact fun _ => rfl
    · simp [Move.isStationary]
    · simp [Move.isStationary]
  | taken gains step =>
    obtain ⟨sweep, size, -, hstep⟩ := move_taken hmv
    obtain ⟨-, -, hpath, hcost, -⟩ := tryStep_eq_some hstep
    obtain ⟨hdecrease, hfinite, hlt⟩ := tryStep_decreases hc1 hstep
    constructor
    · simp [Move.isTaken]
    · exact fun _ => ⟨hpath, hcost, h.lt_of_lt hlt⟩
    · simp [Move.isStationary]
    · simp [Move.isTaken]
    · exact fun _ _ => ⟨_, rfl, hdecrease, hfinite⟩

theorem progress_of_solve {r : Result α n m} (hc1 : 0 < o.c1)
    (h : (solve o aim path).outcome = .ok r) :
    Progress path (aim.cost path) (solveMoves o aim path) r.final ∧
      r.iterations = (solveMoves o aim path).length := by
  have hstart : Progress path (aim.cost path) [] (start o aim path) := by
    constructor <;> simp [start, endsStationary]
  have hrun := loop_induction
    (fun ms s => Progress path (aim.cost path) ms s ∧ endsStationary ms = false)
    (fun ms t _ => Progress path (aim.cost path) ms t) ?_ ?_ (fun _ _ hs => hs.1) [] h
    ⟨hstart, rfl⟩
  · simpa [solveMoves] using hrun
  · intro ms s reg mv t hs hmv hcarry
    have hnext := hs.1.carryOut hc1 hs.2 hmv
    rw [hcarry] at hnext
    exact ⟨hnext, by rw [endsStationary_concat, not_isStationary_of_carryOut hcarry]⟩
  · intro ms s reg mv t status hs hmv hcarry
    have hnext := hs.1.carryOut hc1 hs.2 hmv
    rwa [hcarry] at hnext

/-- The run of the inner solver from a path of the dynamics. However it ends, it ends in a path of
the dynamics from the same state, which is not more expensive, and cheaper exactly if a step was
taken. The decrease it returns is zero after the gradient test, missing if there was neither a step
nor a gradient test, and a positive number otherwise. -/
theorem solve_progress {r : Result α n m} (hc1 : 0 < o.c1)
    (hbudget : 0 < o.budgetNat .iterations) (hpath : path.IsRollout aim.step)
    (hcost : Arith.isNumber (aim.cost path) = true) (h : (solve o aim path).outcome = .ok r) :
    (r.final.path.IsRollout aim.step ∧ r.final.path.first = path.first) ∧
    (r.final.cost = aim.cost r.final.path ∧ r.final.cost ≤ aim.cost path) ∧
    (r.final.cost < aim.cost path ↔ (solveMoves o aim path).any Move.isTaken = true) ∧
    ((solveMoves o aim path).any Move.isTaken = false → r.final.path = path) ∧
    ((solveMoves o aim path).any Move.isTaken = true →
      r.final.path.isFinite = true ∧ Scalar.isFinite r.final.cost = true) ∧
    (r.final.decrease = some 0 ↔ endsStationary (solveMoves o aim path) = true) ∧
    (r.final.decrease = none ↔
      (solveMoves o aim path).any Move.isTaken = false ∧
        endsStationary (solveMoves o aim path) = false) ∧
    (∀ d, r.final.decrease = some d → endsStationary (solveMoves o aim path) = false →
      0 < d ∧ Scalar.isFinite d = true) ∧
    r.iterations = (solveMoves o aim path).length ∧
    1 ≤ r.iterations ∧ r.iterations ≤ o.budgetNat .iterations := by
  obtain ⟨hrollout, hfirst, hvalue⟩ := solve_isRollout hpath h
  obtain ⟨hprogress, hcount⟩ := progress_of_solve hc1 h
  have hpositive : 1 ≤ r.iterations := hcount ▸ length_moves_pos hbudget h
  have hbounded : r.iterations ≤ o.budgetNat .iterations := hcount ▸ length_moves_le _ _
  refine ⟨⟨hrollout, hfirst⟩, ⟨hvalue, hprogress.le hcost⟩, hprogress.lt_iff,
    fun htaken => (hprogress.unchanged htaken).1, fun htaken => ?_, hprogress.decrease_eq_zero,
    hprogress.decrease_eq_none, fun d hd hends => hprogress.pos hd hends, hcount, hpositive,
    hbounded⟩
  obtain ⟨hfinite, hcost, -⟩ := hprogress.improved htaken
  exact ⟨hfinite, hcost⟩

/-- The integrator `x + u` with half the squares of the controls and of the final state as cost. -/
def integrator : Aim Float 1 1 where
  step x u := x + u
  cost path := (path.controls.map (Mat.identity 1).halfForm).sum +
    (Mat.identity 1).halfForm path.final
  expand path := ⟨path.controls.map fun u =>
    { lx := Vec.zero 1, lu := u, lxx := Mat.zero 1 1, luu := Mat.identity 1, lux := Mat.zero 1 1,
      A := Mat.identity 1, B := Mat.identity 1 }, path.final, Mat.identity 1⟩
  violation _ := 0

/-- The integrator left alone at a distance from the origin. -/
def integratorStart : Path Float 1 1 := Path.rollout integrator.step #v[1] [#v[0]]

theorem progress_of_integrator : ∃ r, (solve .standard integrator integratorStart).outcome = .ok r ∧
    r.final.path.IsRollout integrator.step ∧ r.final.path.first = integratorStart.first ∧
    r.final.cost ≤ integrator.cost integratorStart ∧ 1 ≤ r.iterations := by
  have hrun : (solve .standard integrator integratorStart).outcome.toOption.any
      (fun r => decide (r.status = .solved)) = true := by decide +kernel
  obtain ⟨r, hr, -⟩ := exists_ok_of_any hrun
  have hc1 : 0 < (Options.standard : Options Float).c1 := by decide +kernel
  have hbudget : 0 < (Options.standard : Options Float).budgetNat .iterations := by decide
  have hcost : Arith.isNumber (integrator.cost integratorStart) = true := by decide +kernel
  obtain ⟨⟨hrollout, hfirst⟩, ⟨-, hle⟩, -, -, -, -, -, -, -, hpositive, -⟩ :=
    solve_progress hc1 hbudget (Path.isRollout_rollout _ _ _) hcost hr
  exact ⟨r, hr, hrollout, hfirst, hle, hpositive⟩

end Descent

end TrajOpt
