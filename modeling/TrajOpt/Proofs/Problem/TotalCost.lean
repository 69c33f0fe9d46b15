import Mathlib
import TrajOpt.Proofs.Path.Rows
import TrajOpt.Proofs.Problem.Quadratic

/-!
# The total of a quadratic cost

A quadratic cost totals a path in one go: it adds up the forms of all knots and multiplies the sum
by the time step. The problem that is built from the cost adds up the costs of the intervals, each
of which is multiplied by the time step on its own. In exact arithmetic the two agree on every path,
and both are the integral that the cost stands for.

## Main statements

* `QuadraticCost.total_eq_sum`, `QuadraticCost.total_eq_forms` - the total of a path.
* `StageProblem.HasCost.cost_eq_total` - the cost of a path in a problem with the cost.
* `QuadraticCost.total_eq_cost` - the agreement, for all states and controls.
-/

namespace TrajOpt

open Matrix

variable {n m p q N : Nat}

theorem Mat.half_bilinear (w : Mat ℝ n n) (d : Vec ℝ n) :
    0.5 * Mat.bilinear d w d = w.halfForm d := by
  rw [bilinear_eq, halfForm_eq]
  norm_num
  ring

namespace QuadraticCost

/-- The total is the sum of the costs of the intervals and the cost of the final state. -/
theorem total_eq_sum (cost : QuadraticCost ℝ n m) (path : Path ℝ n m) (dt : ℝ) :
    cost.total (path.knots.map fun k => (k.state, k.control)) path.final dt =
      (path.knots.map fun k => cost.stage k.state k.control dt).sum +
        cost.terminal path.final := by
  simp only [total, stage, List.map_map, Function.comp_def, Mat.half_bilinear]
  rw [List.sum_map_mul_right]

/-- The total over the rows of two arrays. -/
theorem total_ofRows (cost : QuadraticCost ℝ n m) (X : Mat ℝ (N + 1) n) (U : Mat ℝ N m) (dt : ℝ) :
    cost.total ((Path.ofRows X U).knots.map fun k => (k.state, k.control)) (X.get (Fin.last N)) dt =
      ∑ k, cost.stage (X.get k.castSucc) (U.get k) dt + cost.terminal (X.get (Fin.last N)) := by
  have hsum : ((Path.ofRows X U).knots.map fun k => cost.stage k.state k.control dt).sum =
      ∑ k, cost.stage (X.get k.castSucc) (U.get k) dt := by
    rw [Path.ofRows, List.map_ofFn, List.sum_ofFn]
    rfl
  rw [← hsum]
  exact cost.total_eq_sum (Path.ofRows X U) dt

/-- The cost of an interval as the integrand that it stands for. -/
theorem stage_eq_form (cost : QuadraticCost ℝ n m) (x : Vec ℝ n) (u : Vec ℝ m) (dt : ℝ) :
    cost.stage x u dt =
      ((x - cost.xf).fn ⬝ᵥ cost.Q.matrix *ᵥ (x - cost.xf).fn / 2 +
        u.fn ⬝ᵥ cost.R.matrix *ᵥ u.fn / 2 + cost.c) * dt := by
  rw [stage, Mat.halfForm_eq, Mat.halfForm_eq]

end QuadraticCost

/-- The cost of a path in a problem is the total of the cost that the problem has. -/
theorem StageProblem.HasCost.cost_eq_total {problem : StageProblem ℝ n m p q}
    {cost : QuadraticCost ℝ n m} (h : problem.HasCost cost) (path : Path ℝ n m) :
    problem.cost path =
      cost.total (path.knots.map fun k => (k.state, k.control)) path.final problem.dt := by
  rw [QuadraticCost.total_eq_sum, StageProblem.cost, h.stage, h.terminal]

/-- A positive number of intervals is all that a problem asks for if the dimensions agree. -/
theorem BoundProblem.create_of_pos {ν : Type} (model : Model ℝ n m) (o : Objective ℝ n m) (dt : ℝ)
    (hN : 0 < N) : (create model ⟨n, m, o⟩ dt N : Except (Error ν) _) =
      .ok ⟨o.p, o.q, .ofObjective model o dt N, o.isConstrained, model.fault?.or o.fault?⟩ := by
  have hcount : ¬ (N : Int) < 1 := by omega
  simp [create, hcount]

/-- For `N + 1` states and `N` controls, the total is the sum of the costs of the intervals and the
cost of the final state; written out, that is the sum of the forms of all intervals times the time
step and the form of the final state. Every problem that is built from the cost for this time step
and number of intervals has it as its cost. -/
theorem QuadraticCost.total_eq_cost (cost : QuadraticCost ℝ n m) (X : Mat ℝ (N + 1) n)
    (U : Mat ℝ N m) (dt : ℝ) :
    ∃ path, Path.ofLists? X.toList U.toList = some path ∧
      let total := cost.total (path.knots.map fun k => (k.state, k.control)) path.final dt
      let dx (x : Vec ℝ n) := Vec.fn (x - cost.xf)
      total = ∑ k, cost.stage (X.get k.castSucc) (U.get k) dt + cost.terminal (X.get (Fin.last N)) ∧
      total = (∑ k, (dx (X.get k.castSucc) ⬝ᵥ cost.Q.matrix *ᵥ dx (X.get k.castSucc) / 2 +
          Vec.fn (U.get k) ⬝ᵥ cost.R.matrix *ᵥ Vec.fn (U.get k) / 2 + cost.c)) * dt +
        dx (X.get (Fin.last N)) ⬝ᵥ cost.Qf.matrix *ᵥ dx (X.get (Fin.last N)) / 2 ∧
      ∀ (ν : Type) (model : Model ℝ n m) (o : Objective ℝ n m), o.cost = cost → 0 < N →
        ∃ bound, (BoundProblem.create model ⟨n, m, o⟩ dt N : Except (Error ν) _) = .ok bound ∧
          bound.problem.cost path = total := by
  refine ⟨Path.ofRows X U, Path.ofLists?_toList X U, cost.total_ofRows X U dt, ?_, ?_⟩
  · have htotal := cost.total_ofRows X U dt
    simp only [stage_eq_form, ← Finset.sum_mul, terminal, Mat.halfForm_eq] at htotal
    exact htotal
  · rintro ν model o rfl hN
    exact ⟨_, BoundProblem.create_of_pos model o dt hN,
      (StageProblem.hasCost_ofObjective model o dt N).cost_eq_total _⟩

/-- A cost with a control weight that is not symmetric, along two intervals. -/
theorem QuadraticCost.total_coupled :
    let cost : QuadraticCost ℝ 1 2 :=
      ⟨#v[#v[2]], #v[#v[1, -4], #v[0, 1]], #v[#v[4]], 1, #v[0], #v[1], 3⟩
    let model : Model ℝ 1 2 := ⟨⟨"dynamics", .pure, true, 1,
      ⟨"f", .any, true, true, none, .returns .vector [.add (.entry 0 0) (.entry 1 1)]⟩⟩, rfl, none,
      none⟩
    ∃ path bound, Path.ofLists? [#v[0], #v[2], #v[3]] [#v[1, 1], #v[0, 1]] = some path ∧
      (BoundProblem.create model ⟨1, 2, .unconstrained cost⟩ (1 / 2) 2 : Except (Error Unit) _) =
        .ok bound ∧ bound.problem.cost path = 47 / 4 := by
  intro cost model
  obtain ⟨path, hpath, -, htotal, hproblem⟩ :=
    total_eq_cost cost #v[#v[0], #v[2], #v[3]] #v[#v[1, 1], #v[0, 1]] (1 / 2)
  obtain ⟨bound, hbound, hcost⟩ :=
    hproblem Unit model (.unconstrained cost) rfl Nat.two_pos
  refine ⟨path, bound, hpath, hbound, ?_⟩
  rw [hcost, htotal]
  norm_num [cost, Fin.sum_univ_two, dotProduct, mulVec, Vec.fn, Vec.get_eq, Mat.matrix]

end TrajOpt
