import TrajOpt.Proofs.Function.Affine
import TrajOpt.Proofs.Linear.Blocks
import TrajOpt.Proofs.Objective.Layout

/-!
# Derivatives of constraints

The values of a constraint vector and their derivatives are computed apart from each other. Where
the functions of the set are affine the two belong together: the derivatives at any point account
for every change of the values from there, row by row.

## Main definitions

* `HasExactJacobians` - derivatives account for every change of a function.
* `ConstraintSet.HasAffineFunctions`, `ConstraintSet.TracesExactly` - what is known of the functions
  of a set.

## Main statements

* `ConstraintRow.value_sub` - the change of one row.
* `ConstraintSet.hasExactJacobians_stage`, `ConstraintSet.terminal_sub` - the change of a vector.
-/

namespace TrajOpt

open Matrix

variable {n m p r : Nat}

/-- The two matrices at a point account for every change of the function from there. -/
def HasExactJacobians (f : Vec ℝ n → Vec ℝ m → Vec ℝ r)
    (jacobians : Vec ℝ n → Vec ℝ m → Mat ℝ r n × Mat ℝ r m) : Prop :=
  ∀ x dx u du, f (x + dx) (u + du) - f x u =
    (jacobians x u).1.mulVec dx + (jacobians x u).2.mulVec du

/-- An affine function changes by what its matrices make of the deviations. -/
theorem sub_of_affine {f : Vec ℝ n → Vec ℝ m → Vec ℝ r} {F : Mat ℝ r n} {G : Mat ℝ r m}
    {b : Vec ℝ r} (hf : ∀ x u, f x u = F.mulVec x + G.mulVec u + b) (x dx : Vec ℝ n)
    (u du : Vec ℝ m) : f (x + dx) (u + du) - f x u = F.mulVec dx + G.mulVec du := by
  apply Vec.fn_injective
  simp only [hf, Vec.fn_add, Vec.fn_sub, Mat.fn_mulVec, mulVec_add]
  abel

/-- With the control held, an affine function is one of the state. -/
theorem isAffine_left {f : Vec ℝ n → Vec ℝ m → Vec ℝ r} {F : Mat ℝ r n} {G : Mat ℝ r m}
    {b : Vec ℝ r} (hf : ∀ x u, f x u = F.mulVec x + G.mulVec u + b) (u : Vec ℝ m) :
    Vec.IsAffine (fun x => f x u) F := by
  refine ⟨G.mulVec u + b, fun x => Vec.fn_injective ?_⟩
  simp only [hf, Vec.fn_add, add_assoc]

theorem isAffine_right {f : Vec ℝ n → Vec ℝ m → Vec ℝ r} {F : Mat ℝ r n} {G : Mat ℝ r m}
    {b : Vec ℝ r} (hf : ∀ x u, f x u = F.mulVec x + G.mulVec u + b) (x : Vec ℝ n) :
    Vec.IsAffine (f x) G := by
  refine ⟨F.mulVec x + b, fun u => Vec.fn_injective ?_⟩
  simp only [hf, Vec.fn_add]
  abel

namespace Adapted

/-- The function of a state and a control is affine. -/
def IsAffineStage (f : Adapted ℝ) (n m : Nat) : Prop :=
  ∃ (F : Mat ℝ f.size n) (G : Mat ℝ f.size m) (b : Vec ℝ f.size), ∀ x u,
    f.value id (ConstraintSet.stageArgs x u) = F.mulVec x + G.mulVec u + b

/-- The function of a state is affine. -/
def IsAffineTerminal (f : Adapted ℝ) (n : Nat) : Prop :=
  ∃ (F : Mat ℝ f.size n) (b : Vec ℝ f.size), ∀ x,
    f.value id (ConstraintSet.terminalArgs x) = F.mulVec x + b

end Adapted

namespace ConstraintSet

/-- All functions of the set are affine. -/
structure HasAffineFunctions (cs : ConstraintSet ℝ n m) : Prop where
  cI : ∀ f ∈ cs.cI, f.IsAffineStage n m
  cE : ∀ f ∈ cs.cE, f.IsAffineStage n m
  cIN : ∀ f ∈ cs.cIN, f.IsAffineTerminal n
  cEN : ∀ f ∈ cs.cEN, f.IsAffineTerminal n

/-- Tracing yields the derivatives of those functions of the set that can be traced. -/
structure TracesExactly (cs : ConstraintSet ℝ n m) : Prop where
  stage : ∀ f, f ∈ cs.cI ∨ f ∈ cs.cE → f.traceable = true → ∀ (x : Vec ℝ n) (u : Vec ℝ m),
    f.TracesExactly (stageArgs x u) [0, 1] 0 n ∧ f.TracesExactly (stageArgs x u) [0, 1] 1 m
  terminal : ∀ f, f ∈ cs.cIN ∨ f ∈ cs.cEN → f.traceable = true → ∀ x : Vec ℝ n,
    f.TracesExactly (terminalArgs x) [0] 0 n

theorem derivativesOf_eq {f : Adapted ℝ} {args : Args ℝ} {varying : List Nat} {k size : Nat}
    {F : Mat ℝ f.size size} (h : f.jacobian args varying k = F.toLists) :
    derivativesOf (some f) args varying k size = F.toArray := by
  rw [derivativesOf, h]
  exact Mat.toArray_map_toLists F

/-- The change of the values of a function of a state and a control. -/
theorem valuesOf_stage_sub {f : Option (Adapted ℝ)} (hf : ∀ g ∈ f, g.IsAffineStage n m)
    {x : Vec ℝ n} {u : Vec ℝ m}
    (htraced : ∀ g ∈ f, g.traceable = true →
      g.TracesExactly (stageArgs x u) [0, 1] 0 n ∧ g.TracesExactly (stageArgs x u) [0, 1] 1 m)
    (dx : Vec ℝ n) (du : Vec ℝ m) (j : Nat) :
    (valuesOf f (stageArgs (x + dx) (u + du)))[j]?.getD 0 -
        (valuesOf f (stageArgs x u))[j]?.getD 0 =
      Vec.dot ((derivativesOf f (stageArgs x u) [0, 1] 0 n)[j]?.getD (Vec.zero n)) dx +
        Vec.dot ((derivativesOf f (stageArgs x u) [0, 1] 1 m)[j]?.getD (Vec.zero m)) du := by
  cases f with
  | none => simp [valuesOf, derivativesOf, Vec.dot_eq]
  | some g =>
    obtain ⟨F, G, b, hg⟩ := hf g rfl
    have hstate := g.jacobian_of_affine rfl (fun h => (htraced g rfl h).1) (isAffine_left hg u)
    have hcontrol := g.jacobian_of_affine rfl (fun h => (htraced g rfl h).2) (isAffine_right hg x)
    have hchange := sub_of_affine hg x dx u du
    rw [derivativesOf_eq hstate, derivativesOf_eq hcontrol]
    by_cases hj : j < g.size
    · have hentry := congrArg (fun v => v[j]) hchange
      simpa [valuesOf, hj, Mat.mulVec] using hentry
    · simp [valuesOf, hj, Vec.dot_eq]

/-- The change of the values of a function of a state. -/
theorem valuesOf_terminal_sub {f : Option (Adapted ℝ)} (hf : ∀ g ∈ f, g.IsAffineTerminal n)
    {x : Vec ℝ n}
    (htraced : ∀ g ∈ f, g.traceable = true → g.TracesExactly (terminalArgs x) [0] 0 n)
    (dx : Vec ℝ n) (j : Nat) :
    (valuesOf f (terminalArgs (x + dx)))[j]?.getD 0 - (valuesOf f (terminalArgs x))[j]?.getD 0 =
      Vec.dot ((derivativesOf f (terminalArgs x) [0] 0 n)[j]?.getD (Vec.zero n)) dx := by
  cases f with
  | none => simp [valuesOf, derivativesOf, Vec.dot_eq]
  | some g =>
    obtain ⟨F, b, hg⟩ := hf g rfl
    have hstate := g.jacobian_of_affine rfl (htraced g rfl) ⟨b, hg⟩
    have hchange : g.value id (terminalArgs (x + dx)) - g.value id (terminalArgs x) =
        F.mulVec dx := by
      apply Vec.fn_injective
      simp only [hg, Vec.fn_add, Vec.fn_sub, Mat.fn_mulVec, mulVec_add]
      abel
    rw [derivativesOf_eq hstate]
    by_cases hj : j < g.size
    · have hentry := congrArg (fun v => v[j]) hchange
      simpa [valuesOf, hj, Mat.mulVec] using hentry
    · simp [valuesOf, hj, Vec.dot_eq]

end ConstraintSet

namespace ConstraintRow

theorem dot_unit {k : Nat} (i : Fin k) (v : Vec ℝ k) : Vec.dot (unit i) v = v.get i := by
  simp [Vec.dot_eq, unit, dotProduct, Vec.fn]

theorem dot_neg_unit {k : Nat} (i : Fin k) (v : Vec ℝ k) : Vec.dot (-unit i) v = -v.get i := by
  rw [Vec.dot_eq, Vec.fn_neg, neg_dotProduct, ← Vec.dot_eq, dot_unit]

theorem zero_dot {k : Nat} (v : Vec ℝ k) : Vec.dot (Vec.zero k) v = 0 := by
  simp [Vec.dot_eq]

/-- The change of the value of one row, if the functions change by what their derivatives say. -/
theorem value_sub {k : Nat} (row : ConstraintRow ℝ n k) {x dx : Vec ℝ n} {u du : Vec ℝ k}
    {vI vI' vE vE' : Array ℝ} {xI xE : Array (Vec ℝ n)} {uI uE : Array (Vec ℝ k)}
    (hI : ∀ j : Nat, vI'[j]?.getD 0 - vI[j]?.getD 0 =
      Vec.dot (xI[j]?.getD (Vec.zero n)) dx + Vec.dot (uI[j]?.getD (Vec.zero k)) du)
    (hE : ∀ j : Nat, vE'[j]?.getD 0 - vE[j]?.getD 0 =
      Vec.dot (xE[j]?.getD (Vec.zero n)) dx + Vec.dot (uE[j]?.getD (Vec.zero k)) du) :
    row.value (x + dx) (u + du) vI' vE' - row.value x u vI vE =
      Vec.dot (row.stateDerivative xI xE) dx + Vec.dot (row.controlDerivative uI uE) du := by
  have hget : ∀ {l : Nat} (v dv : Vec ℝ l) (i : Fin l), (v + dv).get i = v.get i + dv.get i := by
    intro l v dv i
    simp [Vec.get_eq]
  cases row with
  | inequality j => exact hI j
  | equality j => exact hE j
  | _ =>
    simp only [value, stateDerivative, controlDerivative, hget, dot_unit, dot_neg_unit, zero_dot]
    ring

end ConstraintRow

namespace ConstraintSet

variable {cs : ConstraintSet ℝ n m}

/-- The constraint vector of a stage changes by what its derivatives say. -/
theorem hasExactJacobians_stage (haffine : cs.HasAffineFunctions) (htraced : cs.TracesExactly) :
    HasExactJacobians cs.stage cs.stageJacobians := by
  intro x dx u du
  have hI := valuesOf_stage_sub haffine.cI (fun g hg h => htraced.stage g (.inl hg) h x u) dx du
  have hE := valuesOf_stage_sub haffine.cE (fun g hg h => htraced.stage g (.inr hg) h x u) dx du
  ext i hi
  simpa [stage, stageJacobians, Mat.mulVec] using
    (cs.stageRows[i]).value_sub (x := x) (u := u) hI hE

/-- The constraint vector of the final state changes by what its derivative says. -/
theorem terminal_sub (haffine : cs.HasAffineFunctions) (htraced : cs.TracesExactly)
    (x dx : Vec ℝ n) :
    cs.terminal (x + dx) - cs.terminal x = (cs.terminalJacobian x).mulVec dx := by
  -- There is no control, so nothing changes with it.
  have hnone : ∀ v w : Vec ℝ 0, Vec.dot v w = 0 := fun v w => by simp [Vec.dot_eq]
  have hadd : ∀ (a : ℝ) (j : Nat), a =
      a + Vec.dot ((#[] : Array (Vec ℝ 0))[j]?.getD (Vec.zero 0)) Vec.empty := by simp [hnone]
  have hempty : (Vec.empty + Vec.empty : Vec ℝ 0) = Vec.empty := Vector.eq_empty
  have hI := valuesOf_terminal_sub haffine.cIN (fun g hg h => htraced.terminal g (.inl hg) h x) dx
  have hE := valuesOf_terminal_sub haffine.cEN (fun g hg h => htraced.terminal g (.inr hg) h x) dx
  ext i hi
  have hrow := (cs.terminalRows[i]).value_sub (x := x) (u := Vec.empty)
    (fun j => (hI j).trans (hadd _ j)) (fun j => (hE j).trans (hadd _ j))
  rw [hnone, add_zero, hempty] at hrow
  simpa [terminal, terminalJacobian, Mat.mulVec] using hrow

end ConstraintSet

end TrajOpt
