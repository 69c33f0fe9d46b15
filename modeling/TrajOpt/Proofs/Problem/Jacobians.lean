import TrajOpt.Problem.Slack
import TrajOpt.Proofs.Linear.Blocks
import TrajOpt.Proofs.Objective.Jacobians

/-!
# Derivatives of problems

The derivatives of the constraints and of the dynamics of a problem account for every change of
their values where these are affine. A problem with slacks keeps that: a slack is added to the next
state and is a constraint of its own, so each of them is one more row and one more column of an
identity matrix.

## Main definitions

* `Model.DifferentiatesExactly` - supplied and traced derivatives of a step are right.

## Main statements

* `Model.hasExactJacobians` - the derivatives of an affine step.
* `HasExactJacobians.constraints_withSlack`, `HasExactJacobians.dynamics_withSlack` - slacks.
* `StageProblem.jacobians_of_affine` - the law for a problem and for the one with slacks.
-/

namespace TrajOpt

variable {n m p : Nat}

namespace Model

/-- The step over `dt` is affine with the given matrices. -/
def IsAffine (model : Model ℝ n m) (dt : ℝ) : Prop :=
  ∃ (A : Mat ℝ n n) (B : Mat ℝ n m) (b : Vec ℝ n), ∀ x u,
    model.step x u dt = A.mulVec x + B.mulVec u + b

/-- Where a step has derivatives, those that are supplied or traced are the right ones. -/
def DifferentiatesExactly (model : Model ℝ n m) (dt : ℝ) : Prop :=
  (model.jacobian.isSome || model.dynamics.traceable) = true → ∀ x u A B,
    Vec.HasDerivative (fun x => model.step x u dt) A x →
    Vec.HasDerivative (fun u => model.step x u dt) B u → model.jacobians x u dt = (A, B)

theorem hasExactJacobians {model : Model ℝ n m} {dt : ℝ} (haffine : model.IsAffine dt)
    (hexact : model.DifferentiatesExactly dt) :
    HasExactJacobians (fun x u => model.step x u dt) (fun x u => model.jacobians x u dt) := by
  obtain ⟨A, B, b, hstep⟩ := haffine
  have hjacobians : ∀ x u, model.jacobians x u dt = (A, B) := by
    intro x u
    cases hknown : model.jacobian.isSome || model.dynamics.traceable with
    | true =>
      exact hexact hknown x u A B ((isAffine_left hstep u).hasDerivative x)
        ((isAffine_right hstep x).hasDerivative u)
    | false =>
      obtain ⟨hjacobian, htraceable⟩ := Bool.or_eq_false_iff.1 hknown
      rw [Option.isSome_eq_false_iff, Option.isNone_iff_eq_none] at hjacobian
      simp only [jacobians, hjacobian, htraceable, Bool.false_eq_true, if_false]
      rw [(isAffine_left hstep u).centralDifference_eq differenceStep_ne_zero,
        (isAffine_right hstep x).centralDifference_eq differenceStep_ne_zero]
  intro x dx u du
  simp only [hjacobians]
  exact sub_of_affine hstep x dx u du

end Model

namespace HasExactJacobians

/-- One equality for each slack. -/
theorem constraints_withSlack {c : StageConstraints ℝ n m p}
    (h : HasExactJacobians c.value c.jacobians) :
    HasExactJacobians c.withSlack.value c.withSlack.jacobians := by
  intro x dx v dv
  have hchange := h x dx (Vec.left v) (Vec.left dv)
  have hadd : ∀ {k : Nat} (v : Vec ℝ k), v + Vec.zero k = v ∧ Vec.zero k + v = v := fun v =>
    ⟨Vec.fn_injective (by simp), Vec.fn_injective (by simp)⟩
  have hslack : Vec.right v + Vec.right dv - Vec.right v = (Vec.right dv : Vec ℝ n) :=
    Vec.fn_injective (by simp)
  simp only [StageConstraints.withSlack, Vec.left_add, Vec.right_add, Vec.append_sub_append,
    hchange, hslack, Mat.ofBlocks, Mat.mulVec_above, Mat.mulVec_beside, Mat.zero_mulVec,
    Mat.identity_mulVec, Vec.append_add_append, hadd]

/-- Slacks are added to the next state. -/
theorem dynamics_withSlack {d : Dynamics ℝ n m} (h : HasExactJacobians d.step d.jacobians) :
    HasExactJacobians d.withSlack.step d.withSlack.jacobians := by
  intro x dx v dv
  have hchange := congrArg Vec.fn (h x dx (Vec.left v) (Vec.left dv))
  apply Vec.fn_injective
  simp only [Vec.fn_sub, Vec.fn_add] at hchange
  simp only [Dynamics.withSlack, Vec.left_add, Vec.right_add, Mat.mulVec_beside,
    Mat.identity_mulVec, Vec.fn_add, Vec.fn_sub, ← add_assoc, ← hchange]
  abel

end HasExactJacobians

namespace StageProblem

/-- With affine functions, the derivatives of both constraint vectors account for every change of
their values, and there is a row for every bound that restricts something, for every value of a
function and for the goal. The same holds of the problem with slacks, and of its dynamics if the
step is affine. -/
theorem jacobians_of_affine {cs : ConstraintSet ℝ n m} (haffine : cs.HasAffineFunctions)
    (htraced : cs.TracesExactly) (model : Model ℝ n m) (cost : QuadraticCost ℝ n m)
    (dt weight : ℝ) (intervals : Nat) :
    let problem := ofObjective model (.constrained cost cs) dt intervals
    let slack := problem.withSlack weight
    (HasExactJacobians problem.stageConstraints.value problem.stageConstraints.jacobians ∧
      cs.p = cs.uMax.countP Option.isSome + cs.uMin.countP Option.isSome +
        cs.xMax.countP Option.isSome + cs.xMin.countP Option.isSome +
        ConstraintSet.sizeOf cs.cI + ConstraintSet.sizeOf cs.cE) ∧
    ((∀ x dx, problem.terminalConstraints.value (x + dx) - problem.terminalConstraints.value x =
        (problem.terminalConstraints.jacobian x).mulVec dx) ∧
      cs.q = cs.xMax.countP Option.isSome + cs.xMin.countP Option.isSome +
        ConstraintSet.sizeOf cs.cIN + ConstraintSet.sizeOf cs.cEN +
        if cs.useTerminal then n else 0) ∧
    HasExactJacobians slack.stageConstraints.value slack.stageConstraints.jacobians ∧
    (∀ x dx, slack.terminalConstraints.value (x + dx) - slack.terminalConstraints.value x =
      (slack.terminalConstraints.jacobian x).mulVec dx) ∧
    (model.IsAffine dt → model.DifferentiatesExactly dt →
      HasExactJacobians slack.dynamics.step slack.dynamics.jacobians) := by
  have hstage := cs.hasExactJacobians_stage haffine htraced
  have hterminal := cs.terminal_sub haffine htraced
  exact ⟨⟨hstage, cs.p_eq⟩, ⟨hterminal, cs.q_eq⟩,
    HasExactJacobians.constraints_withSlack (c := ⟨cs.stage, cs.stageJacobians, cs.isEquality⟩)
      hstage, hterminal,
    fun hstep hexact => HasExactJacobians.dynamics_withSlack
      (d := ⟨fun x u => model.step x u dt, fun x u => model.jacobians x u dt⟩)
      (model.hasExactJacobians hstep hexact)⟩

section Distance

/-- The difference of the state and the control, as a function that is traced. -/
def distance : Adapted ℝ :=
  ⟨"cI", .pure, true, 1,
    ⟨"cI", .names ["x", "u"], true, true, none, .returns .vector [.sub (.entry 0 0) (.entry 1 0)]⟩⟩

/-- The sum of the state and the control, as a function that is not traced. -/
def total (name : String) : Adapted ℝ :=
  ⟨name, .pure, false, 1,
    ⟨name, .any, true, false, none, .returns .vector [.add (.entry 0 0) (.entry 1 0)]⟩⟩

theorem exists_eq_singleton (x : Vec ℝ 1) : ∃ a, x = #v[a] := by
  refine ⟨x[0], ?_⟩
  ext i hi
  obtain rfl : i = 0 := by omega
  rfl

theorem value_distance (x u : Vec ℝ 1) : distance.value id (ConstraintSet.stageArgs x u) =
    (Mat.identity 1).mulVec x + (Mat.diagonal 1 (-1)).mulVec u + Vec.zero 1 := by
  obtain ⟨a, rfl⟩ := exists_eq_singleton x
  obtain ⟨c, rfl⟩ := exists_eq_singleton u
  have hvalue : #v[a - c] = (Mat.identity 1).mulVec #v[a] + (Mat.diagonal 1 (-1)).mulVec #v[c] +
      Vec.zero 1 := by
    ext i hi
    obtain rfl : i = 0 := Nat.lt_one_iff.1 hi
    simp [Mat.identity_mulVec, Mat.diagonal_mulVec, Vec.zero, sub_eq_add_neg]
  exact hvalue

theorem value_total (name : String) (x u : Vec ℝ 1) (further : Args ℝ) :
    (total name).value id (ConstraintSet.stageArgs x u ++ further) =
      (Mat.identity 1).mulVec x + (Mat.identity 1).mulVec u + Vec.zero 1 := by
  obtain ⟨a, rfl⟩ := exists_eq_singleton x
  obtain ⟨c, rfl⟩ := exists_eq_singleton u
  have hvalue : #v[a + c] = (Mat.identity 1).mulVec #v[a] + (Mat.identity 1).mulVec #v[c] +
      Vec.zero 1 := by
    ext i hi
    obtain rfl : i = 0 := Nat.lt_one_iff.1 hi
    simp [Mat.identity_mulVec, Vec.zero]
  exact hvalue

/-- What tracing yields for the distance. -/
theorem jacobian_distance (x u : Vec ℝ 1) :
    (ConstraintSet.stageArgs x u).jacobian (distance.value Dual.constant) [0, 1] 0 =
        (Mat.identity 1).toLists ∧
      (ConstraintSet.stageArgs x u).jacobian (distance.value Dual.constant) [0, 1] 1 =
        (Mat.diagonal 1 (-1)).toLists := by
  obtain ⟨a, rfl⟩ := exists_eq_singleton x
  obtain ⟨c, rfl⟩ := exists_eq_singleton u
  rw [Args.jacobian_vector (x := #v[a]) rfl, Args.jacobian_vector (x := #v[c]) rfl]
  refine ⟨congrArg Mat.toLists ?_, congrArg Mat.toLists ?_⟩
  · ext i hi j hj
    obtain rfl : i = 0 := Nat.lt_one_iff.1 hi
    obtain rfl : j = 0 := Nat.lt_one_iff.1 hj
    rw [Dual.jacobian_entry]
    exact sub_zero (1 : ℝ)
  · ext i hi j hj
    obtain rfl : i = 0 := Nat.lt_one_iff.1 hi
    obtain rfl : j = 0 := Nat.lt_one_iff.1 hj
    rw [Dual.jacobian_entry]
    exact zero_sub (1 : ℝ)

theorem tracesExactly_distance (x u : Vec ℝ 1) :
    distance.TracesExactly (ConstraintSet.stageArgs x u) [0, 1] 0 1 ∧
      distance.TracesExactly (ConstraintSet.stageArgs x u) [0, 1] 1 1 := by
  constructor
  · intro z J _ hJ
    rw [← ((isAffine_left value_distance u).hasDerivative z).unique hJ]
    exact (jacobian_distance x u).1
  · intro z J _ hJ
    rw [← ((isAffine_right value_distance x).hasDerivative z).unique hJ]
    exact (jacobian_distance x u).2

/-- Controls are bounded from above and states from below, one function is traced and the other is
not, and the final state is to be zero. -/
noncomputable def halfBounded : ConstraintSet ℝ 1 1 where
  goal := Vec.zero 1
  uMin := Vec.const 1 none
  uMax := Vec.const 1 (some 1)
  xMin := Vec.const 1 (some (-1))
  xMax := Vec.const 1 none
  cI := some distance
  cE := some (total "cE")
  cIN := none
  cEN := none
  useTerminal := true

/-- Four constraints on each knot, two on the final state, and the slack of one state. -/
theorem jacobians_halfBounded :
    let cost : QuadraticCost ℝ 1 1 :=
      ⟨Mat.identity 1, Mat.identity 1, Mat.identity 1, 1, Vec.zero 1, Vec.zero 1, 0⟩
    let model : Model ℝ 1 1 := ⟨total "dynamics", rfl, none, none⟩
    let slack := (ofObjective model (.constrained cost halfBounded) 1 1).withSlack 1
    halfBounded.p = 4 ∧ halfBounded.q = 2 ∧
    HasExactJacobians slack.stageConstraints.value slack.stageConstraints.jacobians ∧
    HasExactJacobians slack.dynamics.step slack.dynamics.jacobians := by
  intro cost model slack
  have haffine : halfBounded.HasAffineFunctions := by
    refine ⟨fun f hf => ?_, fun f hf => ?_, nofun, nofun⟩
    · cases hf
      exact ⟨_, _, _, value_distance⟩
    · cases hf
      exact ⟨_, _, _, fun x u => value_total "cE" x u []⟩
  have htraced : halfBounded.TracesExactly := by
    refine ⟨fun f hf htraceable x u => ?_, fun f hf => ?_⟩
    · obtain hf | hf := hf <;> cases hf
      · exact tracesExactly_distance x u
      · cases htraceable
    · obtain hf | hf := hf <;> cases hf
  obtain ⟨⟨-, hp⟩, ⟨-, hq⟩, hstage, -, hdynamics⟩ :=
    jacobians_of_affine haffine htraced model cost 1 1 1
  refine ⟨hp, hq, hstage, hdynamics ⟨_, _, _, fun x u => value_total "dynamics" x u _⟩ nofun⟩

end Distance

end StageProblem

end TrajOpt
