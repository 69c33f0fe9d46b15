import TrajOpt.Proofs.Descent.LinearQuadratic

/-!
# The schedule of the regularization

Raising and lowering the regularization follows a geometric schedule: the next step in the same
direction multiplies the weight by one factor more, and a step in the other direction starts over
with one factor. What a step does thus depends on how many steps of its direction came just before,
which the schedule keeps as the factor of its last step.

That factor is zero at the start. A step up takes the larger one of two factors, so it does not
notice; a step down takes the smaller one, which stays zero. As long as nothing was raised, a step
down drops the weight to zero, however large it is.

## Main definitions

* `Adjustment`, `Regularization.after` - steps of the schedule, and where they lead.
* `Adjustment.runLength` - how many of the last steps go in one direction.

## Main statements

* `Regularization.change_after_up`, `Regularization.change_after_down` - the factor of the last
  step.
* `Regularization.weight_after_concat` - what one more step does to the weight.
* `Regularization.weight_after_down` - a weight that is dropped to zero and is not small.
-/

namespace TrajOpt

/-- A step of the schedule. -/
inductive Adjustment where
  | up
  | down
  deriving DecidableEq

namespace Adjustment

/-- How many of the last steps go in the given direction. -/
def runLength (a : Adjustment) (steps : List Adjustment) : Nat :=
  (steps.reverse.takeWhile (· = a)).length

@[simp] theorem runLength_concat_self (a : Adjustment) (steps : List Adjustment) :
    a.runLength (steps ++ [a]) = a.runLength steps + 1 := by
  simp [runLength]

@[simp] theorem runLength_up_concat_down (steps : List Adjustment) :
    up.runLength (steps ++ [down]) = 0 := by
  simp [runLength]

@[simp] theorem runLength_down_concat_up (steps : List Adjustment) :
    down.runLength (steps ++ [up]) = 0 := by
  simp [runLength]

end Adjustment

namespace Regularization

section Steps

variable {α : Type} [Arith α]

/-- The schedule after one step. -/
def adjust (o : Options α) (r : Regularization α) : Adjustment → Regularization α
  | .up => r.increase o
  | .down => r.decrease o

/-- The schedule after the given steps from its start. -/
def after (o : Options α) (steps : List Adjustment) : Regularization α :=
  steps.foldl (adjust o) (start o)

theorem after_concat (o : Options α) (steps : List Adjustment) (a : Adjustment) :
    after o (steps ++ [a]) = (after o steps).adjust o a := by
  simp [after]

end Steps

end Regularization

namespace Options.Accepted

variable {o : Options ℝ}

theorem one_lt_regFactor (ho : o.Accepted) : 1 < o.regFactor := not_le.1 ho.regFactor

theorem regFactor_pos (ho : o.Accepted) : 0 < o.regFactor := zero_lt_one.trans ho.one_lt_regFactor

theorem regMin_pos (ho : o.Accepted) : 0 < o.regMin :=
  not_le.1 (ho.positive ("bp_reg_min", o.regMin) (by simp [positives]))

end Options.Accepted

namespace Regularization

variable {o : Options ℝ} {r : Regularization ℝ}

theorem change_increase (r : Regularization ℝ) :
    (r.increase o).change = max (r.change * o.regFactor) o.regFactor :=
  Arith.larger_eq_max _ _

theorem weight_increase (r : Regularization ℝ) :
    (r.increase o).weight = max (r.weight * (r.increase o).change) o.regMin :=
  Arith.larger_eq_max _ _

theorem weight_decrease_eq_ite (r : Regularization ℝ) :
    (r.decrease o).weight =
      if r.weight * (r.decrease o).change < o.regMin then 0
      else r.weight * (r.decrease o).change := rfl

theorem change_decrease_eq_min (r : Regularization ℝ) :
    (r.decrease o).change = min (r.change / o.regFactor) (1 / o.regFactor) :=
  Arith.smaller_eq_min _ _

/-- A step up after other steps has one factor. -/
theorem change_increase_of_le_one (ho : o.Accepted) (h : r.change ≤ 1) :
    (r.increase o).change = o.regFactor := by
  have hle : r.change * o.regFactor ≤ o.regFactor := mul_le_of_le_one_left ho.regFactor_pos.le h
  rw [change_increase, max_eq_right hle]

/-- A step up after steps up has one factor more. -/
theorem change_increase_of_pow (ho : o.Accepted) {j : Nat} (h : r.change = o.regFactor ^ j) :
    (r.increase o).change = o.regFactor ^ (j + 1) := by
  have hle : o.regFactor ≤ o.regFactor ^ (j + 1) :=
    le_self_pow₀ ho.one_lt_regFactor.le j.succ_ne_zero
  rw [change_increase, h, ← pow_succ, max_eq_left hle]

/-- A step down after steps up has one factor. -/
theorem change_decrease_of_one_le (ho : o.Accepted) (h : 1 ≤ r.change) :
    (r.decrease o).change = (o.regFactor ^ 1)⁻¹ := by
  have hle : 1 / o.regFactor ≤ r.change / o.regFactor :=
    div_le_div_of_nonneg_right h ho.regFactor_pos.le
  rw [change_decrease_eq_min, min_eq_right hle, one_div, pow_one]

/-- A step down after steps down has one factor more. -/
theorem change_decrease_of_pow (ho : o.Accepted) {k : Nat} (h : r.change = (o.regFactor ^ k)⁻¹) :
    (r.decrease o).change = (o.regFactor ^ (k + 1))⁻¹ := by
  have hfactor := ho.regFactor_pos
  have hone : (o.regFactor ^ k)⁻¹ ≤ 1 := inv_le_one_of_one_le₀ (one_le_pow₀ ho.one_lt_regFactor.le)
  have hle : (o.regFactor ^ k)⁻¹ / o.regFactor ≤ 1 / o.regFactor :=
    div_le_div_of_nonneg_right hone hfactor.le
  rw [change_decrease_eq_min, h, min_eq_left hle, pow_succ, mul_inv, div_eq_mul_inv]

/-- A step down from a factor of zero has the factor zero. -/
theorem change_decrease_of_zero (ho : o.Accepted) (h : r.change = 0) :
    (r.decrease o).change = 0 := by
  have hle : (0 : ℝ) ≤ 1 / o.regFactor := one_div_nonneg.2 ho.regFactor_pos.le
  rw [change_decrease_eq_min, h, zero_div, min_eq_left hle]

theorem change_decrease_le_one (ho : o.Accepted) (r : Regularization ℝ) :
    (r.decrease o).change ≤ 1 := by
  have hle : 1 / o.regFactor ≤ 1 := by
    rw [one_div]
    exact inv_le_one_of_one_le₀ ho.one_lt_regFactor.le
  rw [change_decrease_eq_min]
  exact (min_le_right _ _).trans hle

/-- A step up has as many factors as there are steps up in a row. -/
theorem change_after_up (ho : o.Accepted) (steps : List Adjustment) :
    (after o (steps ++ [.up])).change =
      o.regFactor ^ Adjustment.up.runLength (steps ++ [.up]) := by
  induction steps using List.reverseRecOn with
  | nil =>
    have hone : (start o).change ≤ 1 := zero_le_one
    exact (change_increase_of_le_one ho hone).trans (pow_one _).symm
  | append_singleton steps a ih =>
    rw [after_concat, Adjustment.runLength_concat_self]
    cases a with
    | up => exact change_increase_of_pow ho ih
    | down =>
      have hone : (after o (steps ++ [.down])).change ≤ 1 := by
        rw [after_concat]
        exact change_decrease_le_one ho _
      rw [Adjustment.runLength_up_concat_down, zero_add, pow_one]
      exact change_increase_of_le_one ho hone

/-- Once the schedule went up, a step down has as many factors as there are steps down in a row. -/
theorem change_after_down (ho : o.Accepted) {steps : List Adjustment} (h : .up ∈ steps) :
    (after o (steps ++ [.down])).change =
      (o.regFactor ^ Adjustment.down.runLength (steps ++ [.down]))⁻¹ := by
  induction steps using List.reverseRecOn with
  | nil => cases h
  | append_singleton steps a ih =>
    rw [after_concat, Adjustment.runLength_concat_self]
    cases a with
    | up =>
      have hone : 1 ≤ (after o (steps ++ [.up])).change := by
        rw [change_after_up ho]
        exact one_le_pow₀ ho.one_lt_regFactor.le
      rw [Adjustment.runLength_down_concat_up]
      exact change_decrease_of_one_le ho hone
    | down =>
      have hsteps : .up ∈ steps := by simpa using h
      exact change_decrease_of_pow ho (ih hsteps)

/-- As long as the schedule did not go up, the factor is zero. -/
theorem change_after_of_notMem (ho : o.Accepted) {steps : List Adjustment} (h : .up ∉ steps) :
    (after o steps).change = 0 := by
  induction steps using List.reverseRecOn with
  | nil => rfl
  | append_singleton steps a ih =>
    cases a with
    | up => simp at h
    | down =>
      have hsteps : .up ∉ steps := by simpa using h
      rw [after_concat]
      exact change_decrease_of_zero ho (ih hsteps)

/-- As long as the schedule did not go up, no weight but that of the start is other than zero. -/
theorem weight_after_of_notMem (ho : o.Accepted) {steps : List Adjustment} (h : .up ∉ steps) :
    (after o steps).weight = if steps = [] then o.regInitial else 0 := by
  cases steps using List.reverseRecOn with
  | nil => rfl
  | append_singleton steps a =>
    cases a with
    | up => simp at h
    | down =>
      have hchange := change_after_of_notMem ho h
      rw [after_concat] at hchange ⊢
      have hzero : ((after o steps).decrease o).change = 0 := hchange
      rw [if_neg (by simp), adjust, weight_decrease_eq_ite, hzero, mul_zero, ite_self]

/-- What a further step does to the weight, whatever the steps before it were. A step up multiplies
it by as many factors as there are steps up in a row, and raises it to the smallest weight. A step
down divides it by as many factors as there are steps down in a row, and drops it to zero below the
smallest weight, if there was a step up before or the schedule starts at zero. As long as there was
no step up, a step down leads to zero. -/
theorem weight_after_concat (ho : o.Accepted) (steps : List Adjustment) :
    (after o (steps ++ [.up])).weight =
        max ((after o steps).weight *
          o.regFactor ^ Adjustment.up.runLength (steps ++ [.up])) o.regMin ∧
      (.up ∈ steps ∨ o.regInitial = 0 →
        (after o (steps ++ [.down])).weight =
          let weight := (after o steps).weight *
            (o.regFactor ^ Adjustment.down.runLength (steps ++ [.down]))⁻¹
          if weight < o.regMin then 0 else weight) ∧
      (.up ∉ steps → (after o (steps ++ [.down])).weight = 0) := by
  have hzero : .up ∉ steps → (after o (steps ++ [.down])).weight = 0 := by
    intro hsteps
    rw [weight_after_of_notMem ho (by simpa using hsteps), if_neg (by simp)]
  refine ⟨?_, ?_, hzero⟩
  · have hchange := change_after_up ho steps
    rw [after_concat] at hchange ⊢
    rw [← hchange]
    exact weight_increase _
  · intro hsteps
    by_cases hmem : .up ∈ steps
    · have hchange := change_after_down ho hmem
      rw [after_concat] at hchange ⊢
      rw [← hchange]
      rfl
    · have hweight : (after o steps).weight = 0 := by
        rw [weight_after_of_notMem ho hmem, hsteps.resolve_left hmem, ite_self]
      rw [hzero hmem, hweight]
      simp

/-- Two steps up and two steps down from zero. -/
theorem weight_after_standard :
    (after .standard [.up]).weight = (1e-8 : ℝ) ∧
      (after .standard [.up, .up]).weight = (1e-8 * 1.6 ^ 2 : ℝ) ∧
      (after .standard [.up, .up, .down]).weight = (1e-8 * 1.6 : ℝ) ∧
      (after .standard [.up, .up, .down, .down]).weight = (0 : ℝ) := by
  have ho : (Options.standard : Options ℝ).Accepted := Descent.accepted_standard
  have hinitial : (Options.standard : Options ℝ).regInitial = 0 := by norm_num [Options.standard]
  have hstart : (after (.standard : Options ℝ) []).weight = 0 := hinitial
  have hup : (after .standard [.up]).weight =
      max ((after .standard []).weight * 1.6 ^ 1) (1e-8 : ℝ) :=
    (weight_after_concat ho []).1
  have hup' : (after .standard [.up, .up]).weight =
      max ((after .standard [.up]).weight * 1.6 ^ 2) (1e-8 : ℝ) :=
    (weight_after_concat ho [.up]).1
  have hdown : (after .standard [.up, .up, .down]).weight =
      let weight := (after .standard [.up, .up]).weight * (1.6 ^ 1)⁻¹
      if weight < (1e-8 : ℝ) then 0 else weight :=
    (weight_after_concat ho [.up, .up]).2.1 (.inr hinitial)
  have hdown' : (after .standard [.up, .up, .down, .down]).weight =
      let weight := (after .standard [.up, .up, .down]).weight * (1.6 ^ 2)⁻¹
      if weight < (1e-8 : ℝ) then 0 else weight :=
    (weight_after_concat ho [.up, .up, .down]).2.1 (.inr hinitial)
  norm_num [hstart] at hup
  norm_num [hup] at hup'
  norm_num [hup'] at hdown
  norm_num [hdown] at hdown'
  norm_num [hup, hup', hdown, hdown']

/-- The default options with another start. -/
noncomputable def startingAtOne : Options ℝ := { Options.standard with regInitial := 1 }

/-- The first step down from a start at one leads to zero, although one factor less is not small. -/
theorem weight_after_down : startingAtOne.Accepted ∧ startingAtOne.regInitial = 1 ∧
    (after startingAtOne [.down]).weight = 0 ∧
    (after startingAtOne [.down]).weight ≠
      let weight := startingAtOne.regInitial *
        (startingAtOne.regFactor ^ Adjustment.down.runLength [.down])⁻¹
      if weight < startingAtOne.regMin then 0 else weight := by
  have haccepted : startingAtOne.Accepted :=
    { Descent.accepted_standard with
      regularization := by norm_num [startingAtOne, Options.standard] }
  have hzero : (after startingAtOne [.down]).weight = 0 :=
    weight_after_of_notMem haccepted (by simp)
  have hfactor : startingAtOne.regFactor = 1.6 := rfl
  have hmin : startingAtOne.regMin = 1e-8 := rfl
  have hinitial : startingAtOne.regInitial = 1 := rfl
  refine ⟨haccepted, hinitial, hzero, ?_⟩
  rw [hzero, hfactor, hmin, hinitial]
  norm_num [Adjustment.runLength]

end Regularization

end TrajOpt
