import TrajOpt.Proofs.Solve.Penalties

/-!
# Fixed points of the multiplier update

The update adds the penalty times the value to every multiplier. The expansion weights the gradient
of a constraint with the same sum, but takes only the penalties of active constraints. The two agree
up to the sign of an inequality: an inequality that is not active has a multiplier of zero, and its
value is not positive, so what the update adds is cut off again.

A multiplier stays as it is exactly where its constraint is not violated and, for an inequality,
where the multiplier or the value is zero.

## Main definitions

* `projection`, `Vec.projection` - the nonnegative part on inequalities.
* `Weights.IsProper`, `Multipliers.IsProper` - positive penalties and multipliers of the right sign.
* `Weights.IsComplementary`, `Multipliers.IsComplementary` - feasible values whose products with the
  multipliers of inequalities vanish.

## Main statements

* `updatedMultiplier_eq_projection`, `updatedMultiplier_eq_self_iff` - the update of one multiplier.
* `Multipliers.update_isProjection` - the update of all multipliers along a path.
-/

namespace TrajOpt

variable {n m p q : Nat}

section Entry

variable {isEquality : Bool} {c lam mu : ℝ}

/-- The number itself on an equality, and its nonnegative part on an inequality. -/
noncomputable def projection (isEquality : Bool) (g : ℝ) : ℝ := if isEquality then g else max g 0

theorem updatedMultiplier_eq_projection (hmu : 0 < mu) (hlam : isEquality = false → 0 ≤ lam) :
    updatedMultiplier isEquality c lam mu =
      projection isEquality (lam + activePenalty isEquality c lam mu * c) := by
  simp only [updatedMultiplier, projection, activePenalty, Arith.maximum_eq_max]
  cases hactive : isActive isEquality c lam with
  | true => rfl
  | false =>
    obtain ⟨rfl, hc, hnonpos⟩ := isActive_eq_false_iff.1 hactive
    obtain rfl : lam = 0 := le_antisymm hnonpos (hlam rfl)
    -- The multiplier is zero, so the clamp takes away what the update added.
    have hcut : mu * c ≤ 0 := mul_nonpos_of_nonneg_of_nonpos hmu.le hc
    simpa using hcut

theorem violationOf_eq_zero_iff :
    violationOf isEquality c = 0 ↔ if isEquality then c = 0 else c ≤ 0 := by
  cases isEquality with
  | true => exact abs_eq_zero
  | false => simp [violationOf, Arith.maximum_eq_max]

/-- A multiplier is left unchanged for a constraint that is not violated, if it or the value of an
inequality is zero. -/
theorem updatedMultiplier_eq_self_iff (hmu : 0 < mu) (hlam : isEquality = false → 0 ≤ lam) :
    updatedMultiplier isEquality c lam mu = lam ↔
      violationOf isEquality c = 0 ∧ (isEquality = false → lam * c = 0) := by
  rw [violationOf_eq_zero_iff]
  cases isEquality with
  | true => simp [updatedMultiplier, hmu.ne']
  | false =>
    simp only [updatedMultiplier, Arith.maximum_eq_max, Bool.false_eq_true, if_false, forall_const]
    obtain hzero | hpos := (hlam rfl).eq_or_lt
    · obtain rfl := hzero
      simp [← not_lt, mul_pos_iff_of_pos_left hmu]
    · have hkept : max (lam + mu * c) 0 = lam ↔ c = 0 := by
        constructor
        · intro h
          obtain hmax | hmax := max_choice (lam + mu * c) 0
          · have hproduct : mu * c = 0 := by linarith
            exact (mul_eq_zero.1 hproduct).resolve_left hmu.ne'
          · exact absurd (hmax.symm.trans h) hpos.ne
        · rintro rfl
          simpa using hpos.le
      rw [hkept, mul_eq_zero, or_iff_right hpos.ne']
      exact ⟨fun h => ⟨h.le, h⟩, fun h => h.2⟩

end Entry

/-- The vector itself on equalities, and its nonnegative part on inequalities. -/
noncomputable def Vec.projection (isEquality : Vec Bool p) (g : Vec ℝ p) : Vec ℝ p :=
  Vector.zipWith TrajOpt.projection isEquality g

namespace Weights

/-- The penalties are positive, and no multiplier of an inequality is negative. -/
structure IsProper (isEquality : Vec Bool p) (w : Weights ℝ p) : Prop where
  penalty_pos : ∀ i, 0 < w.mu.get i
  signed : Vec.IsSigned isEquality w.lam

/-- No constraint is violated, and each inequality has a value or a multiplier of zero. -/
structure IsComplementary (isEquality : Vec Bool p) (w : Weights ℝ p) (c : Vec ℝ p) : Prop where
  feasible : ∀ i, violationOf (isEquality.get i) (c.get i) = 0
  complementary : ∀ i, isEquality.get i = false → w.lam.get i * c.get i = 0

variable {isEquality : Vec Bool p} {w : Weights ℝ p}

theorem get_updateMultipliers (w : Weights ℝ p) (isEquality : Vec Bool p) (c : Vec ℝ p)
    (i : Fin p) : (w.updateMultipliers isEquality c).get i =
      updatedMultiplier (isEquality.get i) (c.get i) (w.lam.get i) (w.mu.get i) := by
  simp [updateMultipliers, Vec.get_eq]

theorem updateMultipliers_eq_projection (hw : w.IsProper isEquality) (c : Vec ℝ p) :
    w.updateMultipliers isEquality c =
      Vec.projection isEquality (w.gradientWeights isEquality c) := by
  ext i hi
  have hentry := updatedMultiplier_eq_projection (c := c.get ⟨i, hi⟩) (hw.penalty_pos ⟨i, hi⟩)
    (hw.signed ⟨i, hi⟩)
  simpa [updateMultipliers, Vec.projection, gradientWeights, activePenalties, Vec.get_eq]
    using hentry

theorem updateMultipliers_eq_self_iff (hw : w.IsProper isEquality) (c : Vec ℝ p) :
    w.updateMultipliers isEquality c = w.lam ↔ w.IsComplementary isEquality c := by
  have hentry := fun i => updatedMultiplier_eq_self_iff (c := c.get i) (hw.penalty_pos i)
    (hw.signed i)
  simp only [← get_updateMultipliers] at hentry
  constructor
  · intro h
    rw [h] at hentry
    exact ⟨fun i => ((hentry i).1 rfl).1, fun i => ((hentry i).1 rfl).2⟩
  · rintro ⟨hfeasible, hcomplementary⟩
    ext i hi
    exact (hentry ⟨i, hi⟩).2 ⟨hfeasible ⟨i, hi⟩, hcomplementary ⟨i, hi⟩⟩

end Weights

namespace Multipliers

variable {problem : StageProblem ℝ n m p q} {w : Multipliers ℝ p q}
  {values : ConstraintValues ℝ p q}

/-- All penalties along a path are positive, and no multiplier of an inequality is negative. -/
structure IsProper (problem : StageProblem ℝ n m p q) (w : Multipliers ℝ p q) : Prop where
  stages : ∀ s ∈ w.stages, s.IsProper problem.stageConstraints.isEquality
  terminal : w.terminal.IsProper problem.terminalConstraints.isEquality

/-- No constraint along a path is violated, and each inequality has a value or a multiplier of
zero. -/
structure IsComplementary (problem : StageProblem ℝ n m p q) (w : Multipliers ℝ p q)
    (values : ConstraintValues ℝ p q) : Prop where
  stages : List.Forall₂ (Weights.IsComplementary problem.stageConstraints.isEquality) w.stages
    values.stages
  terminal : w.terminal.IsComplementary problem.terminalConstraints.isEquality values.terminal

/-- The multipliers alone, on the knots and on the final state. -/
def lams (w : Multipliers ℝ p q) : List (Vec ℝ p) × Vec ℝ q :=
  (w.stages.map Weights.lam, w.terminal.lam)

theorem zipWith_updateMultipliers {isEquality : Vec Bool p} {ws : List (Weights ℝ p)}
    (hproper : ∀ w ∈ ws, w.IsProper isEquality) (cs : List (Vec ℝ p)) :
    List.zipWith (fun w c => w.updateMultipliers isEquality c) ws cs =
      List.zipWith (fun w c => Vec.projection isEquality (w.gradientWeights isEquality c)) ws
        cs := by
  induction ws generalizing cs with
  | nil => rfl
  | cons w ws ih =>
    obtain ⟨hw, hws⟩ := List.forall_mem_cons.1 hproper
    cases cs with
    | nil => rfl
    | cons c cs =>
      rw [List.zipWith_cons_cons, List.zipWith_cons_cons, ih hws,
        w.updateMultipliers_eq_projection hw]

theorem zipWith_updateMultipliers_eq_iff {isEquality : Vec Bool p} :
    ∀ {ws : List (Weights ℝ p)} {cs : List (Vec ℝ p)}, ws.length = cs.length →
      (∀ w ∈ ws, w.IsProper isEquality) →
      (List.zipWith (fun w c => w.updateMultipliers isEquality c) ws cs = ws.map Weights.lam ↔
        List.Forall₂ (Weights.IsComplementary isEquality) ws cs)
  | [], [], _, _ => by simp
  | w :: ws, c :: cs, hlength, hproper => by
    obtain ⟨hw, hws⟩ := List.forall_mem_cons.1 hproper
    simp only [List.zipWith_cons_cons, List.map_cons, List.cons.injEq, List.forall₂_cons,
      w.updateMultipliers_eq_self_iff hw,
      zipWith_updateMultipliers_eq_iff (Nat.succ.inj hlength) hws]

/-- With positive penalties and multipliers of the right sign, the multipliers after an update are
the weights of the gradients in the expansion, where those of inequalities are cut off at zero. They
are the multipliers before exactly if no constraint is violated and each inequality has a value or a
multiplier of zero. -/
theorem update_isProjection (hw : w.IsProper problem)
    (hlength : w.stages.length = values.stages.length) (rule : PenaltyRule ℝ)
    (current previous : ℝ) :
    let isEquality := problem.stageConstraints.isEquality
    let isEqualityN := problem.terminalConstraints.isEquality
    let w' := w.update isEquality isEqualityN values rule current previous
    w'.lams =
      (List.zipWith (fun s c => Vec.projection isEquality (s.gradientWeights isEquality c))
          w.stages values.stages,
        Vec.projection isEqualityN (w.terminal.gradientWeights isEqualityN values.terminal)) ∧
    w'.IsSigned problem ∧
    (w'.lams = w.lams ↔ w.IsComplementary problem values) := by
  intro isEquality isEqualityN w'
  have hstages : ∀ s ∈ w.stages, s.IsProper isEquality := hw.stages
  have hlams : w'.lams =
      (List.zipWith (fun s c => s.updateMultipliers isEquality c) w.stages values.stages,
        w.terminal.updateMultipliers isEqualityN values.terminal) := by
    simp [w', lams, update, List.map_zipWith]
  refine ⟨?_, w.isSigned_update problem values rule current previous, ?_⟩
  · rw [hlams, zipWith_updateMultipliers hstages,
      w.terminal.updateMultipliers_eq_projection hw.terminal]
  · rw [hlams, lams, Prod.mk.injEq, zipWith_updateMultipliers_eq_iff hlength hstages,
      w.terminal.updateMultipliers_eq_self_iff hw.terminal]
    exact ⟨fun h => ⟨h.1, h.2⟩, fun h => ⟨h.stages, h.terminal⟩⟩

/-- The bound of a control is met with room to spare and the goal is missed: the multiplier of the
one is cut off at zero, and that of the other goes down. -/
theorem update_steered :
    let w : Multipliers ℝ 1 1 :=
      ⟨[⟨Vec.const 1 2, Vec.const 1 3⟩], ⟨Vec.const 1 0, Vec.const 1 1⟩⟩
    let values : ConstraintValues ℝ 1 1 := ⟨[Vec.const 1 (-1)], Vec.const 1 (-1)⟩
    let w' := w.update (Vec.const 1 false) (Vec.const 1 true) values ⟨10, 100, 1⟩ 1 1
    w'.lams = ([Vec.const 1 0], Vec.const 1 (-1)) ∧
      ¬ w.IsComplementary Lagrangian.steered.problem values := by
  intro w values w'
  have hproper : w.IsProper Lagrangian.steered.problem := by
    constructor
    · intro s hs
      obtain rfl := List.mem_singleton.1 hs
      exact ⟨by simp [Vec.get_eq], by simp [Vec.IsSigned, Vec.get_eq]⟩
    · exact ⟨by simp [w, Vec.get_eq], by simp [Vec.IsSigned, w, Vec.get_eq]⟩
  obtain ⟨hprojection, -, hfixed⟩ :=
    update_isProjection hproper (show w.stages.length = values.stages.length from rfl)
      ⟨10, 100, 1⟩ 1 1
  have hlams : w'.lams = ([Vec.const 1 0], Vec.const 1 (-1)) := by
    refine hprojection.trans (Prod.ext (congrArg (fun v => [v]) ?_) ?_)
    all_goals
      ext i hi
      norm_num [Vec.projection, projection, Weights.gradientWeights, Weights.activePenalties,
        activePenalty, isActive, Lagrangian.steered, Vec.get_eq, w, values]
  refine ⟨hlams, fun h => ?_⟩
  have hsame : ([Vec.const 1 0], Vec.const 1 (-1)) = w.lams := hlams.symm.trans (hfixed.2 h)
  have hentry := congrArg (fun l => l.2.get 0) hsame
  norm_num [lams, w, Vec.get_eq] at hentry

end Multipliers

end TrajOpt
