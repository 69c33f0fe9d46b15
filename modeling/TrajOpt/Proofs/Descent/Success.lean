import TrajOpt.Proofs.Descent.ExpectedDecrease
import TrajOpt.Proofs.Descent.Schedule
import TrajOpt.Proofs.Descent.Termination

/-!
# Success of the search for the regularization

A large enough regularization makes every backward pass succeed, whatever the Hessians are. That
does not follow knot by knot, as every value function depends on the regularization by the gains of
all later knots. But a larger regularization makes the reactions smaller: where the curvature of a
knot and of what follows is at most `c`, a reaction `v` to a deviation `x` satisfies

  `(ρ - 2 c) |v|² ≤ 2 c |x|²`,

so for `ρ ≥ 2 c + 1` the next value function is bounded by `c (1 + 2 c)`, which does not depend on
the regularization.

The search comes to such a weight if the largest weight leaves room for it. From a weight below it
one increase does not lead far beyond, since the factor of an increase is bounded by the weight that
earlier increases have left.

## Main definitions

* `StageTerms.IsBounded`, `Riccati.Sweep.IsBounded` - bounds on curvatures and value functions.
* `Regularization.reach` - how far one increase leads from a weight below a given one.
* `Succeeds` - the search ends with a backward pass that succeeds.

## Main statements

* `Riccati.exists_bounded_sweep` - value functions are bounded for every large regularization.
* `succeeds_of_reach` - the search succeeds if the largest weight leaves room.
* `succeeds_of_isSymmetric` - both together.
-/

namespace TrajOpt

open Matrix

variable {n m : Nat}

section Forms

theorem Vec.mul_self_le_dot (v : Vec ℝ n) (i : Fin n) : v.fn i * v.fn i ≤ dot v v := by
  rw [dot_eq]
  exact Finset.single_le_sum (f := fun i => v.fn i * v.fn i) (fun i _ => mul_self_nonneg (v.fn i))
    (Finset.mem_univ i)

/-- A product with a matrix between is bounded by the squares of both sides. -/
theorem Mat.exists_bilinear_le (a : Mat ℝ m n) : ∃ c, 0 ≤ c ∧ ∀ (u : Vec ℝ m) (v : Vec ℝ n),
    |bilinear u a v| ≤ c * (Vec.dot u u + Vec.dot v v) := by
  refine ⟨∑ i, ∑ j, |a.matrix i j|, by positivity, fun u v => ?_⟩
  have hentry : ∀ i j, |u.fn i * (a.matrix i j * v.fn j)| ≤
      |a.matrix i j| * (Vec.dot u u + Vec.dot v v) := by
    intro i j
    have hproduct : |u.fn i| * |v.fn j| ≤ Vec.dot u u + Vec.dot v v := by
      have hmean := two_mul_le_add_sq |u.fn i| |v.fn j|
      rw [sq_abs, sq_abs] at hmean
      linarith [u.mul_self_le_dot i, v.mul_self_le_dot j, u.dot_self_nonneg, v.dot_self_nonneg]
    calc |u.fn i * (a.matrix i j * v.fn j)| = |a.matrix i j| * (|u.fn i| * |v.fn j|) := by
          rw [abs_mul, abs_mul]
          ring
      _ ≤ |a.matrix i j| * (Vec.dot u u + Vec.dot v v) :=
          mul_le_mul_of_nonneg_left hproduct (abs_nonneg _)
  calc |bilinear u a v| = |∑ i, ∑ j, u.fn i * (a.matrix i j * v.fn j)| := by
        simp only [bilinear_eq, dotProduct, Matrix.mulVec, Finset.mul_sum]
    _ ≤ ∑ i, ∑ j, |u.fn i * (a.matrix i j * v.fn j)| :=
        (Finset.abs_sum_le_sum_abs _ _).trans
          (Finset.sum_le_sum fun i _ => Finset.abs_sum_le_sum_abs _ _)
    _ ≤ ∑ i, ∑ j, |a.matrix i j| * (Vec.dot u u + Vec.dot v v) :=
        Finset.sum_le_sum fun i _ => Finset.sum_le_sum fun j _ => hentry i j
    _ = (∑ i, ∑ j, |a.matrix i j|) * (Vec.dot u u + Vec.dot v v) := by
        simp only [Finset.sum_mul]

theorem Mat.exists_halfForm_le (w : Mat ℝ n n) :
    ∃ c, 0 ≤ c ∧ ∀ d : Vec ℝ n, |w.halfForm d| ≤ c * Vec.dot d d := by
  obtain ⟨c, hc, hbound⟩ := w.exists_bilinear_le
  refine ⟨c, hc, fun d => ?_⟩
  have hform : w.halfForm d = bilinear d w d / 2 := by rw [halfForm_eq, bilinear_eq]
  have hd := hbound d d
  rw [hform, abs_div, abs_two]
  linarith

/-- The second-order part of a cost is at most `c` times the squares of the deviations. -/
def StageTerms.IsBounded (t : StageTerms ℝ n m) (c : ℝ) : Prop :=
  ∀ dx du, |t.curvature dx du| ≤ c * (Vec.dot dx dx + Vec.dot du du)

theorem StageTerms.exists_isBounded (t : StageTerms ℝ n m) : ∃ c, 0 ≤ c ∧ t.IsBounded c := by
  obtain ⟨cx, hcx, hx⟩ := t.lxx.exists_halfForm_le
  obtain ⟨cu, hcu, hu⟩ := t.luu.exists_halfForm_le
  obtain ⟨c, hc, hux⟩ := t.lux.exists_bilinear_le
  refine ⟨cx + c + cu, by positivity, fun dx du => ?_⟩
  have htriangle := abs_add_three (t.lxx.halfForm dx) (Mat.bilinear du t.lux dx) (t.luu.halfForm du)
  have hcross := hux du dx
  have hxu := mul_nonneg hcx (Vec.dot_self_nonneg du)
  have huu := mul_nonneg hcu (Vec.dot_self_nonneg dx)
  rw [curvature]
  linarith [hx dx, hu du]

end Forms

namespace Riccati

/-- The second-order part of a value function is symmetric and at most `c` times the square of the
deviation. -/
structure Sweep.IsBounded (s : Sweep ℝ n m) (c : ℝ) : Prop where
  symm : s.Vxx.matrix.IsSymm
  le : ∀ dx, |s.Vxx.halfForm dx| ≤ c * Vec.dot dx dx

/-- The deviation of the next state is bounded by those of the state and the control. -/
theorem exists_next_le (e : StageExpansion ℝ n m) : ∃ c, 0 ≤ c ∧ ∀ dx du,
    Vec.dot (e.next dx du) (e.next dx du) ≤ c * (Vec.dot dx dx + Vec.dot du du) := by
  -- The square is what a value function with the identity as Hessian adds to the curvature.
  obtain ⟨s, hVxx⟩ : ∃ s : Sweep ℝ n m, s.Vxx = Mat.identity n :=
    ⟨⟨Vec.zero n, Mat.identity n, [], 0, 0⟩, rfl⟩
  have hs : s.Vxx.matrix.IsSymm := by
    rw [hVxx, Mat.matrix_identity]
    exact isSymm_one
  obtain ⟨ce, hce, he⟩ := e.exists_isBounded
  obtain ⟨ct, hct, ht⟩ := (action e s).exists_isBounded
  refine ⟨2 * (ct + ce), by positivity, fun dx du => ?_⟩
  have hsquare : s.Vxx.halfForm (e.next dx du) = Vec.dot (e.next dx du) (e.next dx du) / 2 := by
    rw [hVxx, Mat.halfForm_eq, Mat.matrix_identity, one_mulVec, Vec.dot_eq]
  have hcurvature := curvature_action e hs dx du
  have hupper := le_of_abs_le (ht dx du)
  have hlower := neg_le_of_abs_le (he dx du)
  linarith

/-- A bound on the value function bounds the curvature of the knot before. -/
theorem exists_isBounded_action (e : StageExpansion ℝ n m) {c : ℝ} (hc : 0 ≤ c) :
    ∃ c', 0 ≤ c' ∧ ∀ s : Sweep ℝ n m, s.IsBounded c → (action e s).IsBounded c' := by
  obtain ⟨ce, hce, he⟩ := e.exists_isBounded
  obtain ⟨cn, hcn, hn⟩ := exists_next_le e
  refine ⟨ce + c * cn, by positivity, fun s hs dx du => ?_⟩
  have hnext := mul_le_mul_of_nonneg_left (hn dx du) hc
  rw [curvature_action e hs.symm]
  linarith [abs_add_le (e.curvature dx du) (s.Vxx.halfForm (e.next dx du)), he dx du,
    hs.le (e.next dx du)]

section Stage

variable {t : StageTerms ℝ n m} {c rho : ℝ}

/-- A regularization above twice the bound makes the control Hessian positive definite. -/
theorem isSome_factor?_of_isBounded (ht : t.IsBounded c) (hrho : 2 * c < rho) :
    (t.luu.regularize rho).factor?.isSome := by
  apply Mat.isSome_factor?_of_halfForm
  intro d hd
  have hlower := neg_le_of_abs_le (ht (Vec.zero n) d)
  rw [StageTerms.curvature_zero, Vec.dot_self_zero, zero_add] at hlower
  rw [Mat.halfForm_regularize]
  nlinarith [Vec.dot_self_pos hd]

/-- How large the reaction of a gain to a deviation is. -/
theorem dot_reaction_le (ht : t.IsBounded c) (hluu : t.luu.matrix.IsSymm) {l : Cholesky ℝ m}
    (hl : (t.luu.regularize rho).factor? = some l) (dx : Vec ℝ n) :
    let v := (gainOf l t).K.mulVec dx
    (rho - 2 * c) * Vec.dot v v ≤ 2 * c * Vec.dot dx dx := by
  intro v
  have hgradient : (t.luu.regularize rho).matrix *ᵥ v.fn = -(t.lux.matrix *ᵥ dx.fn) := by
    obtain ⟨-, hK⟩ := mulVec_gainOf (isSymm_regularize hluu rho) hl t
    rw [Mat.fn_mulVec, mulVec_mulVec, hK, neg_mulVec]
  have hcross : Mat.bilinear v t.lux dx = -(2 * t.luu.halfForm v + rho * Vec.dot v v) := by
    have hform := Mat.halfForm_regularize t.luu rho v
    rw [Mat.halfForm_eq, hgradient, dotProduct_neg] at hform
    rw [Mat.bilinear_eq]
    linarith
  have hboth := neg_le_of_abs_le (ht dx v)
  have hstate := le_of_abs_le (ht dx (Vec.zero m))
  have hcontrol := neg_le_of_abs_le (ht (Vec.zero n) v)
  have hcurvature : t.curvature dx (Vec.zero m) = t.lxx.halfForm dx := by
    simp [StageTerms.curvature, Mat.bilinear_eq]
  rw [hcurvature, Vec.dot_self_zero, add_zero] at hstate
  rw [StageTerms.curvature_zero, Vec.dot_self_zero, zero_add] at hcontrol
  rw [StageTerms.curvature, hcross] at hboth
  linarith

/-- One knot further back, the value function has a bound that does not depend on the
regularization. -/
theorem isBounded_extend (ht : t.IsBounded c) (hc : 0 ≤ c) (hluu : t.luu.matrix.IsSymm)
    {l : Cholesky ℝ m} (hl : (t.luu.regularize rho).factor? = some l) (hrho : 2 * c + 1 ≤ rho)
    (s : Sweep ℝ n m) : (s.extend t (gainOf l t)).IsBounded (c * (1 + 2 * c)) := by
  refine ⟨isSymm_extend _ _ _, fun dx => ?_⟩
  set v := (gainOf l t).K.mulVec dx
  have hreaction : Vec.dot v v ≤ 2 * c * Vec.dot dx dx := by
    have hle := dot_reaction_le ht hluu hl dx
    nlinarith [Vec.dot_self_nonneg v]
  rw [halfForm_extend]
  calc |t.curvature dx v| ≤ c * (Vec.dot dx dx + Vec.dot v v) := ht dx v
    _ ≤ c * (Vec.dot dx dx + 2 * c * Vec.dot dx dx) := by gcongr
    _ = c * (1 + 2 * c) * Vec.dot dx dx := by ring

end Stage

/-- One knot further back, every large regularization succeeds, with one bound for all of them. -/
theorem exists_bounded_stage {e : StageExpansion ℝ n m} (he : e.luu.matrix.IsSymm) {c : ℝ}
    (hc : 0 ≤ c) : ∃ rho₀ c', 0 ≤ rho₀ ∧ 0 ≤ c' ∧ ∀ rho, rho₀ ≤ rho → ∀ s : Sweep ℝ n m,
      s.IsBounded c → ∃ t, stage rho e s = some t ∧ t.IsBounded c' := by
  obtain ⟨b, hb, haction⟩ := exists_isBounded_action e hc
  refine ⟨2 * b + 1, b * (1 + 2 * b), by positivity, by positivity, fun rho hrho s hs => ?_⟩
  have ht := haction s hs
  obtain ⟨l, hl⟩ := Option.isSome_iff_exists.1
    (isSome_factor?_of_isBounded ht (by linarith : 2 * b < rho))
  refine ⟨s.extend (action e s) (gainOf l (action e s)), by rw [stage_eq, hl]; rfl, ?_⟩
  exact isBounded_extend ht hb (isSymm_action he hs.symm) hl hrho s

/-- Every sweep with a large regularization goes through, and its value functions have one bound for
all of them. -/
theorem exists_bounded_sweep {e : Expansion ℝ n m} (hVxx : e.Vxx.matrix.IsSymm)
    {ks : List (StageExpansion ℝ n m)} (hluu : ∀ k ∈ ks, k.luu.matrix.IsSymm) :
    ∃ rho₀ c, 0 ≤ rho₀ ∧ 0 ≤ c ∧ ∀ rho, rho₀ ≤ rho →
      ∃ s, sweep rho (start e) ks = some s ∧ s.IsBounded c := by
  induction ks with
  | nil =>
    obtain ⟨c, hc, hbound⟩ := e.Vxx.exists_halfForm_le
    exact ⟨0, c, le_rfl, hc, fun rho _ => ⟨start e, rfl, hVxx, hbound⟩⟩
  | cons k ks ih =>
    obtain ⟨rho₁, c₁, hrho₁, hc₁, hrest⟩ := ih fun k' hk' => hluu k' (List.mem_cons_of_mem k hk')
    obtain ⟨rho₂, c₂, -, hc₂, hstage⟩ := exists_bounded_stage (hluu k List.mem_cons_self) hc₁
    refine ⟨max rho₁ rho₂, c₂, le_max_of_le_left hrho₁, hc₂, fun rho hrho => ?_⟩
    obtain ⟨s, hs, hbounded⟩ := hrest rho ((le_max_left _ _).trans hrho)
    obtain ⟨t, ht, hbounded'⟩ := hstage rho ((le_max_right _ _).trans hrho) s hbounded
    exact ⟨t, by rw [sweep, hs, Option.bind_some, ht], hbounded'⟩

theorem exists_backwardPass {e : Expansion ℝ n m} (he : e.IsSymmetric) :
    ∃ rho₀, 0 ≤ rho₀ ∧ ∀ rho, rho₀ ≤ rho → (backwardPass e rho).isSome := by
  obtain ⟨rho₀, c, hrho₀, -, hsweep⟩ := exists_bounded_sweep he.isSymm_Vxx he.isSymm_luu
  refine ⟨rho₀, hrho₀, fun rho hrho => ?_⟩
  obtain ⟨s, hs, -⟩ := hsweep rho hrho
  exact Option.isSome_of_eq_some hs

end Riccati

namespace Regularization

variable {o : Options ℝ} {r : Regularization ℝ}

/-- The factor of the last step is not large, or the weight is large as well. -/
structure IsModerate (o : Options ℝ) (r : Regularization ℝ) : Prop where
  nonneg : r.IsNonneg
  change_le : r.change ≤ 1 ∨ r.change * o.regMin ≤ r.weight * o.regFactor

theorem regFactor_le_change_increase (r : Regularization ℝ) :
    o.regFactor ≤ (r.increase o).change := by
  rw [change_increase]
  exact le_max_right _ _

theorem regMin_le_weight_increase (r : Regularization ℝ) : o.regMin ≤ (r.increase o).weight := by
  rw [weight_increase]
  exact le_max_right _ _

theorem mul_change_le_weight_increase (r : Regularization ℝ) :
    r.weight * (r.increase o).change ≤ (r.increase o).weight := by
  rw [weight_increase]
  exact le_max_left _ _

theorem IsModerate.increase (ho : o.Accepted) (hr : r.IsModerate o) :
    (r.increase o).IsModerate o := by
  have hfactor := ho.regFactor_pos
  have hmin := ho.regMin_pos
  refine ⟨isNonneg_increase ho hr.nonneg, .inr ?_⟩
  by_cases hle : r.change ≤ 1
  · rw [change_increase_of_le_one ho hle, mul_comm]
    exact mul_le_mul_of_nonneg_right (regMin_le_weight_increase r) hfactor.le
  · have hone : 1 ≤ r.change := (not_le.1 hle).le
    have hchange : (r.increase o).change = r.change * o.regFactor := by
      rw [change_increase]
      exact max_eq_left (le_mul_of_one_le_left hfactor.le hone)
    have hlarge := hr.change_le.resolve_left hle
    have hgrown := mul_change_le_weight_increase (o := o) r
    rw [hchange] at hgrown ⊢
    have hweight : r.change * o.regMin ≤ (r.increase o).weight :=
      calc r.change * o.regMin ≤ r.weight * o.regFactor := hlarge
        _ ≤ r.weight * (r.change * o.regFactor) :=
            mul_le_mul_of_nonneg_left (le_mul_of_one_le_left hfactor.le hone) hr.nonneg.weight
        _ ≤ (r.increase o).weight := hgrown
    calc r.change * o.regFactor * o.regMin = r.change * o.regMin * o.regFactor := by ring
      _ ≤ (r.increase o).weight * o.regFactor := mul_le_mul_of_nonneg_right hweight hfactor.le

theorem isModerate_after (ho : o.Accepted) (steps : List Adjustment) :
    (after o steps).IsModerate o := by
  induction steps using List.reverseRecOn with
  | nil => exact ⟨isNonneg_start ho, .inl zero_le_one⟩
  | append_singleton steps a ih =>
    rw [after_concat]
    cases a with
    | up => exact ih.increase ho
    | down => exact ⟨isNonneg_decrease ho ih.nonneg, .inl (change_decrease_le_one ho _)⟩

/-- The largest weight that one increase leads to from a weight below `rho`, for the factor of the
schedule and its smallest weight. -/
noncomputable def reach (factor least rho : ℝ) : ℝ :=
  max (rho * (factor * max 1 (rho * factor / least))) least

theorem weight_increase_le_reach (ho : o.Accepted) (hr : r.IsModerate o) {rho : ℝ}
    (hrho : r.weight ≤ rho) : (r.increase o).weight ≤ reach o.regFactor o.regMin rho := by
  have hfactor := ho.regFactor_pos
  set bound := max 1 (rho * o.regFactor / o.regMin)
  have hbound : r.change ≤ bound := by
    rcases hr.change_le with hle | hle
    · exact hle.trans (le_max_left _ _)
    · refine le_max_of_le_right ((le_div_iff₀ ho.regMin_pos).2 (hle.trans ?_))
      exact mul_le_mul_of_nonneg_right hrho hfactor.le
  have hchange : (r.increase o).change ≤ o.regFactor * bound := by
    rw [change_increase, mul_comm r.change]
    exact max_le (mul_le_mul_of_nonneg_left hbound hfactor.le)
      (le_mul_of_one_le_right hfactor.le (le_max_left _ _))
  have hnonneg := (isNonneg_increase ho hr.nonneg).change
  rw [weight_increase, reach]
  exact max_le_max
    (mul_le_mul hrho hchange hnonneg (hr.nonneg.weight.trans hrho)) le_rfl

end Regularization

section Search

variable {e : Expansion ℝ n m} {o : Options ℝ} {r : Regularization ℝ}

/-- With enough passes the search ends with a backward pass that succeeds, and with fewer it is cut
off before. -/
def Succeeds (o : Options ℝ) (e : Expansion ℝ n m) (r : Regularization ℝ) : Prop :=
  ∃ passes r' sweep, Riccati.backwardPass e r'.weight = some sweep ∧
    ∀ k, (searchRegularization o e k r : Run (Event ℝ) (Error ℝ) _).outcome =
      if passes ≤ k then .ok (r', .ok sweep) else .error .endless

theorem succeeds_of_isSome (h : (Riccati.backwardPass e r.weight).isSome) : Succeeds o e r := by
  obtain ⟨sweep, hsweep⟩ := Option.isSome_iff_exists.1 h
  refine ⟨1, r, sweep, hsweep, fun k => ?_⟩
  cases k with
  | zero => rfl
  | succ k => rw [outcome_search_of_some hsweep, if_pos (Nat.le_add_left 1 k)]

/-- A search succeeds if it does from the next regularization, unless that is too large. -/
theorem Succeeds.of_increase (hmax : (r.increase o).weight ≤ o.regMax)
    (h : Succeeds o e (r.increase o)) : Succeeds o e r := by
  cases hpass : Riccati.backwardPass e r.weight with
  | some sweep => exact succeeds_of_isSome (Option.isSome_of_eq_some hpass)
  | none =>
    obtain ⟨passes, r', sweep, hsweep, hsearch⟩ := h
    have hexhausted : ¬ (r.increase o).exhausted o = true := by
      simpa [Regularization.exhausted] using hmax
    refine ⟨passes + 1, r', sweep, hsweep, fun k => ?_⟩
    cases k with
    | zero => rfl
    | succ k =>
      rw [outcome_search_of_none hpass, if_neg hexhausted, hsearch k]
      simp only [Nat.add_le_add_iff_right]

/-- The search succeeds if the largest weight is not below what one increase leads to from a weight
at which backward passes may fail. -/
theorem succeeds_of_reach (ho : o.Accepted) {rho : ℝ}
    (hpass : ∀ weight, rho ≤ weight → (Riccati.backwardPass e weight).isSome)
    (hmax : Regularization.reach o.regFactor o.regMin rho ≤ o.regMax) (hr : r.IsModerate o) :
    Succeeds o e r := by
  have hstep : ∀ r : Regularization ℝ, r.IsModerate o →
      (r.weight < rho → Succeeds o e (r.increase o)) → Succeeds o e r := by
    intro r hr hnext
    by_cases hlt : r.weight < rho
    · exact (hnext hlt).of_increase
        ((Regularization.weight_increase_le_reach ho hr hlt.le).trans hmax)
    · exact succeeds_of_isSome (hpass _ (not_lt.1 hlt))
  -- From a positive weight on, every increase multiplies it by the factor at least.
  have hgrown : ∀ (k : Nat) (r : Regularization ℝ), r.IsModerate o →
      rho ≤ r.weight * o.regFactor ^ k → Succeeds o e r := by
    intro k
    induction k with
    | zero =>
      intro r _ hrho
      rw [pow_zero, mul_one] at hrho
      exact succeeds_of_isSome (hpass _ hrho)
    | succ k ih =>
      intro r hr hrho
      refine hstep r hr fun _ => ih _ (hr.increase ho) (hrho.trans ?_)
      have hgrowth : r.weight * o.regFactor ≤ (r.increase o).weight :=
        (mul_le_mul_of_nonneg_left (Regularization.regFactor_le_change_increase r)
          hr.nonneg.weight).trans (Regularization.mul_change_le_weight_increase r)
      rw [pow_succ', ← mul_assoc]
      exact mul_le_mul_of_nonneg_right hgrowth (pow_pos ho.regFactor_pos k).le
  refine hstep r hr fun _ => ?_
  obtain ⟨k, hk⟩ := pow_unbounded_of_one_lt (rho / o.regMin) ho.one_lt_regFactor
  refine hgrown k _ (hr.increase ho) ?_
  calc rho ≤ o.regMin * o.regFactor ^ k := ((div_lt_iff₀' ho.regMin_pos).1 hk).le
    _ ≤ (r.increase o).weight * o.regFactor ^ k :=
        mul_le_mul_of_nonneg_right (Regularization.regMin_le_weight_increase r)
          (pow_pos ho.regFactor_pos k).le

end Search

/-- In exact arithmetic, every expansion with symmetric Hessians has a weight from which on all
backward passes succeed, and under options whose largest weight leaves room for it, every search for
the regularization succeeds, whatever steps the schedule made before. -/
theorem succeeds_of_isSymmetric {e : Expansion ℝ n m} (he : e.IsSymmetric) :
    ∃ rho₀, 0 ≤ rho₀ ∧ (∀ rho, rho₀ ≤ rho → (Riccati.backwardPass e rho).isSome) ∧
      ∀ o : Options ℝ, o.Accepted → Regularization.reach o.regFactor o.regMin rho₀ ≤ o.regMax →
        ∀ steps, Succeeds o e (Regularization.after o steps) := by
  obtain ⟨rho₀, hrho₀, hpass⟩ := Riccati.exists_backwardPass he
  exact ⟨rho₀, hrho₀, hpass, fun o ho hmax steps =>
    succeeds_of_reach ho hpass hmax (Regularization.isModerate_after ho steps)⟩

theorem isSymmetric_single (luu : ℝ) : (Expansion.single luu).IsSymmetric := by
  refine ⟨fun k hk => ?_, rfl⟩
  obtain rfl := List.mem_singleton.1 hk
  rfl

theorem backwardPass_single_of_neg : Riccati.backwardPass (Expansion.single (-2 : ℝ)) 0 = none := by
  rw [← Option.not_isSome_iff_eq_none]
  simp only [Riccati.backwardPass, Expansion.single, Riccati.sweep, Option.bind_some,
    Riccati.stage_eq, Mat.regularize_zero, Option.isSome_map, Mat.isSome_factor?]
  intro h
  have hform := h (fun _ => 1) one_ne_zero
  simp only [Riccati.action, Riccati.start, Mat.matrix_add, Mat.matrix_mul, Mat.matrix_transpose,
    dotProduct, Matrix.mulVec, Fin.sum_univ_one, Matrix.add_apply, Matrix.mul_apply,
    transpose_apply] at hform
  norm_num [Mat.matrix, Vec.const] at hform

/-- A negative control Hessian fails at first and succeeds in the end, if the largest weight of the
default options is raised far enough. -/
theorem succeeds_of_single : Riccati.backwardPass (Expansion.single (-2 : ℝ)) 0 = none ∧
    ∃ largest : ℝ, ∀ steps, Succeeds { Options.standard with regMax := largest }
      (Expansion.single (-2)) (.after { Options.standard with regMax := largest } steps) := by
  refine ⟨backwardPass_single_of_neg, ?_⟩
  obtain ⟨rho₀, -, -, hsearch⟩ := succeeds_of_isSymmetric (isSymmetric_single (-2))
  set largest := max 1 (Regularization.reach 1.6 1e-8 rho₀)
  have ho : ({ Options.standard with regMax := largest } : Options ℝ).Accepted :=
    { Descent.accepted_standard with
      regularization := by
        have hone : 1 ≤ largest := le_max_left _ _
        norm_num [Options.standard]
        linarith }
  exact ⟨largest, hsearch _ ho (le_max_right _ _)⟩

end TrajOpt
