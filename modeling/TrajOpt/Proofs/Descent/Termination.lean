import TrajOpt.Proofs.Descent.Moves
import TrajOpt.Proofs.Scalar.Operations

/-!
# Termination of the search for the regularization

The search has no counter: it ends because the weight grows past the largest one. With doubles it
grows because every increase multiplies the factor by a number above one, which leads from one
double to a larger one, and there are only finitely many doubles. If the factor becomes infinite, so
does the weight, and an infinite weight is above the largest one.

This needs numbers. The checks on the options let through what is not a number, as well as a factor
or a largest weight that is infinite, and with these the weight may never be above the largest one.

## Main definitions

* `Ends` - the search ends, and either a backward pass succeeds or the weight is too large.
* `Reachable` - the regularizations that a run can come to.
* `Regularization.IsGrowable` - what they have in common.

## Main statements

* `Descent.reachable_of_loop` - every regularization of a run is reachable.
* `Regularization.isGrowable_of_reachable` - what reachable regularizations have in common.
* `search_endless_of_not_isNumber`, `search_endless_of_min` - searches that never end.
* `ends_iff_of_accepted` - for which of the accepted options every search ends.
-/

namespace TrajOpt

section Search

variable {α : Type} [Scalar α] {n m : Nat} {o : Options α} {e : Expansion α n m}
  {r : Regularization α}

/-- A search is over where the backward pass succeeds. -/
theorem outcome_search_of_some {ν : Type} {sweep : Riccati.Sweep α n m}
    (h : Riccati.backwardPass e r.weight = some sweep) (passes : Nat) :
    (searchRegularization o e (passes + 1) r : Run (Event α) (Error ν) _).outcome =
      .ok (r, .ok sweep) := by
  rw [searchRegularization, h]
  rfl

/-- After a backward pass that fails, a search is over if the weight is too large. -/
theorem outcome_search_of_none {ν : Type} (h : Riccati.backwardPass e r.weight = none)
    (passes : Nat) :
    (searchRegularization o e (passes + 1) r : Run (Event α) (Error ν) _).outcome =
      if (r.increase o).exhausted o then
        .ok (r.increase o, .error (Riccati.backwardAttempt e r.weight).gains)
      else (searchRegularization o e passes (r.increase o)).outcome := by
  rw [searchRegularization, h]
  simp only [Run.outcome_bind]
  have hraise : (r.raise o : Run (Event α) (Error ν) _).outcome = .ok (r.increase o) := rfl
  rw [hraise, ok_bind]
  split <;> rfl

/-- With enough passes the search ends, always in the same way: with a backward pass that succeeds
or with a weight above the largest one. -/
def Ends (o : Options α) (e : Expansion α n m) (r : Regularization α) : Prop :=
  ∃ passes r' found,
    (∀ k, passes ≤ k → (searchRegularization o e k r : Run (Event α) (Error α) _).outcome =
      .ok (r', found)) ∧
    (found.toOption.isSome = true ∨ r'.exhausted o = true)

theorem ends_of_some {sweep : Riccati.Sweep α n m}
    (h : Riccati.backwardPass e r.weight = some sweep) : Ends o e r := by
  refine ⟨1, r, .ok sweep, fun k hk => ?_, .inl rfl⟩
  obtain ⟨k, rfl⟩ := Nat.exists_eq_add_of_le' hk
  exact outcome_search_of_some h k

theorem ends_of_exhausted (h : Riccati.backwardPass e r.weight = none)
    (hexhausted : (r.increase o).exhausted o = true) : Ends o e r := by
  refine ⟨1, r.increase o, .error (Riccati.backwardAttempt e r.weight).gains, fun k hk => ?_,
    .inr hexhausted⟩
  obtain ⟨k, rfl⟩ := Nat.exists_eq_add_of_le' hk
  rw [outcome_search_of_none h, if_pos hexhausted]

/-- A search ends if it ends from the next regularization. -/
theorem Ends.of_increase (hends : Ends o e (r.increase o)) : Ends o e r := by
  cases h : Riccati.backwardPass e r.weight with
  | some sweep => exact ends_of_some h
  | none =>
    by_cases hexhausted : (r.increase o).exhausted o = true
    · exact ends_of_exhausted h hexhausted
    · obtain ⟨passes, r', found, hsearch, hresult⟩ := hends
      refine ⟨passes + 1, r', found, fun k hk => ?_, hresult⟩
      obtain ⟨k, rfl⟩ := Nat.exists_eq_add_of_le' (Nat.le_of_add_left_le hk)
      rw [outcome_search_of_none h, if_neg hexhausted]
      exact hsearch k (by omega)

/-- A search never ends if no regularization that it comes to lets it end. -/
theorem search_endless {P : Regularization α → Prop}
    (hstep : ∀ r, P r → Riccati.backwardPass e r.weight = none ∧
      ¬ (r.increase o).exhausted o = true ∧ P (r.increase o)) (hr : P r) (passes : Nat) :
    (searchRegularization o e passes r : Run (Event α) (Error α) _).outcome =
      .error .endless := by
  induction passes generalizing r with
  | zero => rfl
  | succ passes ih =>
    obtain ⟨hnone, hexhausted, hnext⟩ := hstep r hr
    rw [outcome_search_of_none hnone, if_neg hexhausted]
    exact ih hnext

theorem not_ends_of_endless
    (h : ∀ passes, (searchRegularization o e passes r : Run (Event α) (Error α) _).outcome =
      .error .endless) : ¬ Ends o e r := by
  rintro ⟨passes, r', found, hsearch, -⟩
  cases (h passes).symm.trans (hsearch passes le_rfl)

end Search

section Reachable

variable {α : Type} [Scalar α] {n m : Nat} {o : Options α}

/-- The regularizations that a run can come to: it starts with the first one, raises it as often as
it likes, and lowers it after a backward pass over at least one knot that succeeds. -/
inductive Reachable (o : Options α) (n m : Nat) : Regularization α → Prop where
  | start : Reachable o n m (.start o)
  | raised {r : Regularization α} : Reachable o n m r → Reachable o n m (r.increase o)
  | lowered {r : Regularization α} {e : Expansion α n m} {sweep : Riccati.Sweep α n m} :
    Reachable o n m r → e.stages ≠ [] → Riccati.backwardPass e r.weight = some sweep →
      Reachable o n m (r.decrease o)

namespace Descent

variable {aim : Aim α n m}

theorem reachable_of_move (haim : ∀ path, (aim.expand path).stages ≠ []) {s : Iterate α n m}
    {reg : Regularization α} {mv : Move α n m} (hs : Reachable o n m s.reg)
    (h : move o aim s = .ok (reg, mv)) : Reachable o n m (mv.carryOut o aim s reg).1.reg := by
  have hreg : Reachable o n m reg := reg_of_move (fun _ => .raised) hs h
  cases mv with
  | stuck gains => exact hreg
  | stationary gains => exact hreg
  | rejected gains => exact .raised hreg
  | taken gains step =>
    obtain ⟨sweep, -, hpass, -⟩ := move_taken h
    exact .lowered hreg (haim s.path) (backwardPass_of_search hpass)

/-- Whatever the budget, the regularization at the end of a run is reachable. -/
theorem reachable_of_loop (haim : ∀ path, (aim.expand path).stages ≠ []) {left done : Nat}
    {s : Iterate α n m} {r : Result α n m} (hs : Reachable o n m s.reg)
    (h : (loop o aim left done s).outcome = .ok r) : Reachable o n m r.final.reg := by
  have hmove : ∀ s reg mv t stop, Reachable o n m s.reg → move o aim s = .ok (reg, mv) →
      mv.carryOut o aim s reg = (t, stop) → Reachable o n m t.reg := by
    intro s reg mv t stop hs hmv hcarry
    have hnext := reachable_of_move haim hs hmv
    rwa [hcarry] at hnext
  exact (loop_induction (fun _ s => Reachable o n m s.reg) (fun _ s _ => Reachable o n m s.reg)
    (fun _ s reg mv t => hmove s reg mv t none)
    (fun _ s reg mv t status => hmove s reg mv t (some status)) (fun _ _ hs => hs) [] h hs).1

end Descent

end Reachable

section Pivot

variable {α : Type} [Scalar α] {k : Nat}

namespace Mat

theorem corner_add (a b : Mat α (k + 1) (k + 1)) : (a + b).corner = a.corner + b.corner := by
  simp [corner, Vec.first]

theorem corner_regularize (a : Mat α (k + 1) (k + 1)) (weight : α) :
    (a.regularize weight).corner = a.corner + weight * 1 := by
  simp [regularize, corner, Vec.first, scale, identity, diagonal, Vec.scale]

theorem corner_symmetrize (a : Mat α (k + 1) (k + 1)) :
    a.symmetrize.corner = 0.5 * (a.corner + a.corner) := by
  simp [symmetrize, corner, Vec.first, scale, transpose, Vec.scale]

/-- The first diagonal entry of a factor is finite. -/
theorem isFinite_sqrt_of_factor? {a : Mat α (k + 1) (k + 1)} {l : Cholesky α (k + 1)}
    (h : a.factor? = some l) : Scalar.isFinite (Scalar.sqrt a.symmetrize.corner) = true := by
  obtain ⟨hl, hfinite⟩ := Option.filter_eq_some_iff.1 h
  unfold Cholesky.ofLower? at hl
  simp only [Option.ite_none_left_eq_some, Option.map_eq_some_iff] at hl
  obtain ⟨-, rest, -, rfl⟩ := hl
  simp only [Cholesky.isFinite, Bool.and_eq_true] at hfinite
  exact hfinite.1.1

theorem isSome_factor?_zero (a : Mat α 0 0) : a.factor?.isSome = true := rfl

end Mat

namespace Riccati

variable {n m : Nat}

/-- Without controls there is nothing to regularize. -/
theorem isSome_backwardPass_zero (e : Expansion α n 0) (rho : α) :
    (backwardPass e rho).isSome = true := by
  rw [backwardPass]
  generalize e.stages = es
  induction es with
  | nil => rfl
  | cons e es ih =>
    obtain ⟨t, ht⟩ := Option.isSome_iff_exists.1 ih
    rw [sweep, ht, Option.bind_some, stage, Option.isSome_map]
    exact Mat.isSome_factor?_zero _

/-- A sweep over at least one knot has a first one, where the Hessian has a factor. -/
theorem exists_factor?_of_sweep {rho : α} {s t : Sweep α n m} {es : List (StageExpansion α n m)}
    (hes : es ≠ []) (h : sweep rho s es = some t) :
    ∃ e ∈ es, ∃ (V : Mat α n n) (l : Cholesky α m),
      ((e.luu + Mat.mul (Mat.mul e.B.transpose V) e.B).regularize rho).factor? = some l := by
  cases es with
  | nil => exact absurd rfl hes
  | cons e es =>
    obtain ⟨u, -, ht⟩ := Option.bind_eq_some_iff.1 h
    obtain ⟨l, hl, -⟩ := Option.map_eq_some_iff.1 ht
    exact ⟨e, List.mem_cons_self, u.Vxx, l, hl⟩

end Riccati

end Pivot

section Doubles

open LawfulScalar

namespace Riccati

variable {n k : Nat}

/-- A backward pass that succeeds needs a finite weight and finite Hessians. -/
theorem isFinite_of_backwardPass {e : Expansion Float n (k + 1)} {rho : Float}
    {s : Sweep Float n (k + 1)} (he : e.stages ≠ []) (h : backwardPass e rho = some s) :
    Scalar.isFinite rho = true ∧ ∃ stage ∈ e.stages, Scalar.isFinite stage.luu.corner = true := by
  obtain ⟨stage, hstage, V, l, hl⟩ := exists_factor?_of_sweep he h
  have hpivot := Double.isFinite_of_sqrt (Mat.isFinite_sqrt_of_factor? hl)
  rw [Mat.corner_symmetrize] at hpivot
  have hcorner := (Double.isFinite_of_add (Double.isFinite_of_mul hpivot).2).1
  rw [Mat.corner_regularize, Mat.corner_add] at hcorner
  obtain ⟨hQuu, hrho⟩ := Double.isFinite_of_add hcorner
  exact ⟨(Double.isFinite_of_mul hrho).1, stage, hstage, (Double.isFinite_of_add hQuu).1⟩

end Riccati

/-- The numbers of a schedule that grows past its largest weight. -/
structure Options.IsSchedule (o : Options Float) : Prop where
  isNumber_initial : Arith.isNumber o.regInitial = true
  initial_nonneg : 0 ≤ value o.regInitial
  isFinite_factor : Scalar.isFinite o.regFactor = true
  one_lt_factor : 1 < value o.regFactor
  min_pos : 0 < value o.regMin
  isFinite_max : Scalar.isFinite o.regMax = true

namespace Options

variable {o : Options Float}

theorem Accepted.one_lt_factor (ho : o.Accepted) (hfactor : Arith.isNumber o.regFactor = true) :
    1 < value o.regFactor := by
  have hone : Arith.isNumber (1 : Float) = true := Arith.isNumber_of_isFinite Double.isFinite_one
  obtain ⟨-, -, hlt⟩ := lt_iff.1 (Arith.lt_of_not_le hfactor hone ho.regFactor)
  exact Double.value_one.symm.trans_lt hlt

theorem Accepted.isSchedule (ho : o.Accepted) (hmin : Arith.isNumber o.regMin = true)
    (hinitial : Arith.isNumber o.regInitial = true)
    (hfactor : Scalar.isFinite o.regFactor = true) (hmax : Scalar.isFinite o.regMax = true) :
    o.IsSchedule where
  isNumber_initial := hinitial
  initial_nonneg := by
    by_contra hneg
    refine ho.regularization (.inl (lt_iff.2 ⟨hinitial, isNumber_zero, ?_⟩))
    rw [value_zero]
    exact not_le.1 hneg
  isFinite_factor := hfactor
  one_lt_factor := ho.one_lt_factor (Arith.isNumber_of_isFinite hfactor)
  min_pos := by
    have hpos := ho.positive ("bp_reg_min", o.regMin) (by simp [positives])
    obtain ⟨-, -, hlt⟩ := lt_iff.1 (Arith.lt_of_not_le hmin isNumber_zero hpos)
    rwa [value_zero] at hlt
  isFinite_max := hmax

end Options

namespace Regularization

/-- The weight and the factor are numbers that are not negative, and a weight of zero comes with a
factor that cannot overflow in one step. -/
structure IsGrowable (r : Regularization Float) : Prop where
  isNumber_weight : Arith.isNumber r.weight = true
  weight_nonneg : 0 ≤ value r.weight
  isNumber_change : Arith.isNumber r.change = true
  change_nonneg : 0 ≤ value r.change
  pos_or_le : 0 < value r.weight ∨ value r.change ≤ 1

variable {o : Options Float} {r : Regularization Float}

theorem isGrowable_of_grown (hchange : 1 < value r.change) (hweight : 0 < value r.weight) :
    r.IsGrowable where
  isNumber_weight := Double.isNumber_of_pos hweight
  weight_nonneg := hweight.le
  isNumber_change := Double.isNumber_of_pos (zero_lt_one.trans hchange)
  change_nonneg := (zero_lt_one.trans hchange).le
  pos_or_le := .inl hweight

theorem isGrowable_start (ho : o.IsSchedule) : (start o).IsGrowable where
  isNumber_weight := ho.isNumber_initial
  weight_nonneg := ho.initial_nonneg
  isNumber_change := isNumber_zero
  change_nonneg := value_zero.ge
  pos_or_le := .inr (value_zero.trans_le zero_le_one)

theorem IsGrowable.isFinite_change (hr : r.IsGrowable) (hle : value r.change ≤ 1) :
    Scalar.isFinite r.change = true :=
  Double.isFinite_of_le hr.isNumber_change hr.change_nonneg Double.isFinite_one
    (hle.trans_eq Double.value_one.symm)

/-- The factor after an increase is the larger one of two numbers. -/
theorem value_change_increase (ho : o.IsSchedule) (hr : r.IsGrowable) :
    value (r.increase o).change = max (value (r.change * o.regFactor)) (value o.regFactor) := by
  refine Arith.value_larger ?_ (Arith.isNumber_of_isFinite ho.isFinite_factor)
  rcases hr.change_nonneg.eq_or_lt with hzero | hpos
  · have hfinite := hr.isFinite_change (hzero.symm.trans_le zero_le_one)
    exact Double.isNumber_mul hfinite ho.isFinite_factor
  · exact Double.isNumber_of_pos (hpos.trans_le (Double.value_le_mul hpos ho.one_lt_factor.le))

theorem one_lt_change_increase (ho : o.IsSchedule) (hr : r.IsGrowable) :
    1 < value (r.increase o).change := by
  rw [value_change_increase ho hr]
  exact ho.one_lt_factor.trans_le (le_max_right _ _)

/-- One increase of a factor of at most one does not overflow. -/
theorem isFinite_change_increase (ho : o.IsSchedule) (hr : r.IsGrowable)
    (hle : value r.change ≤ 1) : Scalar.isFinite (r.increase o).change = true := by
  have hpos : 0 < value (r.increase o).change :=
    zero_lt_one.trans (one_lt_change_increase ho hr)
  refine Double.isFinite_of_le (Double.isNumber_of_pos hpos) hpos.le ho.isFinite_factor ?_
  rw [value_change_increase ho hr]
  exact max_le (Double.value_mul_le (hr.isFinite_change hle) ho.isFinite_factor hle
    (zero_lt_one.trans ho.one_lt_factor).le) le_rfl

/-- The weight after an increase is the larger one of two numbers. -/
theorem value_weight_increase (ho : o.IsSchedule) (hr : r.IsGrowable) :
    value (r.increase o).weight =
      max (value (r.weight * (r.increase o).change)) (value o.regMin) := by
  refine Arith.value_larger ?_ (Double.isNumber_of_pos ho.min_pos)
  by_cases hpos : 0 < value r.weight
  · have hle := Double.value_le_mul hpos (one_lt_change_increase ho hr).le
    exact Double.isNumber_of_pos (hpos.trans_le hle)
  · have hfinite : Scalar.isFinite r.weight = true :=
      Double.isFinite_of_le hr.isNumber_weight hr.weight_nonneg Double.isFinite_zero
        ((not_lt.1 hpos).trans_eq value_zero.symm)
    have hle := hr.pos_or_le.resolve_left hpos
    exact Double.isNumber_mul hfinite (isFinite_change_increase ho hr hle)

/-- The weight is positive after every increase, as it is raised to the smallest one. -/
theorem weight_increase_pos (ho : o.IsSchedule) (hr : r.IsGrowable) :
    0 < value (r.increase o).weight := by
  rw [value_weight_increase ho hr]
  exact ho.min_pos.trans_le (le_max_right _ _)

theorem IsGrowable.increase (ho : o.IsSchedule) (hr : r.IsGrowable) :
    (r.increase o).IsGrowable :=
  isGrowable_of_grown (one_lt_change_increase ho hr) (weight_increase_pos ho hr)

/-- The factor after a decrease is a number between zero and one. -/
theorem change_decrease (ho : o.IsSchedule) (hr : r.IsGrowable) :
    Arith.isNumber (r.decrease o).change = true ∧ 0 ≤ value (r.decrease o).change ∧
      value (r.decrease o).change ≤ 1 := by
  have hfactor : 0 < value o.regFactor := zero_lt_one.trans ho.one_lt_factor
  obtain ⟨hquotient, hquotient0⟩ := Double.value_div_nonneg hr.isNumber_change hr.change_nonneg
    ho.isFinite_factor hfactor
  obtain ⟨hinverse, hinverse0⟩ := Double.value_div_nonneg
    (Arith.isNumber_of_isFinite Double.isFinite_one)
    (zero_le_one.trans_eq Double.value_one.symm) ho.isFinite_factor hfactor
  have hinverse1 := Double.value_div_le_one Double.isFinite_one ho.isFinite_factor hfactor
    (Double.value_one.trans_le ho.one_lt_factor.le)
  have hvalue : value (r.decrease o).change =
      min (value (r.change / o.regFactor)) (value (One.one / o.regFactor)) :=
    Arith.value_smaller hquotient hinverse
  rw [hvalue]
  exact ⟨Arith.isNumber_smaller hquotient hinverse, le_min hquotient0 hinverse0,
    (min_le_right _ _).trans hinverse1⟩

theorem weight_decrease (o : Options Float) (r : Regularization Float) :
    (r.decrease o).weight = r.weight * (r.decrease o).change ∨ (r.decrease o).weight = 0 := by
  simp only [Regularization.decrease]
  split
  · exact .inr rfl
  · exact .inl rfl

/-- A decrease keeps the weight a number as long as it is finite. -/
theorem IsGrowable.decrease (ho : o.IsSchedule) (hr : r.IsGrowable)
    (hfinite : Scalar.isFinite r.weight = true) : (r.decrease o).IsGrowable := by
  obtain ⟨hnumber, hnonneg, hle⟩ := change_decrease ho hr
  have hchange : Scalar.isFinite (r.decrease o).change = true :=
    Double.isFinite_of_le hnumber hnonneg Double.isFinite_one (hle.trans_eq Double.value_one.symm)
  obtain hweight | hweight := weight_decrease o r
  · exact ⟨hweight ▸ Double.isNumber_mul hfinite hchange,
      hweight ▸ Double.value_mul_nonneg hfinite hchange hr.weight_nonneg hnonneg, hnumber,
      hnonneg, .inr hle⟩
  · exact ⟨hweight ▸ isNumber_zero, hweight ▸ value_zero.ge, hnumber, hnonneg, .inr hle⟩

/-- Every reachable regularization can grow. -/
theorem isGrowable_of_reachable (ho : o.IsSchedule) {n k : Nat}
    (hr : Reachable o n (k + 1) r) : r.IsGrowable := by
  induction hr with
  | start => exact isGrowable_start ho
  | raised _ ih => exact ih.increase ho
  | lowered _ he hpass ih => exact ih.decrease ho (Riccati.isFinite_of_backwardPass he hpass).1

/-- An infinite factor makes the weight infinite, which is above the largest one. -/
theorem exhausted_of_infinite (ho : o.IsSchedule) (hchange : 1 < value r.change)
    (hweight : 0 < value r.weight) (hinfinite : ¬ Scalar.isFinite r.change = true) :
    (r.increase o).exhausted o = true := by
  have hr := isGrowable_of_grown hchange hweight
  have htop : value (r.increase o).change = ⊤ := by
    have hpos : 0 < value r.change := zero_lt_one.trans hchange
    rw [value_change_increase ho hr, Double.value_eq_top_of_pos
      (hpos.trans_le (Double.value_le_mul hpos ho.one_lt_factor.le))
      fun h => hinfinite (Double.isFinite_of_mul h).1, top_sup_eq]
  have htop' : value (r.increase o).weight = ⊤ := by
    have hle := Double.value_le_mul hweight (one_lt_change_increase ho hr).le
    rw [value_weight_increase ho hr, Double.value_eq_top_of_pos (hweight.trans_le hle)
      fun h => (isFinite_iff.1 (Double.isFinite_of_mul h).2).2.2 htop, top_sup_eq]
  refine decide_eq_true (lt_iff.2 ⟨Arith.isNumber_of_isFinite ho.isFinite_max,
    Double.isNumber_of_pos (weight_increase_pos ho hr), ?_⟩)
  rw [htop']
  exact (isFinite_iff.1 ho.isFinite_max).2.2.lt_top

theorem change_lt_increase (ho : o.IsSchedule) (hchange : 1 < value r.change)
    (hweight : 0 < value r.weight) (hfinite : Scalar.isFinite r.change = true) :
    value r.change < value (r.increase o).change := by
  rw [value_change_increase ho (isGrowable_of_grown hchange hweight)]
  exact (Double.value_lt_mul hchange.le hfinite ho.one_lt_factor).trans_le (le_max_left _ _)

end Regularization

variable {o : Options Float} {n m : Nat} {r : Regularization Float}

/-- A search ends once the weight is positive and the factor is above one. -/
theorem ends_of_grown (ho : o.IsSchedule) (e : Expansion Float n m)
    (hchange : 1 < value r.change) (hweight : 0 < value r.weight) : Ends o e r := by
  -- Every increase that does not end the search leads to a larger factor.
  induction hc : r.change using Double.wellFounded_above.induction generalizing r with
  | _ change ih =>
    subst hc
    have hr := Regularization.isGrowable_of_grown hchange hweight
    cases hpass : Riccati.backwardPass e r.weight with
    | some sweep => exact ends_of_some hpass
    | none =>
      by_cases hexhausted : (r.increase o).exhausted o = true
      · exact ends_of_exhausted hpass hexhausted
      · have hfinite : Scalar.isFinite r.change = true := by
          by_contra hinfinite
          exact hexhausted
            (Regularization.exhausted_of_infinite ho hchange hweight hinfinite)
        refine Ends.of_increase (ih _ ?_ ?_ ?_ rfl)
        · exact Regularization.change_lt_increase ho hchange hweight hfinite
        · exact Regularization.one_lt_change_increase ho hr
        · exact Regularization.weight_increase_pos ho hr

/-- A search ends from every regularization that can grow. -/
theorem ends_of_isGrowable (ho : o.IsSchedule) (hr : r.IsGrowable) (e : Expansion Float n m) :
    Ends o e r :=
  (ends_of_grown ho e (Regularization.one_lt_change_increase ho hr)
    (Regularization.weight_increase_pos ho hr)).of_increase

/-- A search ends from every reachable regularization. -/
theorem ends_of_reachable (ho : o.IsSchedule) (hr : Reachable o n m r) (e : Expansion Float n m) :
    Ends o e r := by
  cases m with
  | zero =>
    obtain ⟨sweep, hpass⟩ := Option.isSome_iff_exists.1 (Riccati.isSome_backwardPass_zero e _)
    exact ends_of_some hpass
  | succ k => exact ends_of_isGrowable ho (Regularization.isGrowable_of_reachable ho hr) e

section Endless

namespace Regularization

theorem not_exhausted_of_not_isNumber (h : ¬ Arith.isNumber r.weight = true) :
    ¬ r.exhausted o = true :=
  fun hexhausted => h (Arith.isNumber_of_lt_right (of_decide_eq_true hexhausted))

/-- The weight is not a number after an increase by a factor, or from a weight, that is not. -/
theorem not_isNumber_increase
    (h : ¬ Arith.isNumber r.weight = true ∨ ¬ Arith.isNumber (r.increase o).change = true) :
    ¬ Arith.isNumber (r.increase o).weight = true := by
  have hproduct : ¬ Arith.isNumber (r.weight * (r.increase o).change) = true := by
    intro hnumber
    obtain ⟨hweight, hchange⟩ := Double.isNumber_of_mul hnumber
    exact h.elim (fun h => h hweight) fun h => h hchange
  have hweight : (r.increase o).weight = r.weight * (r.increase o).change :=
    Arith.larger_of_not_isNumber hproduct
  rwa [hweight]

/-- The first increase multiplies zero by the factor, which has no result if that is infinite. -/
theorem not_isNumber_increase_start (h : ¬ Scalar.isFinite o.regFactor = true) :
    ¬ Arith.isNumber ((start o).increase o).weight = true := by
  have hproduct : ¬ Arith.isNumber ((start o).change * o.regFactor) = true :=
    fun hnumber => h (Double.isFinite_of_zero_mul hnumber)
  have hchange : ((start o).increase o).change = (start o).change * o.regFactor :=
    Arith.larger_of_not_isNumber hproduct
  exact not_isNumber_increase (.inr (by rwa [hchange]))

/-- No weight is above a largest one that is infinite or not a number. -/
theorem not_exhausted_of_max (ho : o.Accepted) (hmin : Arith.isNumber o.regMin = true)
    (hmax : ¬ Scalar.isFinite o.regMax = true) : ¬ r.exhausted o = true := by
  intro hexhausted
  obtain ⟨hnumber, -, hlt⟩ := lt_iff.1 (of_decide_eq_true hexhausted)
  refine hmax (isFinite_iff.2 ⟨hnumber, fun hbot => ?_, hlt.ne_top⟩)
  exact ho.regularization (.inr (le_iff.2 ⟨hnumber, hmin, hbot.trans_le bot_le⟩))

end Regularization

/-- An expansion over one knot whose control Hessian is `luu` and whose other entries are one. -/
def Expansion.single {α : Type} [One α] (luu : α) : Expansion α 1 1 :=
  let one : Mat α 1 1 := Vec.const 1 (Vec.const 1 1)
  { stages := [{ lx := Vec.const 1 1, lu := Vec.const 1 1, lxx := one,
                 luu := Vec.const 1 (Vec.const 1 luu), lux := one, A := one, B := one }]
    Vx := Vec.const 1 1
    Vxx := one }

/-- No weight helps where the control Hessian is not finite. -/
theorem backwardPass_single {luu : Float} (h : ¬ Scalar.isFinite luu = true) (rho : Float) :
    Riccati.backwardPass (Expansion.single luu) rho = none := by
  by_contra hsome
  obtain ⟨sweep, hsweep⟩ := Option.ne_none_iff_exists'.1 hsome
  obtain ⟨-, stage, hstage, hfinite⟩ :=
    Riccati.isFinite_of_backwardPass (by simp [Expansion.single]) hsweep
  obtain rfl := List.mem_singleton.1 hstage
  exact h hfinite

/-- A search never ends from a weight that is not a number, whatever the expansion. -/
theorem search_endless_of_not_isNumber {k : Nat} {e : Expansion Float n (k + 1)}
    (he : e.stages ≠ []) (hr : ¬ Arith.isNumber r.weight = true) (passes : Nat) :
    (searchRegularization o e passes r : Run (Event Float) (Error Float) _).outcome =
      .error .endless := by
  refine search_endless (P := fun r => ¬ Arith.isNumber r.weight = true) (fun r hr => ?_) hr passes
  have hnext := Regularization.not_isNumber_increase (o := o) (.inl hr)
  refine ⟨?_, Regularization.not_exhausted_of_not_isNumber hnext, hnext⟩
  by_contra hsome
  obtain ⟨sweep, hsweep⟩ := Option.ne_none_iff_exists'.1 hsome
  exact hr (Arith.isNumber_of_isFinite (Riccati.isFinite_of_backwardPass he hsweep).1)

/-- Where the smallest weight is not a number, nothing raises a weight of zero. -/
theorem search_endless_of_min {luu : Float} (hluu : ¬ Scalar.isFinite luu = true)
    (hmin : ¬ Arith.isNumber o.regMin = true) (hmax : 0 ≤ value o.regMax)
    (hr : value r.weight = 0) (passes : Nat) :
    (searchRegularization o (Expansion.single luu) passes r :
      Run (Event Float) (Error Float) _).outcome = .error .endless := by
  refine search_endless (P := fun r => value r.weight = 0) (fun r hr => ?_) hr passes
  have hweight : (r.increase o).weight = r.weight * (r.increase o).change :=
    if_neg fun hlt => hmin (Arith.isNumber_of_lt_right hlt)
  have hnext : value (r.increase o).weight = 0 := by
    rw [hweight, Double.value_zero_mul hr]
  refine ⟨backwardPass_single hluu _, fun hexhausted => ?_, hnext⟩
  obtain ⟨-, -, hlt⟩ := lt_iff.1 (of_decide_eq_true hexhausted)
  rw [hnext] at hlt
  exact absurd hmax (not_le.2 hlt)

/-- If every search from the start ends, the numbers of the schedule are as they have to be. -/
theorem schedule_of_ends (ho : o.Accepted) (hmin : Arith.isNumber o.regMin = true)
    (h : ∀ e : Expansion Float 1 1, Ends o e (.start o)) :
    Arith.isNumber o.regInitial = true ∧ Scalar.isFinite o.regFactor = true ∧
      Scalar.isFinite o.regMax = true := by
  obtain ⟨luu, hluu⟩ : ∃ luu : Float, ¬ Scalar.isFinite luu = true := ⟨0 / 0, by decide +kernel⟩
  have hpass := backwardPass_single hluu
  have hends := h (Expansion.single luu)
  refine ⟨?_, ?_, ?_⟩
  · by_contra hinitial
    have hstart : ¬ Arith.isNumber (Regularization.start o).weight = true := hinitial
    exact not_ends_of_endless
      (search_endless_of_not_isNumber (by simp [Expansion.single]) hstart) hends
  · by_contra hfactor
    have hfirst := Regularization.not_isNumber_increase_start hfactor
    refine not_ends_of_endless (search_endless
      (P := fun r => ¬ Arith.isNumber (r.increase o).weight = true) (fun r hr => ?_) hfirst) hends
    exact ⟨hpass _, Regularization.not_exhausted_of_not_isNumber hr,
      Regularization.not_isNumber_increase (.inl hr)⟩
  · by_contra hmax
    refine not_ends_of_endless (search_endless (P := fun _ => True) (fun r _ => ?_) trivial) hends
    exact ⟨hpass _, Regularization.not_exhausted_of_max ho hmin hmax, trivial⟩

end Endless

/-- Of the options that are accepted as doubles, with a number as the smallest weight, exactly those
let every search end that start with a number and have a finite factor and a finite largest weight:
from every reachable regularization and for every expansion, finitely many backward passes lead to
one that succeeds or to a weight above the largest one. -/
theorem ends_iff_of_accepted (ho : (o.map Numeral.double).Accepted)
    (hmin : Arith.isNumber o.regMin = true) :
    (∀ (n m : Nat) (r : Regularization Float), Reachable o n m r →
        ∀ e : Expansion Float n m, Ends o e r) ↔
      Arith.isNumber o.regInitial = true ∧ Scalar.isFinite o.regFactor = true ∧
        Scalar.isFinite o.regMax = true := by
  have ho' := ho.of_map_double
  constructor
  · intro h
    exact schedule_of_ends ho' hmin fun e => h 1 1 _ .start e
  · rintro ⟨hinitial, hfactor, hmax⟩ n m r hr e
    exact ends_of_reachable (ho'.isSchedule hmin hinitial hfactor hmax) hr e

/-- The default options let every search end. -/
theorem ends_of_standard :
    ((Options.standard : Options Float).map Numeral.double).Accepted ∧
      Arith.isNumber (Options.standard : Options Float).regMin = true ∧
      ∀ (n m : Nat) (r : Regularization Float), Reachable .standard n m r →
        ∀ e : Expansion Float n m, Ends .standard e r := by
  have ho : ((Options.standard : Options Float).map Numeral.double).Accepted := by
    have hcheck : ((Options.standard : Options Float).map Numeral.double).check.toOption.isSome =
        true := by decide +kernel
    refine Options.check_eq_ok_iff.1 ?_
    cases hresult : ((Options.standard : Options Float).map Numeral.double).check with
    | error e => simp [hresult, Except.toOption] at hcheck
    | ok u => rfl
  have hmin : Arith.isNumber (Options.standard : Options Float).regMin = true := by decide +kernel
  exact ⟨ho, hmin, (ends_iff_of_accepted ho hmin).2
    ⟨by decide +kernel, by decide +kernel, by decide +kernel⟩⟩

/-- A start that is not a number is accepted, and with it a search never ends, not even where the
control Hessian is positive. -/
theorem endless_of_undefinedInitial : ∃ options : Options Numeral,
    Options.create [("bp_reg_initial", .double (0 / 0))] = .ok options ∧
      ∀ passes, (searchRegularization (options.map Numeral.toFloat) (Expansion.single 1) passes
        (.start (options.map Numeral.toFloat)) : Run (Event Float) (Error Float) _).outcome =
          .error .endless := by
  have hrun : (Options.create [("bp_reg_initial", .double (0 / 0))]).toOption.any
      (fun options => !Arith.isNumber options.regInitial.toFloat) = true := by decide +kernel
  obtain ⟨options, hoptions, hinitial⟩ := exists_ok_of_any hrun
  refine ⟨options, hoptions, search_endless_of_not_isNumber (by simp [Expansion.single]) ?_⟩
  intro hnumber
  have hsame : Arith.isNumber options.regInitial.toFloat = true := hnumber
  simp [hsame] at hinitial

end Doubles

end TrajOpt
