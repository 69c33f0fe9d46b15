import TrajOpt.Proofs.Descent.ExpectedChange
import TrajOpt.Proofs.Descent.LinearQuadratic

/-!
# The expected decrease

The control Hessian `Quu` of a knot may be indefinite, only `H = Quu + ρ I` is positive definite.
Still every step size up to one is expected to decrease the cost: the gradient is `Qu = -H d`, so a
step of size `a` is expected to decrease the cost of the knot by

  `a (2 - a) ½ dᵀ H d + a² ½ ρ dᵀ d`,

and none of the two terms is negative. Nothing is expected only where no knot asks for an open-loop
change, and there the gradient test ends the solve before any step is tried. A line search of the
solver thus never meets a step size without an expected decrease, and divides by positive numbers.

## Main definitions

* `Riccati.Sweep.Descends` - sweeps that expect a decrease.
* `Descent.Visits` - the iterates that a run comes to.

## Main statements

* `Riccati.descends_of_backwardPass` - every backward pass expects a decrease.
* `Descent.expectedDecrease_of_solve` - every line search of a run expects a decrease.
-/

namespace TrajOpt

open Matrix

variable {n m p q : Nat}

theorem Mat.halfForm_pos_of_factor? {a : Mat ℝ n n} {l : Cholesky ℝ n} (h : a.factor? = some l)
    {d : Vec ℝ n} (hd : d ≠ Vec.zero n) : 0 < a.halfForm d := by
  have hform := (isSome_factor? a).1 (Option.isSome_of_eq_some h) d.fn (Vec.fn_ne_zero hd)
  rw [halfForm_eq]
  linarith

namespace Riccati

/-- The sweep expects no increase of any step up to the full one, and a decrease unless its gains
ask for no open-loop change. -/
structure Sweep.Descends (s : Sweep ℝ n m) : Prop where
  linear : s.linear ≤ 0
  nonneg : ∀ size, 0 < size → size ≤ 1 → 0 ≤ -s.expectedChange size
  pos : (∃ g ∈ s.gains, g.d ≠ Vec.zero m) →
    ∀ size, 0 < size → size ≤ 1 → 0 < -s.expectedChange size

theorem descends_start (e : Expansion ℝ n m) : (start e).Descends := by
  have hexpected : ∀ size, -(start e).expectedChange size = 0 := by
    intro size
    simp [Sweep.expectedChange, start]
  refine ⟨le_rfl, fun size _ _ => (hexpected size).ge, ?_⟩
  rintro ⟨g, hg, -⟩
  cases hg

section Stage

variable {rho : ℝ} {t : StageTerms ℝ n m} {l : Cholesky ℝ m}

/-- The open-loop change goes down the gradient. -/
theorem dot_gainOf (ht : t.luu.matrix.IsSymm) (hl : (t.luu.regularize rho).factor? = some l) :
    Vec.dot (gainOf l t).d t.lu = -(2 * (t.luu.regularize rho).halfForm (gainOf l t).d) := by
  obtain ⟨hd, -⟩ := mulVec_gainOf (isSymm_regularize ht rho) hl t
  rw [Mat.halfForm_eq, hd, dotProduct_neg, Vec.dot_eq]
  ring

/-- What a knot adds to the expected change. -/
theorem expectedChange_extend (s : Sweep ℝ n m) (ht : t.luu.matrix.IsSymm)
    (hl : (t.luu.regularize rho).factor? = some l) (size : ℝ) :
    (s.extend t (gainOf l t)).expectedChange size = s.expectedChange size -
      (size * (2 - size) * (t.luu.regularize rho).halfForm (gainOf l t).d +
        size * size * (rho * Vec.dot (gainOf l t).d (gainOf l t).d / 2)) := by
  have hlinear := dot_gainOf ht hl
  have hquadratic := Mat.halfForm_regularize t.luu rho (gainOf l t).d
  simp only [Sweep.expectedChange, Sweep.extend]
  linear_combination size * hlinear - size * size * hquadratic

/-- One knot further back, the sweep still expects a decrease. -/
theorem Sweep.Descends.extend {s : Sweep ℝ n m} (hs : s.Descends) (hrho : 0 ≤ rho)
    (ht : t.luu.matrix.IsSymm) (hl : (t.luu.regularize rho).factor? = some l) :
    (s.extend t (gainOf l t)).Descends := by
  have hchange := expectedChange_extend s ht hl
  have hlinear := dot_gainOf ht hl
  have hpos : (gainOf l t).d ≠ Vec.zero m →
      0 < (t.luu.regularize rho).halfForm (gainOf l t).d := Mat.halfForm_pos_of_factor? hl
  have hform : 0 ≤ (t.luu.regularize rho).halfForm (gainOf l t).d := by
    by_cases hzero : (gainOf l t).d = Vec.zero m
    · rw [hzero, Mat.halfForm_zero]
    · exact (hpos hzero).le
  have hsquare : 0 ≤ rho * Vec.dot (gainOf l t).d (gainOf l t).d / 2 :=
    div_nonneg (mul_nonneg hrho (Vec.dot_self_nonneg _)) zero_le_two
  constructor
  · have hrest := hs.linear
    show s.linear + Vec.dot (gainOf l t).d t.lu ≤ 0
    linarith
  · intro size hsize hle
    have hremaining : 0 ≤ 2 - size := by linarith
    rw [hchange, neg_sub, sub_eq_add_neg]
    exact add_nonneg (by positivity) (hs.nonneg size hsize hle)
  · rintro ⟨g, hg, hne⟩ size hsize hle
    have hremaining : 0 < 2 - size := by linarith
    rw [hchange, neg_sub, sub_eq_add_neg]
    rcases List.mem_cons.1 hg with rfl | hg
    · have hstrict := hpos hne
      exact add_pos_of_pos_of_nonneg (by positivity) (hs.nonneg size hsize hle)
    · exact add_pos_of_nonneg_of_pos (by positivity) (hs.pos ⟨g, hg, hne⟩ size hsize hle)

end Stage

/-- Every backward pass over symmetric Hessians expects a decrease. -/
theorem descends_of_backwardPass {e : Expansion ℝ n m} (he : e.IsSymmetric) {rho : ℝ}
    (hrho : 0 ≤ rho) {s : Sweep ℝ n m} (h : backwardPass e rho = some s) : s.Descends := by
  refine (sweep_induction (P := fun _ s => s.Descends) he.isSymm_Vxx (descends_start e) ?_
    he.isSymm_luu h).2
  intro k _ s l hk hs hl hdescends
  exact hdescends.extend hrho (isSymm_action hk hs) hl

end Riccati

namespace Descent

/-- The iterates that a run from a path comes to, as long as it does not stop. -/
inductive Visits {α : Type} [Scalar α] (o : Options α) (aim : Aim α n m) (path : Path α n m) :
    Iterate α n m → Prop where
  | start : Visits o aim path (start o aim path)
  | next {s t : Iterate α n m} {number : Nat} : Visits o aim path s →
    (iteration o aim number s).outcome = .ok (t, none) → Visits o aim path t

variable {o : Options ℝ} {aim : Aim ℝ n m} {path : Path ℝ n m} {s : Iterate ℝ n m}

theorem isNonneg_of_visits (ho : o.Accepted) (h : Visits o aim path s) : s.reg.IsNonneg := by
  have hincrease : ∀ r : Regularization ℝ, r.IsNonneg → (r.increase o).IsNonneg :=
    fun _ => Regularization.isNonneg_increase ho
  induction h with
  | start => exact Regularization.isNonneg_start ho
  | @next s t number _ hnext ih =>
    rw [outcome_iteration, map_eq_ok] at hnext
    obtain ⟨⟨reg, mv⟩, hmv, (hcarry : mv.carryOut o aim s reg = (t, none))⟩ := hnext
    have hkept : (mv.carryOut o aim s reg).1.reg.IsNonneg := reg_carryOut Regularization.IsNonneg
      hincrease (fun _ => Regularization.isNonneg_decrease ho) (reg_of_move hincrease ih hmv) mv s
    rwa [hcarry] at hkept

theorem powNat_eq_pow (a : ℝ) (k : Nat) : Arith.powNat a k = a ^ k := by
  induction k using Arith.powNat.induct with
  | case1 => rfl
  | case2 => exact (pow_one a).symm
  | case3 k ih => rw [Arith.powNat, ih, pow_succ a (k + 1)]

/-- The step sizes are positive and at most one. -/
theorem stepSize_pos (i : Nat) : 0 < (stepSize i : ℝ) ∧ (stepSize i : ℝ) ≤ 1 := by
  rw [stepSize, powNat_eq_pow]
  exact ⟨by positivity, pow_le_one₀ (by norm_num) (by norm_num)⟩

/-- An iteration whose gains ask for no open-loop change stops. -/
theorem iteration_of_zeros (ho : o.Accepted) {reg : Regularization ℝ}
    {sweep : Riccati.Sweep ℝ n m}
    (hpass : (regularizedBackwardPass o (aim.expand s.path) s.reg :
      Run (Event ℝ) (Error ℝ) _).outcome = .ok (reg, .ok sweep))
    (hzeros : ∀ g ∈ sweep.gains, g.d = Vec.zero m) (number : Nat) :
    (iteration o aim number s).outcome =
      .ok ({ s with reg, gains := sweep.gains, decrease := some 0 }, some .solved) := by
  have hmove : move o aim s = .ok (reg, .stationary sweep.gains) := by
    rw [move, hpass, ok_bind]
    exact if_pos (gradient_lt_of_zeros ho hzeros)
  rw [outcome_iteration, hmove]
  rfl

/-- The sweep that a search for the regularization ends with expects a decrease. -/
theorem descends_of_visits (ho : o.Accepted) (haim : ∀ path, (aim.expand path).IsSymmetric)
    (hs : Visits o aim path s) {reg : Regularization ℝ} {sweep : Riccati.Sweep ℝ n m}
    (hpass : (regularizedBackwardPass o (aim.expand s.path) s.reg :
      Run (Event ℝ) (Error ℝ) _).outcome = .ok (reg, .ok sweep)) : sweep.Descends := by
  have hincrease : ∀ r : Regularization ℝ, r.IsNonneg → (r.increase o).IsNonneg :=
    fun _ => Regularization.isNonneg_increase ho
  have hreg : reg.IsNonneg := search_invariant hincrease hpass (isNonneg_of_visits ho hs)
  exact Riccati.descends_of_backwardPass (haim s.path) hreg.weight (backwardPass_of_search hpass)

/-- In exact arithmetic, a backward pass over an expansion with symmetric Hessians and with a
regularization that is not negative expects no increase of any step up to the full one, and a
decrease unless all open-loop changes are zero. An iteration of the solver whose gains have no
open-loop changes stops with the gradient test. Where the test does not end the run, a line search
along the gains of the backward pass meets a positive expected decrease for every step size. -/
theorem expectedDecrease_of_solve :
    (∀ (e : Expansion ℝ n m) (rho : ℝ) (s : Riccati.Sweep ℝ n m), e.IsSymmetric → 0 ≤ rho →
      Riccati.backwardPass e rho = some s →
        s.linear ≤ 0 ∧ ∀ size, 0 < size → size ≤ 1 →
          0 ≤ -s.expectedChange size ∧
          ((∃ g ∈ s.gains, g.d ≠ Vec.zero m) → 0 < -s.expectedChange size)) ∧
    ∀ (o : Options ℝ) (aim : Aim ℝ n m), o.Accepted → (∀ path, (aim.expand path).IsSymmetric) →
      ∀ (path : Path ℝ n m) (s : Iterate ℝ n m), Visits o aim path s →
      ∀ (reg : Regularization ℝ) (sweep : Riccati.Sweep ℝ n m),
        (regularizedBackwardPass o (aim.expand s.path) s.reg :
          Run (Event ℝ) (Error ℝ) _).outcome = .ok (reg, .ok sweep) →
        ((∀ g ∈ sweep.gains, g.d = Vec.zero m) → ∀ number,
          (iteration o aim number s).outcome =
            .ok ({ s with reg, gains := sweep.gains, decrease := some 0 }, some .solved)) ∧
        (¬ gradient sweep.gains s.path < o.gradientTolerance →
          ∀ i, 0 < -sweep.expectedChange (stepSize i)) := by
  constructor
  · intro e rho s he hrho h
    have hs := Riccati.descends_of_backwardPass he hrho h
    exact ⟨hs.linear, fun size hpos hle =>
      ⟨hs.nonneg size hpos hle, fun hne => hs.pos hne size hpos hle⟩⟩
  · intro o aim ho haim path s hs reg sweep hpass
    refine ⟨iteration_of_zeros ho hpass, fun hgradient i => ?_⟩
    obtain ⟨hpos, hle⟩ := stepSize_pos i
    refine (descends_of_visits ho haim hs hpass).pos ?_ _ hpos hle
    by_contra hzeros
    push Not at hzeros
    exact hgradient (gradient_lt_of_zeros ho hzeros)

/-- The first line search on the integrator has a positive expected decrease for every step size. -/
theorem expectedDecrease_integrator : ∃ sweep,
    Riccati.backwardPass (integratorLagrangian.aim.expand (integratorProblem.rollout [Vec.zero 1]))
      0 = some sweep ∧
    ∀ i, 0 < -sweep.expectedChange (stepSize i) := by
  set path := integratorProblem.rollout [Vec.zero 1]
  obtain ⟨sweep, hsweep⟩ :=
    exists_pass (l := integratorLagrangian) isLinearQuadratic_integrator path
  have hgradient :
      ¬ gradient sweep.gains path < (Options.standard : Options ℝ).gradientTolerance := by
    rw [gradient_integrator hsweep]
    norm_num [Options.standard]
  have hpass : Riccati.backwardPass (integratorLagrangian.aim.expand path)
      (Regularization.start (Options.standard : Options ℝ)).weight = some sweep := by
    have hweight : (Regularization.start (Options.standard : Options ℝ)).weight = 0 := by
      norm_num [Regularization.start, Options.standard]
    rw [hweight]
    exact hsweep
  have haim : ∀ path, (integratorLagrangian.aim.expand path).IsSymmetric :=
    Lagrangian.isSymmetric_expand isLinearQuadratic_integrator.quadratic
  obtain ⟨-, hsolve⟩ := expectedDecrease_of_solve (n := 1) (m := 1)
  exact ⟨sweep, hsweep, (hsolve _ _ accepted_standard haim path _ .start _ sweep
    (regularizedBackwardPass_of_isSome hpass)).2 hgradient⟩

end Descent

end TrajOpt
