import Mathlib
import TrajOpt.Descent.Riccati
import TrajOpt.Proofs.Linear.Definite
import TrajOpt.Proofs.Linear.Forms

/-!
# Optimality of the Riccati recursion

In exact arithmetic and without regularization, the gains of a sweep minimize the quadratic model of
the cost, and the two parts of the expected change add up to the minimum. A sweep carries a value
function, and one stage back that function is again the minimum over the control: the costs of the
stage and of what follows are a quadratic function of the control whose square is completed by the
gains.

## Main definitions

* `Expansion.change` - the quadratic model of the cost over a sequence of control changes.
* `Expansion.Follows` - which control changes are those of the gains.
* `Sweep.value` - the value function that a sweep carries.

## Main statements

* `Riccati.sweep_induction` - what every knot keeps holds of a sweep.
* `Riccati.optimal_of_backwardPass` - the expected change is the minimum of the quadratic model,
  attained by the gains only.
-/

namespace TrajOpt

open Matrix

section Definitions

variable {α : Type} [Scalar α] {n m : Nat}

/-- The change of the cost of a knot to second order. -/
def StageTerms.change (t : StageTerms α n m) (dx : Vec α n) (du : Vec α m) : α :=
  Vec.dot t.lx dx + Vec.dot t.lu du + t.lxx.halfForm dx + Mat.bilinear du t.lux dx +
    t.luu.halfForm du

/-- The deviation of the next state to first order. -/
def StageExpansion.next (e : StageExpansion α n m) (dx : Vec α n) (du : Vec α m) : Vec α n :=
  e.A.mulVec dx + e.B.mulVec du

/-- The control change of a gain for a deviation of the state. -/
def Gain.control (g : Gain α n m) (dx : Vec α n) : Vec α m := g.d + g.K.mulVec dx

namespace Expansion

/-- The change of the cost to second order from a knot on, where the state deviates by `dx`. -/
def changeFrom (e : Expansion α n m) :
    List (StageExpansion α n m) → Vec α n → List (Vec α m) → α
  | k :: ks, dx, du :: dus => k.change dx du + e.changeFrom ks (k.next dx du) dus
  | _, dx, _ => Vec.dot e.Vx dx + e.Vxx.halfForm dx

/-- The change of the cost to second order along an expansion from its first state on. -/
def change (e : Expansion α n m) (dus : List (Vec α m)) : α :=
  e.changeFrom e.stages (Vec.zero n) dus

/-- Each control change is the one of the gain for the deviation that the earlier ones lead to. -/
def FollowsFrom : List (StageExpansion α n m) → List (Gain α n m) → Vec α n → List (Vec α m) → Prop
  | [], [], _, [] => True
  | k :: ks, g :: gs, dx, du :: dus => du = g.control dx ∧ FollowsFrom ks gs (k.next dx du) dus
  | _, _, _, _ => False

/-- The control changes along an expansion are those of the gains. -/
def Follows (e : Expansion α n m) (gains : List (Gain α n m)) (dus : List (Vec α m)) : Prop :=
  FollowsFrom e.stages gains (Vec.zero n) dus

end Expansion

/-- The value function of a sweep: what it expects of the remaining knots for a deviation. -/
def Riccati.Sweep.value (s : Riccati.Sweep α n m) (dx : Vec α n) : α :=
  s.linear + s.quadratic + (Vec.dot s.Vx dx + s.Vxx.halfForm dx)

/-- The expansion of the cost of a knot and of the value function of the next state. -/
def Riccati.action (e : StageExpansion α n m) (s : Riccati.Sweep α n m) : StageTerms α n m where
  lx := e.lx + Mat.vecMul s.Vx e.A
  lu := e.lu + Mat.vecMul s.Vx e.B
  lxx := e.lxx + Mat.mul (Mat.mul e.A.transpose s.Vxx) e.A
  luu := e.luu + Mat.mul (Mat.mul e.B.transpose s.Vxx) e.B
  lux := e.lux + Mat.mul (Mat.mul e.B.transpose s.Vxx) e.A

/-- The gain that a factor of the control Hessian determines. -/
def Riccati.gainOf (l : Cholesky α m) (t : StageTerms α n m) : Gain α n m where
  K := (Mat.transpose (t.lux.transpose.map l.solve)).map (- ·)
  d := -l.solve t.lu

/-- The sweep with a further gain in front, for a knot with the given expansion. -/
def Riccati.Sweep.extend (s : Riccati.Sweep α n m) (t : StageTerms α n m) (g : Gain α n m) :
    Riccati.Sweep α n m where
  Vx := t.lx + (Mat.mul g.K.transpose t.luu).mulVec g.d + g.K.transpose.mulVec t.lu +
    t.lux.transpose.mulVec g.d
  Vxx := (t.lxx + Mat.mul (Mat.mul g.K.transpose t.luu) g.K + Mat.mul g.K.transpose t.lux +
    Mat.mul t.lux.transpose g.K).symmetrize
  gains := g :: s.gains
  linear := s.linear + Vec.dot g.d t.lu
  quadratic := s.quadratic + t.luu.halfForm g.d

end Definitions

namespace StageTerms

variable {n m : Nat}

theorem change_eq (t : StageTerms ℝ n m) (dx : Vec ℝ n) (du : Vec ℝ m) :
    t.change dx du = t.lx.fn ⬝ᵥ dx.fn + (dx.fn ⬝ᵥ t.lxx.matrix *ᵥ dx.fn) / 2 +
      (du.fn ⬝ᵥ (t.lu.fn + t.lux.matrix *ᵥ dx.fn) + (du.fn ⬝ᵥ t.luu.matrix *ᵥ du.fn) / 2) := by
  rw [change, Vec.dot_eq, Vec.dot_eq, Mat.bilinear_eq, Mat.halfForm_eq, Mat.halfForm_eq,
    dotProduct_add, dotProduct_comm t.lu.fn]
  ring

/-- Where the gain solves for the control that the gradient vanishes at, every other control costs
the form of its distance more. -/
theorem change_eq_add_halfForm {t : StageTerms ℝ n m} (hluu : t.luu.matrix.IsSymm)
    {g : Gain ℝ n m} (hd : t.luu.matrix *ᵥ g.d.fn = -t.lu.fn)
    (hK : t.luu.matrix * g.K.matrix = -t.lux.matrix) (dx : Vec ℝ n) (du : Vec ℝ m) :
    t.change dx du = t.change dx (g.control dx) + t.luu.halfForm (du - g.control dx) := by
  have hcontrol : t.luu.matrix *ᵥ (g.control dx).fn = -(t.lu.fn + t.lux.matrix *ᵥ dx.fn) := by
    rw [Gain.control, Vec.fn_add, Mat.fn_mulVec, mulVec_add, mulVec_mulVec, hd, hK, neg_mulVec,
      neg_add]
  rw [change_eq, change_eq, complete_square hluu hcontrol, Mat.halfForm_eq, Vec.fn_sub]
  ring

end StageTerms

namespace Riccati

variable {n m : Nat}

theorem isSymm_action {e : StageExpansion ℝ n m} {s : Sweep ℝ n m} (he : e.luu.matrix.IsSymm)
    (hs : s.Vxx.matrix.IsSymm) : (action e s).luu.matrix.IsSymm := by
  have hB : (e.B.matrixᵀ * s.Vxx.matrix * e.B.matrix).IsSymm := by
    rw [IsSymm, transpose_mul, transpose_mul, transpose_transpose, hs.eq, Matrix.mul_assoc]
  simpa [action] using he.add hB

/-- The value function of the next state, as a function of the deviation and the control. -/
theorem change_add_value (e : StageExpansion ℝ n m) {s : Sweep ℝ n m}
    (hs : s.Vxx.matrix.IsSymm) (dx : Vec ℝ n) (du : Vec ℝ m) :
    e.change dx du + s.value (e.next dx du) =
      s.linear + s.quadratic + (action e s).change dx du := by
  have hcross := dotProduct_mulVec_comm hs (e.A.matrix *ᵥ dx.fn) (e.B.matrix *ᵥ du.fn)
  have hvx : (s.Vx.fn ᵥ* e.A.matrix) ⬝ᵥ dx.fn = s.Vx.fn ⬝ᵥ e.A.matrix *ᵥ dx.fn :=
    (dotProduct_mulVec _ _ _).symm
  have hvu : du.fn ⬝ᵥ (s.Vx.fn ᵥ* e.B.matrix) = s.Vx.fn ⬝ᵥ e.B.matrix *ᵥ du.fn := by
    rw [dotProduct_comm, ← dotProduct_mulVec]
  simp only [Sweep.value, StageExpansion.next, Vec.dot_eq, Mat.halfForm_eq, StageTerms.change_eq,
    action, Vec.fn_add, Mat.fn_mulVec, Mat.fn_vecMul, Mat.matrix_add, Mat.matrix_mul,
    Mat.matrix_transpose, ← mulVec_mulVec, add_mulVec, mulVec_add, dotProduct_add,
    add_dotProduct, dotProduct_transpose_mulVec, hcross, hvx, hvu]
  ring

/-- The value function one knot further back is the cost of the control that the gain gives. -/
theorem value_extend (s : Sweep ℝ n m) {t : StageTerms ℝ n m} (ht : t.luu.matrix.IsSymm)
    (g : Gain ℝ n m) (dx : Vec ℝ n) :
    (s.extend t g).value dx = s.linear + s.quadratic + t.change dx (g.control dx) := by
  have hcross := dotProduct_mulVec_comm ht g.d.fn (g.K.matrix *ᵥ dx.fn)
  have hlu := dotProduct_comm t.lu.fn (g.K.matrix *ᵥ dx.fn)
  have hlux := dotProduct_comm (t.lux.matrix *ᵥ dx.fn) (g.K.matrix *ᵥ dx.fn)
  have hluu := dotProduct_comm (t.luu.matrix *ᵥ g.d.fn) (g.K.matrix *ᵥ dx.fn)
  simp only [Sweep.value, Sweep.extend, Gain.control, StageTerms.change_eq, Vec.dot_eq,
    Mat.halfForm_eq, Mat.form_symmetrize, Vec.fn_add, Mat.fn_mulVec, Mat.matrix_add,
    Mat.matrix_mul, Mat.matrix_transpose, ← mulVec_mulVec, add_mulVec, mulVec_add, dotProduct_add,
    add_dotProduct, dotProduct_transpose_mulVec, transpose_mulVec_dotProduct, hcross, hlu,
    hlux, hluu]
  ring

theorem Sweep.value_zero (s : Sweep ℝ n m) :
    s.value (Vec.zero n) = s.linear + s.quadratic := by
  simp [Sweep.value, Vec.dot_eq]

theorem isSymm_extend (s : Sweep ℝ n m) (t : StageTerms ℝ n m) (g : Gain ℝ n m) :
    (s.extend t g).Vxx.matrix.IsSymm :=
  Mat.isSymm_matrix_iff.mpr (Mat.transpose_symmetrize _)

theorem stage_eq (rho : ℝ) (e : StageExpansion ℝ n m) (s : Sweep ℝ n m) :
    stage rho e s = ((action e s).luu.regularize rho).factor?.map fun l =>
      s.extend (action e s) (gainOf l (action e s)) := rfl

/-- What holds before any knot and is kept from every knot to the one before it holds of a sweep
over symmetric Hessians, and its value function is symmetric. -/
theorem sweep_induction {P : List (StageExpansion ℝ n m) → Sweep ℝ n m → Prop}
    {e : Expansion ℝ n m} (hVxx : e.Vxx.matrix.IsSymm) {rho : ℝ} (hstart : P [] (start e))
    (hstage : ∀ k ks s l, k.luu.matrix.IsSymm → s.Vxx.matrix.IsSymm →
      ((action k s).luu.regularize rho).factor? = some l → P ks s →
        P (k :: ks) (s.extend (action k s) (gainOf l (action k s))))
    {ks : List (StageExpansion ℝ n m)} (hluu : ∀ k ∈ ks, k.luu.matrix.IsSymm) {s : Sweep ℝ n m}
    (h : sweep rho (start e) ks = some s) : s.Vxx.matrix.IsSymm ∧ P ks s := by
  induction ks generalizing s with
  | nil =>
    obtain rfl : start e = s := Option.some.inj h
    exact ⟨hVxx, hstart⟩
  | cons k ks ih =>
    obtain ⟨rest, hrest, hlast⟩ := Option.bind_eq_some_iff.1 h
    obtain ⟨hsymm, hP⟩ := ih (fun k' hk' => hluu k' (List.mem_cons_of_mem k hk')) hrest
    rw [stage_eq, Option.map_eq_some_iff] at hlast
    obtain ⟨l, hl, rfl⟩ := hlast
    exact ⟨isSymm_extend _ _ _, hstage k ks rest l (hluu k List.mem_cons_self) hsymm hl hP⟩

/-- The gain that a factor determines solves the systems of the matrix that was factored. -/
theorem mulVec_gainOf {H : Mat ℝ m m} (hH : H.matrix.IsSymm) {l : Cholesky ℝ m}
    (hl : H.factor? = some l) (t : StageTerms ℝ n m) :
    H.matrix *ᵥ (gainOf l t).d.fn = -t.lu.fn ∧
      H.matrix * (gainOf l t).K.matrix = -t.lux.matrix := by
  have hsymm := Mat.symmetrize_eq (Mat.isSymm_matrix_iff.mp hH)
  constructor
  · have hsolve := Mat.mulVec_solve hl t.lu
    rw [hsymm] at hsolve
    rw [gainOf, Vec.fn_neg, mulVec_neg, ← Mat.fn_mulVec, hsolve]
  · have hcolumns := (Mat.mul_eq_iff_of_factor? hl t.lux _).2 rfl
    rw [hsymm] at hcolumns
    have hK : (gainOf l t).K.matrix =
        -(Mat.transpose (t.lux.transpose.map l.solve)).matrix := by
      ext i j
      simp [gainOf, Mat.matrix, Vec.get_eq]
    rw [hK, Matrix.mul_neg, ← Mat.matrix_mul, hcolumns]

/-- A gain asks for no change of a control at which the gradient vanishes. -/
theorem gain_of_stationary {e : StageExpansion ℝ n m} {s t : Sweep ℝ n m}
    (he : e.luu.matrix.IsSymm) (hs : s.Vxx.matrix.IsSymm) (hlu : e.lu = Vec.zero m)
    (hVx : s.Vx = Vec.zero n) (h : stage 0 e s = some t) :
    ∃ g, t.gains = g :: s.gains ∧ g.d = Vec.zero m := by
  rw [stage_eq, Mat.regularize_zero, Option.map_eq_some_iff] at h
  obtain ⟨l, hl, rfl⟩ := h
  refine ⟨_, rfl, ?_⟩
  have hgradient : (action e s).lu.fn = 0 := by simp [action, hlu, hVx]
  obtain ⟨hd, -⟩ := mulVec_gainOf (isSymm_action he hs) hl (action e s)
  rw [hgradient, neg_zero] at hd
  by_contra hne
  have hpos := (Mat.isSome_factor? _).1 (Option.isSome_of_eq_some hl) _ (Vec.fn_ne_zero hne)
  rw [hd, dotProduct_zero] at hpos
  exact lt_irrefl 0 hpos

/-- One knot further back, the value function is below the cost of every control by the form of its
distance to the one of the gain. -/
theorem stage_optimal {e : StageExpansion ℝ n m} {s s' : Sweep ℝ n m}
    (he : e.luu.matrix.IsSymm) (hs : s.Vxx.matrix.IsSymm) (h : stage 0 e s = some s') :
    s'.Vxx.matrix.IsSymm ∧ ∃ (g : Gain ℝ n m) (H : Mat ℝ m m), s'.gains = g :: s.gains ∧
      (∀ x, x ≠ 0 → 0 < x ⬝ᵥ H.matrix *ᵥ x) ∧ ∀ dx du,
        e.change dx du + s.value (e.next dx du) =
          s'.value dx + H.halfForm (du - g.control dx) := by
  rw [stage_eq, Mat.regularize_zero, Option.map_eq_some_iff] at h
  obtain ⟨l, hl, rfl⟩ := h
  have ht := isSymm_action he hs
  obtain ⟨hd, hK⟩ := mulVec_gainOf ht hl (action e s)
  refine ⟨isSymm_extend _ _ _, gainOf l (action e s), (action e s).luu, rfl, ?_, ?_⟩
  · exact (Mat.isSome_factor? _).mp (Option.isSome_of_eq_some hl)
  · intro dx du
    rw [change_add_value e hs, value_extend s ht, StageTerms.change_eq_add_halfForm ht hd hK dx du]
    ring

/-- The form of a positive definite matrix vanishes only between equal vectors. -/
theorem halfForm_sub {H : Mat ℝ m m} (hH : ∀ x, x ≠ 0 → 0 < x ⬝ᵥ H.matrix *ᵥ x)
    (u v : Vec ℝ m) : 0 ≤ H.halfForm (u - v) ∧ (H.halfForm (u - v) = 0 ↔ u = v) := by
  rw [Mat.halfForm_eq, Vec.fn_sub]
  by_cases h : u = v
  · subst h
    simp
  · have hne : u.fn - v.fn ≠ 0 := sub_ne_zero.mpr (Vec.fn_injective.ne h)
    have hpos := hH _ hne
    refine ⟨by positivity, iff_of_false (by positivity) h⟩

/-- The value function of a sweep bounds the cost of what remains, and only the controls of its
gains attain it. -/
theorem sweep_optimal (e : Expansion ℝ n m) (hVxx : e.Vxx.matrix.IsSymm)
    {ks : List (StageExpansion ℝ n m)} (hluu : ∀ k ∈ ks, k.luu.matrix.IsSymm) {s : Sweep ℝ n m}
    (h : sweep 0 (start e) ks = some s) :
    s.Vxx.matrix.IsSymm ∧ ∀ (dx : Vec ℝ n) (dus : List (Vec ℝ m)), dus.length = ks.length →
      s.value dx ≤ e.changeFrom ks dx dus ∧
      (e.changeFrom ks dx dus = s.value dx ↔ Expansion.FollowsFrom ks s.gains dx dus) := by
  induction ks generalizing s with
  | nil =>
    obtain rfl : start e = s := Option.some.inj h
    refine ⟨hVxx, fun dx dus hlength => ?_⟩
    obtain rfl : dus = [] := List.length_eq_zero_iff.mp hlength
    simp [Expansion.changeFrom, Expansion.FollowsFrom, Sweep.value, start]
  | cons k ks ih =>
    obtain ⟨s₁, h₁, hstage⟩ := Option.bind_eq_some_iff.mp h
    obtain ⟨hsymm, hrest⟩ := ih (fun k' hk' => hluu k' (List.mem_cons_of_mem k hk')) h₁
    obtain ⟨hsymm', g, H, hgains, hpos, hvalue⟩ :=
      stage_optimal (hluu k List.mem_cons_self) hsymm hstage
    refine ⟨hsymm', fun dx dus hlength => ?_⟩
    cases dus with
    | nil => simp at hlength
    | cons du dus =>
      obtain ⟨hle, hiff⟩ := hrest (k.next dx du) dus (Nat.succ.inj hlength)
      obtain ⟨hnonneg, hzero⟩ := halfForm_sub hpos du (g.control dx)
      have hstep := hvalue dx du
      rw [Expansion.changeFrom, hgains, Expansion.FollowsFrom, ← hzero, ← hiff]
      -- Both the distance to the control of the gain and what the rest costs too much are
      -- nonnegative, so their sum vanishes only when both do.
      constructor
      · linarith
      · constructor
        · intro heq
          constructor <;> linarith
        · rintro ⟨hd, heq⟩
          linarith

/-- In exact arithmetic, the gains of an unregularized sweep over an expansion with symmetric
control Hessians and a symmetric final Hessian minimize the quadratic model of the cost, and the
minimum is the expected change of the full step. No other controls attain it. -/
theorem optimal_of_backwardPass (e : Expansion ℝ n m) (s : Sweep ℝ n m)
    (hluu : ∀ k ∈ e.stages, k.luu.transpose = k.luu) (hVxx : e.Vxx.transpose = e.Vxx)
    (h : backwardPass e 0 = some s) (dus : List (Vec ℝ m))
    (hlength : dus.length = e.stages.length) :
    s.linear + s.quadratic ≤ e.change dus ∧
      (e.change dus = s.linear + s.quadratic ↔ e.Follows s.gains dus) := by
  have hvalue : s.value (Vec.zero n) = s.linear + s.quadratic := by
    rw [Sweep.value, Vec.dot_eq, Mat.halfForm_eq, Vec.fn_zero]
    simp
  have hsymm : ∀ k ∈ e.stages, k.luu.matrix.IsSymm := fun k hk =>
    Mat.isSymm_matrix_iff.mpr (hluu k hk)
  obtain ⟨-, hoptimal⟩ := sweep_optimal e (Mat.isSymm_matrix_iff.mpr hVxx) hsymm h
  rw [← hvalue]
  exact hoptimal (Vec.zero n) dus hlength

/-- One knot of the integrator `x + u` with unit weights, away from its optimum. -/
noncomputable def integratorExpansion : Expansion ℝ 1 1 where
  stages := [{
    lx := #v[1], lu := #v[1], lxx := #v[#v[1]], luu := #v[#v[1]], lux := #v[#v[0]],
    A := #v[#v[1]], B := #v[#v[1]] }]
  Vx := #v[1]
  Vxx := #v[#v[1]]

theorem isSome_backwardPass_integrator : (backwardPass integratorExpansion 0).isSome = true := by
  simp only [backwardPass, sweep, integratorExpansion, Option.bind_some, stage_eq,
    Mat.regularize_zero, Option.isSome_map, Mat.isSome_factor?]
  intro x hx
  have hx0 : x 0 ≠ 0 := fun h => hx (funext fun i => by rwa [Subsingleton.elim i 0])
  simp only [action, start, Mat.matrix_add, Mat.matrix_mul, Mat.matrix_transpose, dotProduct,
    Matrix.mulVec, Fin.sum_univ_one, Matrix.add_apply, Matrix.mul_apply, transpose_apply]
  simp only [Mat.matrix]
  have hsquare : 0 < x 0 * x 0 := mul_self_pos.mpr hx0
  simpa using by linarith

theorem optimal_of_integratorExpansion : ∃ s, backwardPass integratorExpansion 0 = some s ∧
    ∀ du, s.linear + s.quadratic ≤ integratorExpansion.change [du] ∧
      (integratorExpansion.change [du] = s.linear + s.quadratic ↔
        integratorExpansion.Follows s.gains [du]) := by
  obtain ⟨s, hs⟩ := Option.isSome_iff_exists.mp isSome_backwardPass_integrator
  have hluu : ∀ k ∈ integratorExpansion.stages, k.luu.transpose = k.luu := by
    intro k hk
    obtain rfl := List.mem_singleton.mp hk
    rfl
  exact ⟨s, hs, fun du => optimal_of_backwardPass integratorExpansion s hluu rfl hs [du] rfl⟩

end Riccati

end TrajOpt
