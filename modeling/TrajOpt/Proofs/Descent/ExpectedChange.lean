import TrajOpt.Proofs.Descent.Riccati

/-!
# The expected change of a partial step

A step of size `a` makes the part `a` of every open-loop change and reacts to the deviation of the
state in full. In exact arithmetic, the quadratic model of the cost then changes by `a` times the
linear part of the expected change, `a²` times the quadratic part, and by what the open-loop changes
and the reactions have in common, weighted with `(1 - a) ρ`. The gains make the gradient along the
reaction vanish only up to the regularization `ρ`, and a full step is the one for which the value
function was computed. So the expected change is exact without regularization and for a full step,
and in general it is not.

## Main definitions

* `Expansion.deviations`, `Expansion.partialControls` - the states and controls of a partial step.
* `Expansion.coupling` - what its open-loop changes and its reactions have in common.

## Main statements

* `Riccati.change_partialControls` - the change of the quadratic model by a partial step.
* `Riccati.change_ne_expectedChange` - two knots where it is not the expected one.
-/

namespace TrajOpt

open Matrix

section Definitions

variable {α : Type} [Scalar α] {n m : Nat}

/-- The control change of a gain for a deviation of the state, with a part of the open-loop
change. -/
def Gain.partialControl (size : α) (g : Gain α n m) (dx : Vec α n) : Vec α m :=
  Vec.scale size g.d + g.K.mulVec dx

/-- What the open-loop change and the reaction of a gain have in common. -/
def Gain.coupling (g : Gain α n m) (dx : Vec α n) : α := Vec.dot g.d (g.K.mulVec dx)

namespace Expansion

/-- The deviations of the states along the linear dynamics, under a partial step of the gains. -/
def deviationsFrom (size : α) :
    List (StageExpansion α n m) → List (Gain α n m) → Vec α n → List (Vec α n)
  | k :: ks, g :: gs, dx => dx :: deviationsFrom size ks gs (k.next dx (g.partialControl size dx))
  | _, _, _ => []

/-- The deviations of a partial step that starts in the first state. -/
def deviations (e : Expansion α n m) (size : α) (gains : List (Gain α n m)) : List (Vec α n) :=
  deviationsFrom size e.stages gains (Vec.zero n)

/-- The control changes of a partial step. -/
def partialControls (e : Expansion α n m) (size : α) (gains : List (Gain α n m)) :
    List (Vec α m) :=
  List.zipWith (Gain.partialControl size) gains (e.deviations size gains)

/-- What the open-loop changes and the reactions of a partial step have in common. -/
def coupling (e : Expansion α n m) (size : α) (gains : List (Gain α n m)) : α :=
  (List.zipWith Gain.coupling gains (e.deviations size gains)).sum

end Expansion

/-- What a sweep expects of the remaining knots for a deviation and a partial step. -/
def Riccati.Sweep.partialValue (s : Riccati.Sweep α n m) (size : α) (dx : Vec α n) : α :=
  s.expectedChange size + (Vec.dot s.Vx dx + s.Vxx.halfForm dx)

end Definitions

variable {n m : Nat}

/-- How the cost of a knot depends on the part of the open-loop change that is made, if the gain is
that of a control Hessian with `rho` added. -/
theorem StageTerms.change_partialControl {t : StageTerms ℝ n m} (ht : t.luu.matrix.IsSymm)
    {g : Gain ℝ n m} {rho : ℝ} (hK : (t.luu.regularize rho).matrix * g.K.matrix = -t.lux.matrix)
    (size : ℝ) (dx : Vec ℝ n) :
    t.change dx (g.partialControl size dx) = t.change dx (g.control dx) +
      ((size - 1) * Vec.dot g.d t.lu + (size * size - 1) * t.luu.halfForm g.d) +
      (1 - size) * rho * g.coupling dx := by
  obtain ⟨v, hv⟩ : ∃ v, v = g.K.matrix *ᵥ dx.fn := ⟨_, rfl⟩
  -- The gradient along the reaction does not vanish, but is what the regularization left of it.
  have hgradient : t.luu.matrix *ᵥ v + t.lux.matrix *ᵥ dx.fn = -(rho • v) := by
    have happly : (t.luu.regularize rho).matrix *ᵥ v = -(t.lux.matrix *ᵥ dx.fn) := by
      rw [hv, mulVec_mulVec, hK, neg_mulVec]
    rw [Mat.matrix_regularize, add_mulVec, smul_mulVec, one_mulVec] at happly
    rw [eq_neg_iff_add_eq_zero, add_right_comm, happly, neg_add_cancel]
  have hcoupling : g.d.fn ⬝ᵥ t.luu.matrix *ᵥ v + g.d.fn ⬝ᵥ t.lux.matrix *ᵥ dx.fn =
      -(rho * (g.d.fn ⬝ᵥ v)) := by
    rw [← dotProduct_add, hgradient, dotProduct_neg, dotProduct_smul, smul_eq_mul]
  have hcross : v ⬝ᵥ t.luu.matrix *ᵥ g.d.fn = g.d.fn ⬝ᵥ t.luu.matrix *ᵥ v :=
    dotProduct_mulVec_comm ht _ _
  simp only [StageTerms.change_eq, Gain.partialControl, Gain.control, Gain.coupling, Vec.dot_eq,
    Mat.halfForm_eq, Vec.fn_add, Vec.fn_scale, Mat.fn_mulVec, mulVec_add, mulVec_smul,
    dotProduct_add, add_dotProduct, smul_dotProduct, dotProduct_smul, smul_eq_mul, ← hv]
  linear_combination (size - 1) * hcoupling + (size - 1) / 2 * hcross

namespace Riccati

theorem isSymm_regularize {H : Mat ℝ m m} (hH : H.matrix.IsSymm) (rho : ℝ) :
    (H.regularize rho).matrix.IsSymm := by
  rw [Mat.matrix_regularize]
  exact hH.add (isSymm_one.smul rho)

theorem partialValue_zero (s : Sweep ℝ n m) (size : ℝ) :
    s.partialValue size (Vec.zero n) = s.expectedChange size := by
  rw [Sweep.partialValue, Vec.dot_eq, Vec.fn_zero, dotProduct_zero, Mat.halfForm_zero, add_zero,
    add_zero]

/-- The value function of the next state under a partial step, as a function of the deviation and
the control. -/
theorem change_add_partialValue (e : StageExpansion ℝ n m) {s : Sweep ℝ n m}
    (hs : s.Vxx.matrix.IsSymm) (size : ℝ) (dx : Vec ℝ n) (du : Vec ℝ m) :
    e.change dx du + s.partialValue size (e.next dx du) =
      s.expectedChange size + (action e s).change dx du := by
  have hvalue := change_add_value e hs dx du
  rw [Sweep.value] at hvalue
  rw [Sweep.partialValue]
  linarith

/-- One knot further back, the value function of a partial step is what the step costs, but for the
coupling at the knot. -/
theorem stage_partial {rho : ℝ} {e : StageExpansion ℝ n m} {s s' : Sweep ℝ n m}
    (he : e.luu.matrix.IsSymm) (hs : s.Vxx.matrix.IsSymm) (h : stage rho e s = some s') :
    s'.Vxx.matrix.IsSymm ∧ ∃ g : Gain ℝ n m, s'.gains = g :: s.gains ∧ ∀ size dx,
      e.change dx (g.partialControl size dx) +
          s.partialValue size (e.next dx (g.partialControl size dx)) =
        s'.partialValue size dx + (1 - size) * rho * g.coupling dx := by
  rw [stage_eq, Option.map_eq_some_iff] at h
  obtain ⟨l, hl, rfl⟩ := h
  have ht := isSymm_action he hs
  obtain ⟨-, hK⟩ := mulVec_gainOf (isSymm_regularize ht rho) hl (action e s)
  refine ⟨isSymm_extend _ _ _, gainOf l (action e s), rfl, fun size dx => ?_⟩
  have hvalue := value_extend s ht (gainOf l (action e s)) dx
  rw [change_add_partialValue e hs, StageTerms.change_partialControl ht hK]
  simp only [Sweep.value, Sweep.extend, Sweep.partialValue, Sweep.expectedChange] at hvalue ⊢
  linear_combination -hvalue

/-- The change of the cost from a knot on by a partial step, for a deviation of the state. -/
theorem changeFrom_partialControls (e : Expansion ℝ n m) (hVxx : e.Vxx.matrix.IsSymm) {rho : ℝ}
    {ks : List (StageExpansion ℝ n m)} (hluu : ∀ k ∈ ks, k.luu.matrix.IsSymm) {s : Sweep ℝ n m}
    (h : sweep rho (start e) ks = some s) :
    s.Vxx.matrix.IsSymm ∧ ∀ (size : ℝ) (dx : Vec ℝ n),
      let dxs := Expansion.deviationsFrom size ks s.gains dx
      e.changeFrom ks dx (List.zipWith (Gain.partialControl size) s.gains dxs) =
        s.partialValue size dx +
          (1 - size) * rho * (List.zipWith Gain.coupling s.gains dxs).sum := by
  induction ks generalizing s with
  | nil =>
    obtain rfl : start e = s := Option.some.inj h
    refine ⟨hVxx, fun size dx => ?_⟩
    simp [Expansion.changeFrom, Sweep.partialValue, Sweep.expectedChange, start]
  | cons k ks ih =>
    obtain ⟨s₁, h₁, hstage⟩ := Option.bind_eq_some_iff.1 h
    obtain ⟨hsymm, hrest⟩ := ih (fun k' hk' => hluu k' (List.mem_cons_of_mem k hk')) h₁
    obtain ⟨hsymm', g, hgains, hstep⟩ := stage_partial (hluu k List.mem_cons_self) hsymm hstage
    refine ⟨hsymm', fun size dx => ?_⟩
    have hchange := hrest size (k.next dx (g.partialControl size dx))
    simp only [hgains, Expansion.deviationsFrom, List.zipWith_cons_cons, Expansion.changeFrom,
      List.sum_cons]
    linear_combination hchange + hstep size dx

/-- The change of the quadratic model by a partial step. -/
theorem change_eq_add_coupling {e : Expansion ℝ n m} {rho : ℝ} {s : Sweep ℝ n m}
    (hluu : ∀ k ∈ e.stages, k.luu.transpose = k.luu) (hVxx : e.Vxx.transpose = e.Vxx)
    (h : backwardPass e rho = some s) (size : ℝ) :
    e.change (e.partialControls size s.gains) =
      s.expectedChange size + (1 - size) * rho * e.coupling size s.gains := by
  have hsymm : ∀ k ∈ e.stages, k.luu.matrix.IsSymm := fun k hk =>
    Mat.isSymm_matrix_iff.2 (hluu k hk)
  obtain ⟨-, hchange⟩ := changeFrom_partialControls e (Mat.isSymm_matrix_iff.2 hVxx) hsymm h
  rw [← partialValue_zero]
  exact hchange size (Vec.zero n)

section SingleState

/-- The sweep over one knot of a single state and a single control, by division. -/
theorem exists_stage_single {rho : ℝ} (e : StageExpansion ℝ 1 1) (s : Sweep ℝ 1 1)
    (hpos : 0 < (action e s).luu.matrix 0 0 + rho) :
    ∃ g, stage rho e s = some (s.extend (action e s) g) ∧
      g.d.fn 0 = -(action e s).lu.fn 0 / ((action e s).luu.matrix 0 0 + rho) ∧
      g.K.matrix 0 0 = -(action e s).lux.matrix 0 0 / ((action e s).luu.matrix 0 0 + rho) := by
  have hsome : ((action e s).luu.regularize rho).factor?.isSome = true := by
    rw [Mat.isSome_factor?]
    intro x hx
    have hx0 : x 0 ≠ 0 := fun h => hx (funext fun i => by rwa [Subsingleton.elim i 0])
    have hform := mul_pos hpos (mul_self_pos.2 hx0)
    simp only [Mat.matrix_regularize, dotProduct, Matrix.mulVec, Fin.sum_univ_one,
      Matrix.add_apply, Matrix.smul_apply, Matrix.one_apply_eq, smul_eq_mul]
    linarith
  obtain ⟨l, hl⟩ := Option.isSome_iff_exists.1 hsome
  have hsymm : ((action e s).luu.regularize rho).matrix.IsSymm := by
    ext i j
    rw [Subsingleton.elim i j, transpose_apply]
  obtain ⟨hd, hK⟩ := mulVec_gainOf hsymm hl (action e s)
  refine ⟨gainOf l (action e s), by rw [stage_eq, hl]; rfl, ?_, ?_⟩
  · have hd0 := congrFun hd 0
    simp only [Mat.matrix_regularize, Matrix.mulVec, dotProduct, Fin.sum_univ_one,
      Matrix.add_apply, Matrix.smul_apply, Matrix.one_apply_eq, smul_eq_mul, mul_one,
      Pi.neg_apply] at hd0
    rw [eq_div_iff hpos.ne']
    linarith
  · have hK0 := congrFun (congrFun hK 0) 0
    simp only [Mat.matrix_regularize, Matrix.mul_apply, Fin.sum_univ_one,
      Matrix.add_apply, Matrix.smul_apply, Matrix.one_apply_eq, smul_eq_mul, mul_one,
      Matrix.neg_apply] at hK0
    rw [eq_div_iff hpos.ne']
    linarith

/-- A knot of the integrator `x + u`, where only the control costs something. -/
noncomputable def coupledKnot (luu : ℝ) : StageExpansion ℝ 1 1 where
  lx := Vec.zero 1
  lu := Vec.zero 1
  lxx := Mat.zero 1 1
  luu := Mat.scale luu (Mat.identity 1)
  lux := Mat.zero 1 1
  A := Mat.identity 1
  B := Mat.identity 1

/-- Two such knots, and a final state that costs something. -/
noncomputable def coupledExpansion : Expansion ℝ 1 1 where
  stages := [coupledKnot (11 / 8), coupledKnot 1]
  Vx := Vec.const 1 1
  Vxx := Mat.identity 1

theorem action_coupledKnot (luu : ℝ) (s : Sweep ℝ 1 1) :
    (action (coupledKnot luu) s).lx.fn 0 = s.Vx.fn 0 ∧
    (action (coupledKnot luu) s).lu.fn 0 = s.Vx.fn 0 ∧
    (action (coupledKnot luu) s).lxx.matrix 0 0 = s.Vxx.matrix 0 0 ∧
    (action (coupledKnot luu) s).luu.matrix 0 0 = luu + s.Vxx.matrix 0 0 ∧
    (action (coupledKnot luu) s).lux.matrix 0 0 = s.Vxx.matrix 0 0 := by
  simp only [action, Vec.fn_add, Mat.fn_vecMul, Mat.matrix_add, Mat.matrix_mul,
    Mat.matrix_transpose, Pi.add_apply, Matrix.add_apply, Matrix.mul_apply, vecMul, dotProduct,
    Fin.sum_univ_one, transpose_apply]
  simp [coupledKnot]

theorem extend_single (s : Sweep ℝ 1 1) (t : StageTerms ℝ 1 1) (g : Gain ℝ 1 1) :
    (s.extend t g).Vx.fn 0 = t.lx.fn 0 + g.K.matrix 0 0 * t.luu.matrix 0 0 * g.d.fn 0 +
      g.K.matrix 0 0 * t.lu.fn 0 + t.lux.matrix 0 0 * g.d.fn 0 ∧
    (s.extend t g).Vxx.matrix 0 0 = t.lxx.matrix 0 0 +
      g.K.matrix 0 0 * t.luu.matrix 0 0 * g.K.matrix 0 0 +
      g.K.matrix 0 0 * t.lux.matrix 0 0 + t.lux.matrix 0 0 * g.K.matrix 0 0 ∧
    (s.extend t g).linear = s.linear + g.d.fn 0 * t.lu.fn 0 ∧
    (s.extend t g).quadratic = s.quadratic + g.d.fn 0 * (t.luu.matrix 0 0 * g.d.fn 0) / 2 := by
  refine ⟨?_, ?_, ?_, ?_⟩ <;>
  simp [Sweep.extend, Matrix.mul_apply, Matrix.mulVec, dotProduct, Vec.dot_eq, Mat.halfForm_eq]
  ring

/-- One such knot further back, for a value function with the derivatives `v` and `w`. -/
theorem stage_coupledKnot (rho luu : ℝ) {v w : ℝ} (hpos : 0 < luu + w + rho) {s : Sweep ℝ 1 1}
    (hVx : s.Vx.fn 0 = v) (hVxx : s.Vxx.matrix 0 0 = w) :
    ∃ g s', stage rho (coupledKnot luu) s = some s' ∧ s'.gains = g :: s.gains ∧
      g.d.fn 0 = -v / (luu + w + rho) ∧ g.K.matrix 0 0 = -w / (luu + w + rho) ∧
      s'.Vx.fn 0 = v + g.K.matrix 0 0 * (luu + w) * g.d.fn 0 + g.K.matrix 0 0 * v + w * g.d.fn 0 ∧
      s'.Vxx.matrix 0 0 =
        w + g.K.matrix 0 0 * (luu + w) * g.K.matrix 0 0 + g.K.matrix 0 0 * w + w * g.K.matrix 0 0 ∧
      s'.linear = s.linear + g.d.fn 0 * v ∧
      s'.quadratic = s.quadratic + g.d.fn 0 * ((luu + w) * g.d.fn 0) / 2 := by
  obtain ⟨hlx, hlu, hlxx, hluu, hlux⟩ := action_coupledKnot luu s
  rw [hVx] at hlx hlu
  rw [hVxx] at hlxx hluu hlux
  obtain ⟨g, hstage, hd, hK⟩ := exists_stage_single (coupledKnot luu) s (by rwa [hluu])
  have hextend := extend_single s (action (coupledKnot luu) s) g
  rw [hlx, hlu, hlxx, hluu, hlux] at hextend
  rw [hluu, hlu] at hd
  rw [hluu, hlux] at hK
  exact ⟨g, _, hstage, rfl, hd, hK, hextend⟩

theorem coupling_single (g : Gain ℝ 1 1) (dx : Vec ℝ 1) :
    g.coupling dx = g.d.fn 0 * (g.K.matrix 0 0 * dx.fn 0) := by
  simp [Gain.coupling, Vec.dot_eq, Matrix.mulVec, dotProduct]

theorem next_coupledKnot (luu size : ℝ) (g : Gain ℝ 1 1) (dx : Vec ℝ 1) :
    ((coupledKnot luu).next dx (g.partialControl size dx)).fn 0 =
      dx.fn 0 + (size * g.d.fn 0 + g.K.matrix 0 0 * dx.fn 0) := by
  simp [StageExpansion.next, Gain.partialControl, Matrix.mulVec, dotProduct, coupledKnot]

theorem transpose_coupledExpansion : (∀ k ∈ coupledExpansion.stages,
    k.lxx.transpose = k.lxx ∧ k.luu.transpose = k.luu) ∧
      coupledExpansion.Vxx.transpose = coupledExpansion.Vxx := by
  refine ⟨fun k hk => ?_, rfl⟩
  obtain ⟨luu, -, rfl⟩ := List.mem_map.1 (show k ∈ [(11 : ℝ) / 8, 1].map coupledKnot from hk)
  exact ⟨rfl, Mat.isSymm_matrix_iff.1 (by simp [coupledKnot, Matrix.IsSymm])⟩

/-- Both knots have the same control Hessian in the sweep, and reactions that are not zero. -/
theorem backwardPass_coupledExpansion : ∃ s, backwardPass coupledExpansion 2 = some s ∧
    s.linear = -(89 / 256) ∧ s.quadratic = 89 / 1024 ∧
    coupledExpansion.coupling (1 / 2) s.gains = -(5 / 1024) := by
  obtain ⟨g₂, s₁, hstage₂, hgains₂, hd₂, hK₂, hVx, hVxx, hlinear₁, hquadratic₁⟩ :=
    stage_coupledKnot 2 1 (v := 1) (w := 1) (by norm_num)
      (s := start coupledExpansion) rfl rfl
  norm_num at hd₂ hK₂
  norm_num [hd₂, hK₂] at hVx hVxx hlinear₁ hquadratic₁
  obtain ⟨g₁, s, hstage₁, hgains₁, hd₁, hK₁, -, -, hlinear, hquadratic⟩ :=
    stage_coupledKnot 2 (11 / 8) (by norm_num) hVx hVxx
  norm_num at hd₁ hK₁
  norm_num [hd₁, hlinear₁, hquadratic₁, start] at hlinear hquadratic
  refine ⟨s, ?_, hlinear, hquadratic, ?_⟩
  · show ((some (start coupledExpansion)).bind (stage 2 (coupledKnot 1))).bind
      (stage 2 (coupledKnot (11 / 8))) = some s
    rw [Option.bind_some, hstage₂, Option.bind_some, hstage₁]
  · rw [Expansion.coupling, Expansion.deviations, hgains₁, hgains₂]
    simp only [coupledExpansion, start, Expansion.deviationsFrom, List.zipWith_cons_cons,
      coupling_single, next_coupledKnot]
    norm_num [hd₁, hd₂, hK₁, hK₂]

end SingleState

/-- In exact arithmetic, a partial step of the gains of a sweep changes the quadratic model of the
cost by the expected change and by what its open-loop changes and its reactions have in common,
weighted with what is left of the step and with the regularization. Without regularization and for a
full step the change is the expected one. -/
theorem change_partialControls (e : Expansion ℝ n m) (rho size : ℝ) (s : Sweep ℝ n m)
    (hluu : ∀ k ∈ e.stages, k.luu.transpose = k.luu) (hVxx : e.Vxx.transpose = e.Vxx)
    (h : backwardPass e rho = some s) :
    e.change (e.partialControls size s.gains) =
        s.expectedChange size + (1 - size) * rho * e.coupling size s.gains ∧
      (rho = 0 ∨ size = 1 →
        e.change (e.partialControls size s.gains) = s.expectedChange size) := by
  have hchange := change_eq_add_coupling hluu hVxx h size
  refine ⟨hchange, fun hexact => ?_⟩
  rw [hchange]
  obtain rfl | rfl := hexact <;> ring

/-- A full step of the gains brings the expected change, and half a step a bit more. -/
theorem change_of_coupledExpansion : ∃ s, backwardPass coupledExpansion 2 = some s ∧
    coupledExpansion.change (coupledExpansion.partialControls 1 s.gains) = s.expectedChange 1 ∧
    coupledExpansion.change (coupledExpansion.partialControls (1 / 2) s.gains) =
      s.expectedChange (1 / 2) - 5 / 1024 := by
  obtain ⟨s, hs, -, -, hcoupling⟩ := backwardPass_coupledExpansion
  obtain ⟨hknots, hVxx⟩ := transpose_coupledExpansion
  have hchange := fun size => change_partialControls coupledExpansion 2 size s
    (fun k hk => (hknots k hk).2) hVxx hs
  refine ⟨s, hs, (hchange 1).2 (.inr rfl), ?_⟩
  rw [(hchange (1 / 2)).1, hcoupling]
  ring

/-- With regularization, half a step does not bring the expected change. -/
theorem change_ne_expectedChange :
    (∀ k ∈ coupledExpansion.stages, k.lxx.transpose = k.lxx ∧ k.luu.transpose = k.luu) ∧
      coupledExpansion.Vxx.transpose = coupledExpansion.Vxx ∧
    ∃ s, backwardPass coupledExpansion 2 = some s ∧
      s.linear = -(89 / 256) ∧ s.quadratic = 89 / 1024 ∧
      s.expectedChange (1 / 2) = -(623 / 4096) ∧
      coupledExpansion.change (coupledExpansion.partialControls (1 / 2) s.gains) =
        -(643 / 4096) := by
  obtain ⟨s, hs, hlinear, hquadratic, hcoupling⟩ := backwardPass_coupledExpansion
  obtain ⟨hknots, hVxx⟩ := transpose_coupledExpansion
  have hexpected : s.expectedChange (1 / 2) = -(623 / 4096) := by
    rw [Sweep.expectedChange, hlinear, hquadratic]
    norm_num
  refine ⟨hknots, hVxx, s, hs, hlinear, hquadratic, hexpected, ?_⟩
  rw [change_eq_add_coupling (fun k hk => (hknots k hk).2) hVxx hs, hexpected, hcoupling]
  norm_num

end Riccati

end TrajOpt
