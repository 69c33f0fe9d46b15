import TrajOpt.Proofs.Descent.Convexity

/-!
# Linear-quadratic problems

Without constraints, with affine dynamics and quadratic costs, the local approximation is the
problem itself: from one path to another, the cost changes as the quadratic model says. What the
Riccati recursion minimizes is then the cost, and the full step along its gains leads to the unique
minimizer from every path.

## Main definitions

* `Expansion.IsSymmetric` - expansions with symmetric second derivatives.
* `StageProblem.IsUniqueMinimizer` - controls that cost less than all others.
* `StageProblem.IsLinearQuadratic` - affine dynamics with quadratic and convex costs.

## Main statements

* `Lagrangian.cost_rollout` - the change of the cost is that of the quadratic model.
* `Lagrangian.isUniqueMinimizer_closedLoop` - the full step leads to the unique minimizer.
-/

namespace TrajOpt

open Matrix

variable {n m p q : Nat}

namespace Expansion

theorem followsFrom_unique {ks : List (StageExpansion ℝ n m)} {gs : List (Gain ℝ n m)}
    {dx : Vec ℝ n} {dus dus' : List (Vec ℝ m)} (h : FollowsFrom ks gs dx dus)
    (h' : FollowsFrom ks gs dx dus') : dus = dus' := by
  induction ks generalizing gs dx dus dus' with
  | nil =>
    cases gs with
    | nil => cases dus <;> cases dus' <;> simp_all [FollowsFrom]
    | cons g gs => cases h
  | cons k ks ih =>
    cases gs with
    | nil => cases h
    | cons g gs =>
      cases dus with
      | nil => cases h
      | cons du dus =>
        cases dus' with
        | nil => cases h'
        | cons du' dus' =>
          obtain ⟨rfl, h⟩ := h
          obtain ⟨rfl, h'⟩ := h'
          rw [ih h h']

theorem gains_of_followsFrom {ks : List (StageExpansion ℝ n m)} {gs : List (Gain ℝ n m)}
    {dus : List (Vec ℝ m)} (h : FollowsFrom ks gs (Vec.zero n) dus)
    (hdus : ∀ du ∈ dus, du = Vec.zero m) : ∀ g ∈ gs, g.d = Vec.zero m := by
  have hcontrol : ∀ g : Gain ℝ n m, g.control (Vec.zero n) = g.d := by
    intro g
    apply Vec.fn_injective
    simp [Gain.control]
  have hnext : ∀ k : StageExpansion ℝ n m, k.next (Vec.zero n) (Vec.zero m) = Vec.zero n := by
    intro k
    apply Vec.fn_injective
    simp [StageExpansion.next]
  induction ks generalizing gs dus with
  | nil =>
    cases gs with
    | nil => simp
    | cons g gs => cases h
  | cons k ks ih =>
    cases gs with
    | nil => cases h
    | cons g gs =>
      cases dus with
      | nil => cases h
      | cons du dus =>
        obtain ⟨hdu, hrest⟩ := h
        obtain rfl := hdus du List.mem_cons_self
        rw [hcontrol] at hdu
        rw [hnext] at hrest
        have hgs := ih hrest fun du hdu => hdus du (List.mem_cons_of_mem _ hdu)
        simpa [← hdu] using hgs

end Expansion

section Affine

variable {A : Mat ℝ n n} {B : Mat ℝ n m} {b : Vec ℝ n} {l : Lagrangian ℝ n m p q}

/-- Affine dynamics carry deviations on as their expansion does. -/
theorem Lagrangian.next_expandKnot (hdynamics : l.problem.dynamics = .affine A B b)
    (x x' : Vec ℝ n) (u u' : Vec ℝ m) (w : Weights ℝ p) :
    l.problem.dynamics.step x' u' - l.problem.dynamics.step x u =
      (l.expandKnot ⟨x, u⟩ w).next (x' - x) (u' - u) := by
  have hA : (l.expandKnot ⟨x, u⟩ w).A = (l.problem.dynamics.jacobians x u).1 := rfl
  have hB : (l.expandKnot ⟨x, u⟩ w).B = (l.problem.dynamics.jacobians x u).2 := rfl
  rw [StageExpansion.next, hA, hB, hdynamics]
  apply Vec.fn_injective
  simp only [Dynamics.affine, Vec.fn_add, Vec.fn_sub, Mat.fn_mulVec, mulVec_sub]
  abel

/-- Between two paths of affine dynamics, the quadratic model takes the deviations of the controls
to those of the states. -/
theorem Lagrangian.changeFrom_rollout (hdynamics : l.problem.dynamics = .affine A B b)
    (e : Expansion ℝ n m) (x x' : Vec ℝ n) {ws : List (Weights ℝ p)} {us us' : List (Vec ℝ m)}
    (hlength : us.length = ws.length) (hlength' : us'.length = ws.length) :
    let path := Path.rollout l.problem.dynamics.step x us
    let path' := Path.rollout l.problem.dynamics.step x' us'
    let ks := List.zipWith l.expandKnot path.knots ws
    e.changeFrom ks (x' - x) (List.zipWith (· - ·) us' us) =
      Expansion.slopeOver ks (path' - path).knots +
        Expansion.curvatureOver ks (path' - path).knots +
        (Vec.dot e.Vx (path' - path).final + e.Vxx.halfForm (path' - path).final) := by
  induction ws generalizing x x' us us' with
  | nil =>
    obtain rfl : us = [] := List.length_eq_zero_iff.1 hlength
    obtain rfl : us' = [] := List.length_eq_zero_iff.1 hlength'
    simp [Expansion.slopeOver, Expansion.curvatureOver, Expansion.changeFrom, Path.rollout]
    rfl
  | cons w ws ih =>
    obtain ⟨u, us, rfl⟩ := List.exists_cons_of_length_eq_add_one hlength
    obtain ⟨u', us', rfl⟩ := List.exists_cons_of_length_eq_add_one hlength'
    have hrest := ih (l.problem.dynamics.step x u) (l.problem.dynamics.step x' u')
      (Nat.succ.inj hlength) (Nat.succ.inj hlength')
    rw [next_expandKnot hdynamics x x' u u' w] at hrest
    intro path path' ks
    set rest := Path.rollout l.problem.dynamics.step (l.problem.dynamics.step x u) us
    set rest' := Path.rollout l.problem.dynamics.step (l.problem.dynamics.step x' u') us'
    have hks : ks = l.expandKnot ⟨x, u⟩ w :: List.zipWith l.expandKnot rest.knots ws := rfl
    have hknots : (path' - path).knots = ⟨x' - x, u' - u⟩ :: (rest' - rest).knots := rfl
    have hfinal : (path' - path).final = (rest' - rest).final := rfl
    rw [hks, hknots, hfinal, List.zipWith_cons_cons, Expansion.changeFrom, hrest,
      StageTerms.change_eq_add]
    simp only [Expansion.slopeOver, Expansion.curvatureOver, List.zipWith_cons_cons, List.sum_cons]
    ring

/-- Under the full gains, the deviations of the controls are those that the gains ask for. -/
theorem Lagrangian.followsFrom_closedLoop (hdynamics : l.problem.dynamics = .affine A B b)
    (x x' : Vec ℝ n) {ws : List (Weights ℝ p)} {us : List (Vec ℝ m)} {gains : List (Gain ℝ n m)}
    (hlength : us.length = ws.length) (hgains : gains.length = ws.length) :
    let step := l.problem.dynamics.step
    let path := Path.rollout step x us
    let next := Path.closedLoopFrom step 1 x' (path.knots.zip gains)
    Expansion.FollowsFrom (List.zipWith l.expandKnot path.knots ws) gains (x' - x)
      (List.zipWith (· - ·) next.controls us) := by
  induction ws generalizing x x' us gains with
  | nil =>
    obtain rfl : us = [] := List.length_eq_zero_iff.1 hlength
    obtain rfl : gains = [] := List.length_eq_zero_iff.1 hgains
    exact trivial
  | cons w ws ih =>
    obtain ⟨u, us, rfl⟩ := List.exists_cons_of_length_eq_add_one hlength
    obtain ⟨g, gains, rfl⟩ := List.exists_cons_of_length_eq_add_one hgains
    have hcontrol : Path.reaction 1 x' ⟨x, u⟩ g - u = g.control (x' - x) := by
      apply Vec.fn_injective
      simp only [Path.reaction, Gain.control, Vec.fn_add, Vec.fn_sub, Vec.fn_scale, one_smul]
      abel
    have hrest := ih (l.problem.dynamics.step x u)
      (l.problem.dynamics.step x' (Path.reaction 1 x' ⟨x, u⟩ g)) (Nat.succ.inj hlength)
      (Nat.succ.inj hgains)
    rw [next_expandKnot hdynamics x x' u _ w] at hrest
    exact ⟨hcontrol, hrest⟩

/-- The full step along gains leads to a path of the dynamics, whose controls deviate as the gains
ask for. -/
theorem Lagrangian.follows_closedLoop (hdynamics : l.problem.dynamics = .affine A B b)
    (x : Vec ℝ n) {us : List (Vec ℝ m)} {gains : List (Gain ℝ n m)}
    (hlength : us.length = l.multipliers.stages.length) (hgains : gains.length = us.length) :
    let step := l.problem.dynamics.step
    let path := Path.rollout step x us
    let next := Path.closedLoop step 1 path gains
    next = Path.rollout step x next.controls ∧ next.controls.length = us.length ∧
      (l.expand path).Follows gains (List.zipWith (· - ·) next.controls us) := by
  intro step path next
  have hfirst : path.first = x := Path.first_rollout _ _ us
  refine ⟨?_, ?_, ?_⟩
  · have hrollout := Path.isRollout_closedLoop step 1 path gains
    rw [Path.IsRollout, Path.first_closedLoop, hfirst] at hrollout
    exact hrollout.symm
  · rw [Path.length_controls, Path.length_knots_closedLoop] <;> simp [path, hgains]
  · have hfrom := followsFrom_closedLoop hdynamics x x hlength (hgains.trans hlength)
    rw [Vec.sub_self] at hfrom
    simp only [next, Path.closedLoop, hfirst]
    exact hfrom

theorem Lagrangian.length_gains_of_rollout {x : Vec ℝ n} {us : List (Vec ℝ m)}
    (hlength : us.length = l.multipliers.stages.length) {rho : ℝ} {s : Riccati.Sweep ℝ n m}
    (hs : Riccati.backwardPass (l.expand (Path.rollout l.problem.dynamics.step x us)) rho =
      some s) : s.gains.length = us.length := by
  have hsweep := Riccati.length_gains_sweep hs
  simpa [Riccati.start, expand, hlength] using hsweep

end Affine

/-- The control Hessians and the Hessian of the final state are symmetric. -/
structure Expansion.IsSymmetric (e : Expansion ℝ n m) : Prop where
  luu : ∀ k ∈ e.stages, k.luu.transpose = k.luu
  Vxx : e.Vxx.transpose = e.Vxx

theorem Expansion.IsSymmetric.isSymm_luu {e : Expansion ℝ n m} (he : e.IsSymmetric) :
    ∀ k ∈ e.stages, k.luu.matrix.IsSymm := fun k hk => Mat.isSymm_matrix_iff.2 (he.luu k hk)

theorem Expansion.IsSymmetric.isSymm_Vxx {e : Expansion ℝ n m} (he : e.IsSymmetric) :
    e.Vxx.matrix.IsSymm := Mat.isSymm_matrix_iff.2 he.Vxx

theorem Lagrangian.isSymmetric_expand {l : Lagrangian ℝ n m p q} (h : l.problem.IsQuadratic)
    (path : Path ℝ n m) : (l.expand path).IsSymmetric := by
  constructor
  · intro e he
    obtain ⟨k, w, -, rfl⟩ := exists_of_mem_stages he
    obtain ⟨t, c, -, hluu, hcost⟩ := h.stage
    have hterms : (l.problem.expandKnot k).luu = t.luu := by
      simp only [StageProblem.expandKnot, hcost, StageTerms.toCost]
    rw [← Mat.isSymm_matrix_iff]
    simp only [expandKnot, addStageTerms, Mat.matrix_add, hterms]
    exact hluu.add (isSymm_weightedProduct _ _)
  · obtain ⟨c, g, H, hH, hcost⟩ := h.terminal
    rw [← Mat.isSymm_matrix_iff]
    simp only [expand, Mat.matrix_add, hcost, TerminalCost.quadratic]
    exact hH.add (isSymm_weightedProduct _ _)

/-- Controls that cost strictly less than all others of the same number. -/
def StageProblem.IsUniqueMinimizer (problem : StageProblem ℝ n m p q) (us : List (Vec ℝ m)) :
    Prop :=
  ∀ vs, vs.length = us.length → vs ≠ us → problem.cost (problem.rollout us) <
    problem.cost (problem.rollout vs)

/-- Affine dynamics, and costs that are quadratic and convex. -/
structure StageProblem.IsLinearQuadratic (problem : StageProblem ℝ n m p q) : Prop where
  affine : ∃ A B b, problem.dynamics = .affine A B b
  quadratic : problem.IsQuadratic
  convex : problem.IsConvex

section Unconstrained

variable {l : Lagrangian ℝ n m 0 0}

instance {α : Type} : Subsingleton (Vec α 0) := ⟨fun u v => by
  ext i hi
  omega⟩

theorem Lagrangian.cost_of_unconstrained (l : Lagrangian ℝ n m 0 0) (path : Path ℝ n m) :
    l.cost path = l.problem.cost path := by
  have hpenalty : ∀ (w : Weights ℝ 0) (isEquality : Vec Bool 0) (c : Vec ℝ 0),
      w.penalty isEquality c = 0 := by
    intro w isEquality c
    rw [Weights.penalty_eq, Fin.sum_univ_zero]
  have hsum : ∀ (ws : List (Weights ℝ 0)) (cs : List (Vec ℝ 0)),
      (List.zipWith (fun _ _ => (0 : ℝ)) ws cs).sum = 0 := by
    intro ws cs
    induction ws generalizing cs with
    | nil => rfl
    | cons w ws ih => cases cs <;> simp [ih]
  simp only [cost, hpenalty, hsum, add_zero]

theorem StageProblem.hasAffineConstraints_of_unconstrained (problem : StageProblem ℝ n m 0 0) :
    problem.HasAffineConstraints :=
  ⟨⟨Vec.empty, Vec.empty, Vec.empty, fun _ _ => ⟨Subsingleton.elim _ _, Subsingleton.elim _ _⟩⟩,
    ⟨Vec.empty, Vec.empty, fun _ => ⟨Subsingleton.elim _ _, Subsingleton.elim _ _⟩⟩⟩

theorem Multipliers.nonnegPenalties_of_unconstrained (w : Multipliers ℝ 0 0) : w.NonnegPenalties :=
  ⟨fun _ _ i => i.elim0, fun i => i.elim0⟩

/-- Without constraints, the change of the cost from one path to another is that of the quadratic
model. -/
theorem Lagrangian.cost_rollout {A : Mat ℝ n n} {B : Mat ℝ n m} {b : Vec ℝ n}
    (hdynamics : l.problem.dynamics = .affine A B b) (hcost : l.problem.IsQuadratic) (x : Vec ℝ n)
    {us us' : List (Vec ℝ m)} (hlength : us.length = l.multipliers.stages.length)
    (hlength' : us'.length = us.length) :
    let path := Path.rollout l.problem.dynamics.step x us
    let path' := Path.rollout l.problem.dynamics.step x us'
    l.problem.cost path' - l.problem.cost path =
      (l.expand path).change (List.zipWith (· - ·) us' us) := by
  intro path path'
  have hknots : path.knots.length = l.multipliers.stages.length := by
    simpa [path] using hlength
  have hknots' : path'.knots.length = l.multipliers.stages.length := by
    simpa [path', hlength'] using hlength
  have hremainder := remainder_cost hcost l.problem.hasAffineConstraints_of_unconstrained
    l.multipliers.nonnegPenalties_of_unconstrained hknots hknots'
  have hchange := changeFrom_rollout hdynamics (l.expand path) x x hlength (hlength'.trans hlength)
  have hactive : l.active path' = l.active path := by
    refine Prod.ext ?_ (Subsingleton.elim _ _)
    refine List.ext_getElem ?_ fun i _ _ => Subsingleton.elim _ _
    simp [active, activeOver, path, path', hlength']
  rw [Vec.sub_self] at hchange
  have hmodel : (l.expand path).change (List.zipWith (· - ·) us' us) =
      (l.expand path).slope (path' - path) + (l.expand path).curvature (path' - path) := by
    rw [Expansion.slope, Expansion.curvature, add_add_add_comm]
    exact hchange
  rw [← cost_of_unconstrained, ← cost_of_unconstrained, hmodel, ← hremainder.eq_value hactive]
  ring

theorem Vec.eq_of_deviations_eq {us vs vs' : List (Vec ℝ m)} (hvs : vs.length = us.length)
    (hvs' : vs'.length = us.length)
    (h : List.zipWith (· - ·) vs us = List.zipWith (· - ·) vs' us) : vs = vs' := by
  refine List.ext_getElem (hvs.trans hvs'.symm) fun i hi hi' => ?_
  have hentry := congrArg (fun l => l[i]?) h
  have hus : i < us.length := hvs ▸ hi
  simp only [List.getElem?_zipWith, List.getElem?_eq_getElem hi, List.getElem?_eq_getElem hi',
    List.getElem?_eq_getElem hus, Option.some.injEq] at hentry
  apply fn_injective
  simpa using congrArg fn hentry

/-- The expected change of a backward pass is the least of the quadratic model. -/
theorem Lagrangian.change_optimal (h : l.problem.IsLinearQuadratic) {path : Path ℝ n m}
    {s : Riccati.Sweep ℝ n m} (hs : Riccati.backwardPass (l.expand path) 0 = some s)
    {dus : List (Vec ℝ m)} (hdus : dus.length = (l.expand path).stages.length) :
    s.linear + s.quadratic ≤ (l.expand path).change dus ∧
      ((l.expand path).change dus = s.linear + s.quadratic ↔
        (l.expand path).Follows s.gains dus) := by
  have hsymm := isSymmetric_expand h.quadratic path
  obtain ⟨-, hoptimal⟩ := Riccati.sweep_optimal _ hsymm.isSymm_Vxx hsymm.isSymm_luu hs
  rw [← s.value_zero]
  exact hoptimal (Vec.zero n) dus hdus

/-- The full step along the gains of a backward pass leads to the unique minimizer, and the change
of the cost is the expected one. -/
theorem Lagrangian.isUniqueMinimizer_closedLoop (h : l.problem.IsLinearQuadratic)
    {us : List (Vec ℝ m)} (hlength : us.length = l.multipliers.stages.length)
    {s : Riccati.Sweep ℝ n m}
    (hs : Riccati.backwardPass (l.expand (l.problem.rollout us)) 0 = some s) :
    let next := Path.closedLoop l.problem.dynamics.step 1 (l.problem.rollout us) s.gains
    next = l.problem.rollout next.controls ∧ next.controls.length = us.length ∧
      l.problem.IsUniqueMinimizer next.controls ∧
      l.problem.cost next - l.problem.cost (l.problem.rollout us) = s.linear + s.quadratic := by
  intro next
  obtain ⟨A, B, b, hdynamics⟩ := h.affine
  set e := l.expand (l.problem.rollout us)
  obtain ⟨hnext, hcontrols, hfollows⟩ : next = l.problem.rollout next.controls ∧
      next.controls.length = us.length ∧
      e.Follows s.gains (List.zipWith (· - ·) next.controls us) :=
    follows_closedLoop hdynamics l.problem.x0 hlength (length_gains_of_rollout hlength hs)
  have hstages : e.stages.length = us.length := by
    simp [e, expand, StageProblem.rollout, hlength]
  have hmodel : ∀ vs : List (Vec ℝ m), vs.length = us.length →
      l.problem.cost (l.problem.rollout vs) - l.problem.cost (l.problem.rollout us) =
          e.change (List.zipWith (· - ·) vs us) ∧
        (s.linear + s.quadratic ≤ e.change (List.zipWith (· - ·) vs us) ∧
          (e.change (List.zipWith (· - ·) vs us) = s.linear + s.quadratic ↔
            e.Follows s.gains (List.zipWith (· - ·) vs us))) := by
    intro vs hvs
    exact ⟨cost_rollout hdynamics h.quadratic l.problem.x0 hlength hvs,
      change_optimal h hs (by simp [hvs, e, hstages])⟩
  have hchange : l.problem.cost next - l.problem.cost (l.problem.rollout us) =
      s.linear + s.quadratic := by
    obtain ⟨hvalue, -, hiff⟩ := hmodel next.controls hcontrols
    rw [hnext, hvalue]
    exact hiff.2 hfollows
  refine ⟨hnext, hcontrols, ?_, hchange⟩
  intro vs hvs hne
  obtain ⟨hvalue, hle, hiff⟩ := hmodel vs (hvs.trans hcontrols)
  have hstrict : e.change (List.zipWith (· - ·) vs us) ≠ s.linear + s.quadratic := by
    intro heq
    exact hne (Vec.eq_of_deviations_eq (hvs.trans hcontrols) hcontrols
      (Expansion.followsFrom_unique (hiff.1 heq) hfollows))
  have hlt := lt_of_le_of_ne hle hstrict.symm
  rw [← hnext]
  linarith

/-- A backward pass that expects nothing has gains that ask for no change. -/
theorem Lagrangian.gains_of_expectedChange (h : l.problem.IsLinearQuadratic)
    {us : List (Vec ℝ m)} (hlength : us.length = l.multipliers.stages.length)
    {s : Riccati.Sweep ℝ n m}
    (hs : Riccati.backwardPass (l.expand (l.problem.rollout us)) 0 = some s)
    (hexpected : 0 ≤ s.linear + s.quadratic) : ∀ g ∈ s.gains, g.d = Vec.zero m := by
  -- No change is one of the candidates of the model, and costs nothing.
  obtain ⟨A, B, b, hdynamics⟩ := h.affine
  have hzero : (l.expand (l.problem.rollout us)).change (List.zipWith (· - ·) us us) = 0 :=
    (cost_rollout hdynamics h.quadratic l.problem.x0 hlength rfl).symm.trans (sub_self _)
  have hstages : (List.zipWith (· - ·) us us).length =
      (l.expand (l.problem.rollout us)).stages.length := by
    simp [expand, StageProblem.rollout, hlength]
  obtain ⟨hle, hiff⟩ := change_optimal h hs hstages
  rw [hzero] at hle hiff
  apply Expansion.gains_of_followsFrom (hiff.1 (le_antisymm hexpected hle))
  intro du hdu
  obtain ⟨i, hi, rfl⟩ := List.mem_iff_getElem.1 hdu
  rw [List.getElem_zipWith, Vec.sub_self]

end Unconstrained

end TrajOpt
