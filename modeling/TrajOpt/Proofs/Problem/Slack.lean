import TrajOpt.Proofs.Lagrangian
import TrajOpt.Proofs.Linear.Blocks
import TrajOpt.Proofs.Objective.Constraints
import TrajOpt.Proofs.Path
import TrajOpt.Solve.Infeasible

/-!
# Problems with slack controls

Slacks are added to the states, so for fixed controls the paths of the dynamics with slacks are all
paths that begin in the initial state, and each comes from one choice of slacks. Whatever a problem
says of a path, the problem with slacks says too, with a term for the slacks of its own: a cost, a
violation, multipliers and penalties. Where the slacks are zero the two problems agree.

## Main definitions

* `Path.dropSlack`, `Path.slackParts` - the two parts of a path with slacks.
* `StageProblem.slackPath` - the path that slacks lead to.
* `StageProblem.IsFeasible` - a path of the dynamics on which all constraints hold.

## Main statements

* `StageProblem.slackPath_invOn` - slacks and paths determine each other.
* `Weights.penalty_append` - the terms of constraints one after the other.
* `StageProblem.withSlack_conservative` - what slacks add to a problem.
-/

namespace TrajOpt

section Definitions

variable {α : Type} {n m p q : Nat}

namespace Path

/-- The path without the slacks. -/
def dropSlack (path : Path α n (m + n)) : Path α n m :=
  ⟨path.knots.map fun k => ⟨k.state, Vec.left k.control⟩, path.final⟩

/-- The slacks of a path. -/
def slackParts (path : Path α n (m + n)) : List (Vec α n) := path.controls.map Vec.right

end Path

/-- The weights of the first constraints. -/
def Weights.left {k : Nat} (w : Weights α (p + k)) : Weights α p := ⟨Vec.left w.lam, Vec.left w.mu⟩

/-- The weights of the last constraints. -/
def Weights.right {k : Nat} (w : Weights α (p + k)) : Weights α k :=
  ⟨Vec.right w.lam, Vec.right w.mu⟩

/-- The multipliers and penalties without those of the slacks. -/
def Multipliers.dropSlack (w : Multipliers α (p + n) q) : Multipliers α p q :=
  ⟨w.stages.map Weights.left, w.terminal⟩

/-- The path that slacks lead to under the given controls. -/
def StageProblem.slackPath [Scalar α] (problem : StageProblem α n m p q) (weight : α)
    (us : List (Vec α m)) (ws : List (Vec α n)) : Path α n m :=
  ((problem.withSlack weight).rollout (List.zipWith Vec.append us ws)).dropSlack

end Definitions

variable {n m p q : Nat}

namespace Path

section Parts

variable {α : Type}

@[simp] theorem dropSlack_cons (k : Knot α n (m + n)) (path : Path α n (m + n)) :
    (cons k path).dropSlack = cons ⟨k.state, Vec.left k.control⟩ path.dropSlack := rfl

@[simp] theorem first_dropSlack (path : Path α n (m + n)) : path.dropSlack.first = path.first := by
  obtain ⟨knots, final⟩ := path
  cases knots <;> rfl

@[simp] theorem controls_dropSlack (path : Path α n (m + n)) :
    path.dropSlack.controls = path.controls.map Vec.left := by
  simp [dropSlack, controls]

@[simp] theorem length_knots_dropSlack (path : Path α n (m + n)) :
    path.dropSlack.knots.length = path.knots.length := by
  simp [dropSlack]

@[simp] theorem states_dropSlack (path : Path α n (m + n)) :
    path.dropSlack.states = path.states := by
  simp [dropSlack, states]

end Parts

section Slacks

variable (dynamics : Dynamics ℝ n m)

/-- The dynamics with slacks lead to a path that misses the dynamics by the slacks. -/
theorem slacks_rollout (x : Vec ℝ n) {us : List (Vec ℝ m)} {ws : List (Vec ℝ n)}
    (hlength : ws.length = us.length) :
    (rollout dynamics.withSlack.step x (List.zipWith Vec.append us ws)).dropSlack.slacks
      dynamics.step = ws := by
  induction us generalizing x ws with
  | nil =>
    obtain rfl := List.length_eq_zero_iff.1 hlength
    rfl
  | cons u us ih =>
    cases ws with
    | nil => cases hlength
    | cons w ws =>
      have hstep : dynamics.withSlack.step x (Vec.append u w) - dynamics.step x u = w := by
        apply Vec.fn_injective
        simp [Dynamics.withSlack]
      simp only [List.zipWith_cons_cons, rollout, dropSlack_cons, slacks_cons, first_dropSlack,
        first_rollout, Vec.left_append, hstep, ih _ (Nat.succ.inj hlength)]

/-- Slacks by which a path misses the dynamics lead along the path. -/
theorem rollout_slacks (path : Path ℝ n m) :
    (rollout dynamics.withSlack.step path.first
      (List.zipWith Vec.append path.controls (path.slacks dynamics.step))).dropSlack = path := by
  obtain ⟨knots, final⟩ := path
  induction knots with
  | nil => rfl
  | cons k knots ih =>
    set rest : Path ℝ n m := ⟨knots, final⟩
    have hpath : (⟨k :: knots, final⟩ : Path ℝ n m) = cons k rest := rfl
    have hstep : dynamics.withSlack.step k.state (Vec.append k.control
        (rest.first - dynamics.step k.state k.control)) = rest.first := by
      apply Vec.fn_injective
      simp [Dynamics.withSlack]
    rw [hpath, slacks_cons, controls_cons, List.zipWith_cons_cons, first_cons, rollout,
      dropSlack_cons, hstep, ih, Vec.left_append]

/-- Slacks of zero leave the dynamics as they are. -/
theorem dropSlack_rollout (x : Vec ℝ n) {vs : List (Vec ℝ (m + n))}
    (hzero : ∀ v ∈ vs, Vec.right v = Vec.zero n) :
    (rollout dynamics.withSlack.step x vs).dropSlack =
      rollout dynamics.step x (vs.map Vec.left) := by
  induction vs generalizing x with
  | nil => rfl
  | cons v vs ih =>
    have hstep : dynamics.withSlack.step x v = dynamics.step x (Vec.left v) := by
      apply Vec.fn_injective
      simp [Dynamics.withSlack, hzero v List.mem_cons_self]
    rw [rollout, dropSlack_cons, hstep, ih _ fun v' hv' => hzero v' (List.mem_cons_of_mem v hv'),
      List.map_cons, rollout]

end Slacks

end Path

namespace StageProblem

variable {problem : StageProblem ℝ n m p q} (weight : ℝ)

/-- The slacks of a guess lead to the guess, but for its first state. -/
theorem slackPath_initialSlacks (guess : Path ℝ n m) :
    problem.slackPath weight guess.controls (problem.initialSlacks guess) =
      guess.setFirst problem.x0 := by
  have h := (guess.setFirst problem.x0).rollout_slacks problem.dynamics
  rw [Path.first_setFirst, Path.controls_setFirst] at h
  exact h

theorem first_slackPath (us : List (Vec ℝ m)) (ws : List (Vec ℝ n)) :
    (problem.slackPath weight us ws).first = problem.x0 := by
  simp [slackPath, rollout, withSlack]

theorem controls_slackPath {us : List (Vec ℝ m)} {ws : List (Vec ℝ n)}
    (hlength : ws.length = us.length) : (problem.slackPath weight us ws).controls = us := by
  refine List.ext_getElem ?_ ?_
  · simp [slackPath, rollout, hlength]
  · simp [slackPath, rollout]

theorem initialSlacks_slackPath {us : List (Vec ℝ m)} {ws : List (Vec ℝ n)}
    (hlength : ws.length = us.length) :
    problem.initialSlacks (problem.slackPath weight us ws) = ws := by
  have hfirst := (problem.slackPath weight us ws).setFirst_first
  rw [first_slackPath] at hfirst
  rw [initialSlacks, hfirst]
  exact Path.slacks_rollout problem.dynamics _ hlength

/-- In exact arithmetic, slacks and paths from the initial state determine each other for given
controls, and the slacks of any guess lead to the guess with the initial state at its beginning. -/
theorem slackPath_invOn (problem : StageProblem ℝ n m p q) (weight : ℝ) (us : List (Vec ℝ m)) :
    let slacks := {ws : List (Vec ℝ n) | ws.length = us.length}
    let paths := {path : Path ℝ n m | path.first = problem.x0 ∧ path.controls = us}
    Set.MapsTo (problem.slackPath weight us) slacks paths ∧
    Set.MapsTo problem.initialSlacks paths slacks ∧
    Set.InvOn problem.initialSlacks (problem.slackPath weight us) slacks paths ∧
    ∀ guess : Path ℝ n m, ((problem.withSlack weight).rollout
      (Infeasible.slackControls problem guess)).states = problem.x0 :: guess.states.tail := by
  intro slacks paths
  refine ⟨fun ws hws => ?_, ?_, ⟨fun ws hws => initialSlacks_slackPath weight hws, ?_⟩,
    fun guess => ?_⟩
  · exact ⟨first_slackPath weight us ws, controls_slackPath weight hws⟩
  · rintro path ⟨-, rfl⟩
    simp [slacks, initialSlacks]
  · rintro path ⟨hfirst, rfl⟩
    rw [slackPath_initialSlacks, ← hfirst, Path.setFirst_first]
  · rw [← Path.states_setFirst, ← slackPath_initialSlacks weight guess, slackPath,
      Path.states_dropSlack]
    rfl

end StageProblem

section Append

variable {k : Nat}

/-- What holds of all entries of two vectors one after the other holds of those of each. -/
theorem Vec.forall_append {α β : Type} {P : α → β → Prop} {a : Vec α p} {a' : Vec α k}
    {b : Vec β p} {b' : Vec β k} :
    (∀ i (h : i < p + k), P (append a a')[i] (append b b')[i]) ↔
      (∀ i (h : i < p), P a[i] b[i]) ∧ ∀ i (h : i < k), P a'[i] b'[i] := by
  constructor
  · refine fun h => ⟨fun i hi => ?_, fun i hi => ?_⟩
    · simpa [append, hi] using h i (by omega)
    · simpa [append] using h (p + i) (by omega)
  · rintro ⟨h, h'⟩ i hi
    by_cases hp : i < p
    · simpa [append, hp] using h i hp
    · simpa [append, Vector.getElem_append, hp] using h' (i - p) (by omega)

/-- The terms of constraints one after the other are the sum of the terms of each part. -/
theorem Weights.penalty_append (w : Weights ℝ (p + k)) (isEquality : Vec Bool p)
    (isEquality' : Vec Bool k) (c : Vec ℝ p) (c' : Vec ℝ k) :
    w.penalty (Vec.append isEquality isEquality') (Vec.append c c') =
      w.left.penalty isEquality c + w.right.penalty isEquality' c' := by
  rw [penalty_eq, penalty_eq, penalty_eq, Fin.sum_univ_add]
  simp [Vec.fn, Vec.get_eq, activePenalties, left, right, Vec.left, Vec.right, Vec.append]

/-- The violation of constraints one after the other is that of one of the parts. -/
theorem largestViolation_append_lt {isEquality : Vec Bool p} {isEquality' : Vec Bool k}
    {c : Vec ℝ p} {c' : Vec ℝ k} {eps : ℝ} :
    largestViolation (Vec.append isEquality isEquality') (Vec.append c c') < eps ↔
      largestViolation isEquality c < eps ∧ largestViolation isEquality' c' < eps := by
  simp only [largestViolation_lt, Vec.forall_append (P := fun e a => violationOf e a < eps)]
  tauto

theorem largestViolation_of_equalities (w : Vec ℝ n) :
    largestViolation (Vec.const n true) w = Vec.maximum 0 (w.map Scalar.abs) := by
  have habs : Vector.zipWith violationOf (Vec.const n true) w = w.map Scalar.abs := by
    ext i hi
    simp [violationOf]
  rw [largestViolation, habs]

end Append

/-- Whether a constraint holds. -/
def IsMet (isEquality : Bool) (c : ℝ) : Prop := if isEquality then c = 0 else c ≤ 0

/-- The path is one of the dynamics from the initial state, with the right number of knots, and all
constraints hold on it. -/
structure StageProblem.IsFeasible (problem : StageProblem ℝ n m p q) (path : Path ℝ n m) :
    Prop where
  rollout : problem.rollout path.controls = path
  length_knots : path.knots.length = problem.intervals
  stages : ∀ k ∈ path.knots, ∀ i (h : i < p),
    IsMet problem.stageConstraints.isEquality[i]
      (problem.stageConstraints.value k.state k.control)[i]
  terminal : ∀ i (h : i < q), IsMet problem.terminalConstraints.isEquality[i]
    (problem.terminalConstraints.value path.final)[i]

namespace StageProblem

variable (problem : StageProblem ℝ n m p q) (weight : ℝ) (path : Path ℝ n (m + n))

theorem cost_withSlack : (problem.withSlack weight).cost path = problem.cost path.dropSlack +
    weight / 2 * (path.slackParts.map fun w => Vec.dot w w).sum := by
  have hhalf : 0.5 * weight = weight / 2 := by
    norm_num
    ring
  have hstage : ∀ (x : Vec ℝ n) (v : Vec ℝ (m + n)),
      (problem.withSlack weight).stageCost.value x v = problem.stageCost.value x (Vec.left v) +
        weight / 2 * Vec.dot (Vec.right v : Vec ℝ n) (Vec.right v) := by
    intro x v
    simp only [withSlack, StageCost.withSlack, Vec.dot_eq, Vec.fn_scale, smul_dotProduct,
      smul_eq_mul, hhalf]
  have hterminal : (problem.withSlack weight).terminalCost = problem.terminalCost := rfl
  simp only [cost, hstage, hterminal, List.sum_map_add, List.sum_map_mul_left, Path.slackParts,
    Path.dropSlack, Path.controls, List.map_map, Function.comp_def]
  ring

theorem violation_withSlack (w : Multipliers ℝ (p + n) q) (v : Multipliers ℝ p q) :
    Lagrangian.violation ⟨problem.withSlack weight, w⟩ path =
      max (Lagrangian.violation ⟨problem, v⟩ path.dropSlack)
        (Infeasible.largestSlack path.controls) := by
  have hstage : ∀ (x : Vec ℝ n) (v : Vec ℝ (m + n)) (c : ℝ),
      largestViolation (problem.withSlack weight).stageConstraints.isEquality
          ((problem.withSlack weight).stageConstraints.value x v) < c ↔
        largestViolation problem.stageConstraints.isEquality
            (problem.stageConstraints.value x (Vec.left v)) < c ∧
          Vec.maximum 0 ((Vec.right v : Vec ℝ n).map Scalar.abs) < c := by
    intro x v c
    rw [← largestViolation_of_equalities]
    exact largestViolation_append_lt
  have hterminal : (problem.withSlack weight).terminalConstraints = problem.terminalConstraints :=
    rfl
  -- Both sides are maxima over the same entries, so they are below the same bounds.
  refine eq_of_forall_gt_iff fun c => ?_
  simp only [max_lt_iff, Lagrangian.violation, ConstraintValues.violation, Infeasible.largestSlack,
    Arith.maximum_lt, Arith.foldl_maximum_lt, List.forall_mem_map, evaluateConstraints,
    Path.controls, Path.dropSlack, hstage, forall_and, hterminal]
  tauto

/-- The Lagrangian has the terms of the slack equalities in addition. -/
theorem lagrangianCost_withSlack (w : Multipliers ℝ (p + n) q) :
    Lagrangian.cost ⟨problem.withSlack weight, w⟩ path =
      Lagrangian.cost ⟨problem, w.dropSlack⟩ path.dropSlack +
        weight / 2 * (path.slackParts.map fun w => Vec.dot w w).sum +
        (List.zipWith (fun s w => s.right.penalty (Vec.const n true) w) w.stages
          path.slackParts).sum := by
  have hstage : ∀ (s : Weights ℝ (p + n)) (k : Knot ℝ n (m + n)),
      s.penalty (problem.withSlack weight).stageConstraints.isEquality
          ((problem.withSlack weight).stageConstraints.value k.state k.control) =
        s.left.penalty problem.stageConstraints.isEquality
            (problem.stageConstraints.value k.state (Vec.left k.control)) +
          s.right.penalty (Vec.const n true) (Vec.right k.control) :=
    fun s k => s.penalty_append _ _ _ _
  have hsum : ∀ (ks : List (Knot ℝ n (m + n))) (ws : List (Weights ℝ (p + n))),
      (List.zipWith
        (fun s c => s.penalty (problem.withSlack weight).stageConstraints.isEquality c) ws
        (ks.map fun k => (problem.withSlack weight).stageConstraints.value k.state k.control)).sum =
        (List.zipWith (fun s c => s.penalty problem.stageConstraints.isEquality c)
          (ws.map Weights.left)
          (ks.map fun k => problem.stageConstraints.value k.state (Vec.left k.control))).sum +
        (List.zipWith (fun s w => s.right.penalty (Vec.const n true) w) ws
          (ks.map fun k => Vec.right k.control)).sum := by
    intro ks
    induction ks with
    | nil => simp
    | cons k ks ih =>
      rintro (_ | ⟨s, ws⟩)
      · simp
      · simp only [List.map_cons, List.zipWith_cons_cons, List.sum_cons, hstage, ih]
        ring
  have hterminal : (problem.withSlack weight).terminalConstraints = problem.terminalConstraints :=
    rfl
  simp only [Lagrangian.cost, evaluateConstraints, cost_withSlack, hsum, hterminal,
    Multipliers.dropSlack, Path.dropSlack, Path.slackParts, Path.controls, List.map_map,
    Function.comp_def]
  ring

/-- A path that is what the dynamics make of its controls is so without slacks of zero. -/
theorem rollout_withSlack {path : Path ℝ n (m + n)}
    (hzero : ∀ w ∈ path.slackParts, w = Vec.zero n) :
    (problem.withSlack weight).rollout path.controls = path ↔
      problem.rollout path.dropSlack.controls = path.dropSlack := by
  have hrollout : ((problem.withSlack weight).rollout path.controls).dropSlack =
      problem.rollout path.dropSlack.controls := by
    rw [Path.controls_dropSlack]
    exact Path.dropSlack_rollout problem.dynamics problem.x0 (List.forall_mem_map.1 hzero)
  rw [← hrollout]
  constructor
  · exact congrArg Path.dropSlack
  · intro h
    apply Path.eq_of_states
    · rw [← Path.states_dropSlack, h, Path.states_dropSlack]
    · exact Path.controls_rollout _ _ _

theorem isMet_true {c : ℝ} : IsMet true c ↔ c = 0 := by simp [IsMet]

/-- The constraints with slacks hold where the constraints do and the slacks are zero. -/
theorem isMet_withSlack (x : Vec ℝ n) (v : Vec ℝ (m + n)) :
    (∀ i (h : i < p + n), IsMet (problem.withSlack weight).stageConstraints.isEquality[i]
        ((problem.withSlack weight).stageConstraints.value x v)[i]) ↔
      (∀ i (h : i < p), IsMet problem.stageConstraints.isEquality[i]
        (problem.stageConstraints.value x (Vec.left v))[i]) ∧ Vec.right v = Vec.zero n := by
  refine (Vec.forall_append (P := IsMet)).trans (and_congr_right fun _ => ?_)
  simp only [Vec.getElem_const, isMet_true]
  constructor
  · intro h
    ext i hi
    simpa [Vec.zero] using h i hi
  · intro h i hi
    simp [h, Vec.zero]

/-- A path is feasible with slacks if there are no slacks and it is feasible without them. -/
theorem isFeasible_withSlack : (problem.withSlack weight).IsFeasible path ↔
    (∀ w ∈ path.slackParts, w = Vec.zero n) ∧ problem.IsFeasible path.dropSlack := by
  constructor
  · intro h
    have hstages := fun k hk => (isMet_withSlack problem weight _ _).1 (h.stages k hk)
    have hzero : ∀ w ∈ path.slackParts, w = Vec.zero n := by
      simp only [Path.slackParts, Path.controls, List.forall_mem_map]
      exact fun k hk => (hstages k hk).2
    refine ⟨hzero, (rollout_withSlack problem weight hzero).1 h.rollout,
      path.length_knots_dropSlack.trans h.length_knots, ?_, h.terminal⟩
    simp only [Path.dropSlack, List.forall_mem_map]
    exact fun k hk => (hstages k hk).1
  · rintro ⟨hzero, h⟩
    have hstages := h.stages
    simp only [Path.dropSlack, List.forall_mem_map] at hstages
    refine ⟨(rollout_withSlack problem weight hzero).2 h.rollout,
      path.length_knots_dropSlack.symm.trans h.length_knots, fun k hk => ?_, h.terminal⟩
    simp only [Path.slackParts, Path.controls, List.forall_mem_map] at hzero
    exact (isMet_withSlack problem weight _ _).2 ⟨hstages k hk, hzero k hk⟩

/-- In exact arithmetic, slack controls only add to a problem: their squares to the cost, their
sizes to the violation, and the terms of their equalities to the Lagrangian. A path is feasible with
slacks exactly if all slacks are zero and it is feasible without them. -/
theorem withSlack_conservative (w : Multipliers ℝ (p + n) q) :
    let squares := (path.slackParts.map fun w => Vec.dot w w).sum
    (problem.withSlack weight).cost path = problem.cost path.dropSlack + weight / 2 * squares ∧
    Lagrangian.violation ⟨problem.withSlack weight, w⟩ path =
      max (Lagrangian.violation ⟨problem, w.dropSlack⟩ path.dropSlack)
        (Infeasible.largestSlack path.controls) ∧
    Lagrangian.cost ⟨problem.withSlack weight, w⟩ path =
      Lagrangian.cost ⟨problem, w.dropSlack⟩ path.dropSlack + weight / 2 * squares +
        (List.zipWith (fun s w => s.right.penalty (Vec.const n true) w) w.stages
          path.slackParts).sum ∧
    ((problem.withSlack weight).IsFeasible path ↔
      (∀ w ∈ path.slackParts, w = Vec.zero n) ∧ problem.IsFeasible path.dropSlack) :=
  ⟨cost_withSlack problem weight path, violation_withSlack problem weight path w w.dropSlack,
    lagrangianCost_withSlack problem weight path w, isFeasible_withSlack problem weight path⟩

end StageProblem

end TrajOpt
