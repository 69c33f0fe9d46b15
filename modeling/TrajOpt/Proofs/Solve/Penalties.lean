import TrajOpt.Proofs.Descent.LinearQuadratic
import TrajOpt.Proofs.Objective.Constraints
import TrajOpt.Proofs.Solve.Rounds

/-!
# Multipliers and penalties of the outer loop

All constraints start with the same penalty and all penalties grow together, so at every time there
is one penalty, and it is known from how often the violation fell too little. Multipliers of
inequalities do not become negative. Between two rounds there is one update, made with the values
and the penalties of the first of them, and the loop ends before or after an update.

## Main definitions

* `Outer.growths`, `Outer.penaltyAfter` - how often penalties grew, and what they are then.
* `Multipliers.IsSigned`, `Multipliers.HasPenalty`, `Multipliers.Updates` - what is known of the
  multipliers and penalties at one time and from one time to the next.
* `Outer.Develops` - how multipliers and penalties develop from workspace to workspace.

## Main statements

* `Outer.growths_concat`, `Outer.update_penaltyAfter` - one update of the penalties.
* `Outer.Develops.update` - one update of a workspace.
* `Outer.develops_of_solve` - the multipliers and penalties of a whole solve.
-/

namespace TrajOpt

variable {n m p q : Nat}

namespace PenaltyRule

/-- A penalty below the largest one grows as it would without a largest one, and is cut off
afterwards. -/
theorem update_min {rule : PenaltyRule ℝ} (hfactor : 1 ≤ rule.factor) (hlargest : 0 ≤ rule.largest)
    (current previous mu : ℝ) :
    rule.update current previous (min mu rule.largest) =
      min (if rule.fraction * previous < current then mu * rule.factor else mu)
        rule.largest := by
  simp only [update, grows, decide_eq_true_eq]
  split
  · have hcut : rule.largest ≤ rule.largest * rule.factor :=
      le_mul_of_one_le_right hlargest hfactor
    rw [Arith.minimum_eq_min, min_mul_of_nonneg _ _ (by linarith), min_assoc, min_eq_right hcut]
  · rfl

end PenaltyRule

/-- No multiplier of an inequality is negative. -/
def Vec.IsSigned (isEquality : Vec Bool p) (lam : Vec ℝ p) : Prop :=
  ∀ i, isEquality.get i = false → 0 ≤ lam.get i

theorem Vec.isSigned_zero (isEquality : Vec Bool p) : IsSigned isEquality (zero p) := by
  intro i _
  simp [zero, get_eq]

theorem Weights.isSigned_updateMultipliers (w : Weights ℝ p) (isEquality : Vec Bool p)
    (values : Vec ℝ p) : Vec.IsSigned isEquality (w.updateMultipliers isEquality values) := by
  intro i hi
  have hi : isEquality[i.val] = false := hi
  simp [updateMultipliers, Vec.get_eq, updatedMultiplier, Arith.maximum_eq_max, hi]

theorem Options.Accepted.penaltyInitial_pos {o : Options ℝ} (ho : o.Accepted) :
    0 < o.penaltyInitial :=
  not_le.1 (ho.positive ("penalty_initial", o.penaltyInitial) (by simp [Options.positives]))

namespace Multipliers

/-- No multiplier of an inequality is negative, on the knots and on the final state. -/
structure IsSigned (problem : StageProblem ℝ n m p q) (w : Multipliers ℝ p q) : Prop where
  stages : ∀ s ∈ w.stages, Vec.IsSigned problem.stageConstraints.isEquality s.lam
  terminal : Vec.IsSigned problem.terminalConstraints.isEquality w.terminal.lam

theorem isSigned_update (problem : StageProblem ℝ n m p q) (w : Multipliers ℝ p q)
    (values : ConstraintValues ℝ p q) (rule : PenaltyRule ℝ) (current previous : ℝ) :
    (w.update problem.stageConstraints.isEquality problem.terminalConstraints.isEquality values rule
      current previous).IsSigned problem := by
  constructor
  · intro s hs
    obtain ⟨k, hk, rfl⟩ := List.mem_iff_getElem.1 hs
    simp only [update, List.getElem_zipWith]
    exact Weights.isSigned_updateMultipliers _ _ _
  · exact Weights.isSigned_updateMultipliers _ _ _

/-- All penalties are `mu`. -/
structure HasPenalty (mu : ℝ) (w : Multipliers ℝ p q) : Prop where
  stages : ∀ s ∈ w.stages, s.mu = Vec.const p mu
  terminal : w.terminal.mu = Vec.const q mu

theorem HasPenalty.nonnegPenalties {mu : ℝ} {w : Multipliers ℝ p q} (h : w.HasPenalty mu)
    (hmu : 0 ≤ mu) : w.NonnegPenalties := by
  constructor
  · intro s hs i
    rwa [h.stages s hs, Vec.fn_const]
  · intro i
    rwa [h.terminal, Vec.fn_const]

/-- The multipliers of `w'` are those of `w` after an update with the given values. -/
structure Updates (problem : StageProblem ℝ n m p q) (w : Multipliers ℝ p q)
    (values : ConstraintValues ℝ p q) (w' : Multipliers ℝ p q) : Prop where
  stages : w'.stages.map Weights.lam = List.zipWith
    (fun s c => s.updateMultipliers problem.stageConstraints.isEquality c) w.stages values.stages
  terminal : w'.terminal.lam =
    w.terminal.updateMultipliers problem.terminalConstraints.isEquality values.terminal

end Multipliers

namespace Outer

variable {problem : StageProblem ℝ n m p q} {o : Options ℝ} {w w' : Workspace ℝ n m p q}
  {violation previous : ℝ}

theorem isSigned_update (previous : ℝ) (w : Workspace ℝ n m p q) :
    (update problem o previous w).multipliers.IsSigned problem :=
  w.multipliers.isSigned_update problem w.values (penaltyRule o) w.violation previous

theorem hasPenalty_update {mu : ℝ} (previous : ℝ) (hw : w.multipliers.HasPenalty mu) :
    (update problem o previous w).multipliers.HasPenalty
      ((penaltyRule o).update w.violation previous mu) := by
  constructor
  · intro s hs
    obtain ⟨k, hk, rfl⟩ := List.mem_iff_getElem.1 hs
    simp [update, Multipliers.update, hw.stages, Vec.const]
  · simp [update, Multipliers.update, hw.terminal, Vec.const]

theorem updates_update (previous : ℝ) (w : Workspace ℝ n m p q) :
    w.multipliers.Updates problem w.values (update problem o previous w).multipliers := by
  constructor
  · simp [update, Multipliers.update, List.map_zipWith]
  · rfl

/-- How often a violation exceeds the given fraction of the one before it, while it takes the given
values one after the other. -/
noncomputable def growths (fraction : ℝ) (violations : List ℝ) : Nat :=
  (violations.zip violations.tail).countP fun (previous, current) =>
    decide (fraction * previous < current)

theorem growths_concat (fraction : ℝ) {violations : List ℝ}
    (hlast : violations.getLast? = some previous) (current : ℝ) :
    growths fraction (violations ++ [current]) =
      growths fraction violations + if fraction * previous < current then 1 else 0 := by
  induction violations with
  | nil => cases hlast
  | cons a l ih =>
    cases l with
    | nil =>
      obtain rfl : a = previous := by simpa using hlast
      simp [growths, List.countP_cons]
    | cons b l =>
      have hl := ih (by simpa using hlast)
      simp only [growths, List.cons_append, List.tail_cons, List.zip_cons_cons,
        List.countP_cons] at hl ⊢
      omega

/-- The penalty of all constraints after the violation took the given values: it grew by its factor
as often as a violation exceeded `decreaseFraction` times the one before it, up to its largest
value. -/
noncomputable def penaltyAfter (o : Options ℝ) (violations : List ℝ) : ℝ :=
  min (o.penaltyInitial * o.penaltyFactor ^ growths o.decreaseFraction violations) o.penaltyMax

theorem penaltyAfter_nonneg (ho : o.Accepted) (violations : List ℝ) :
    0 ≤ penaltyAfter o violations := by
  have hinitial := ho.penaltyInitial_pos
  have hfactor : 1 < o.penaltyFactor := not_le.1 ho.penaltyFactor
  have hmax : o.penaltyInitial ≤ o.penaltyMax := not_lt.1 ho.penaltyMax
  exact le_min (by positivity) (by linarith)

theorem penaltyAfter_singleton (ho : o.Accepted) (violation : ℝ) :
    penaltyAfter o [violation] = o.penaltyInitial := by
  have hmax : o.penaltyInitial ≤ o.penaltyMax := not_lt.1 ho.penaltyMax
  simpa [penaltyAfter, growths] using hmax

/-- Penalties that grow as the rule says are known from how often they grew. -/
theorem update_penaltyAfter (ho : o.Accepted) {violations : List ℝ}
    (hlast : violations.getLast? = some previous) (current : ℝ) :
    (penaltyRule o).update current previous (penaltyAfter o violations) =
      penaltyAfter o (violations ++ [current]) := by
  have hfactor : 1 ≤ (penaltyRule o).factor := (not_le.1 ho.penaltyFactor).le
  have hmax : 0 ≤ (penaltyRule o).largest := ho.penaltyInitial_pos.le.trans (not_lt.1 ho.penaltyMax)
  rw [penaltyAfter, penaltyAfter, growths_concat _ hlast]
  refine (PenaltyRule.update_min hfactor hmax current previous _).trans ?_
  by_cases hgrows : o.decreaseFraction * previous < current
  · simp [penaltyRule, hgrows, pow_succ, mul_assoc]
  · simp [penaltyRule, hgrows]

/-- How multipliers and penalties develop from workspace to workspace, where `violation` is the one
before the first of them: inequalities have no negative multiplier, the penalty is known from the
violations before, and there is an update between two workspaces. -/
structure Develops (problem : StageProblem ℝ n m p q) (o : Options ℝ) (violation : ℝ)
    (ws : List (Workspace ℝ n m p q)) : Prop where
  signed : ∀ w ∈ ws, w.multipliers.IsSigned problem
  penalty : ∀ before w, before ++ [w] <+: ws →
    w.multipliers.HasPenalty (penaltyAfter o (violation :: before.map Workspace.violation))
  updates : ws.IsChain fun w w' => w.multipliers.Updates problem w.values w'.multipliers

/-- A list and one entry more begin a list and one entry more where the entries are the last ones,
or both begin the other list. -/
theorem concat_prefix_concat_iff {β : Type} {as bs : List β} {a b : β} :
    as ++ [a] <+: bs ++ [b] ↔ (as = bs ∧ a = b) ∨ as ++ [a] <+: bs := by
  simp [List.prefix_concat_iff]

namespace Develops

variable {ws : List (Workspace ℝ n m p q)}

theorem singleton (ho : o.Accepted) (hsigned : w.multipliers.IsSigned problem)
    (hpenalty : w.multipliers.HasPenalty o.penaltyInitial) : Develops problem o violation [w] := by
  refine ⟨by simpa using hsigned, fun before v hv => ?_, List.isChain_singleton w⟩
  have hv : before ++ [v] <+: [] ++ [w] := hv
  obtain ⟨rfl, rfl⟩ | hv := concat_prefix_concat_iff.1 hv
  · rwa [List.map_nil, penaltyAfter_singleton ho]
  · simp at hv

/-- What is said of the last workspace is said of its multipliers. -/
theorem congr_last (h : Develops problem o violation (ws ++ [w]))
    (hw : w'.multipliers = w.multipliers) : Develops problem o violation (ws ++ [w']) := by
  refine ⟨fun v hv => ?_, fun before v hv => ?_, ?_⟩
  · obtain hv | hv := List.mem_append.1 hv
    · exact h.signed v (List.mem_append_left _ hv)
    · obtain rfl := List.mem_singleton.1 hv
      rw [hw]
      exact h.signed w (by simp)
  · obtain ⟨rfl, rfl⟩ | hv := concat_prefix_concat_iff.1 hv
    · rw [hw]
      exact h.penalty before w List.prefix_rfl
    · exact h.penalty before v (hv.trans (List.prefix_append _ _))
  · obtain ⟨hws, -, hlast⟩ := List.isChain_append.1 h.updates
    refine List.isChain_append.2 ⟨hws, List.isChain_singleton w', fun v hv v' hv' => ?_⟩
    obtain rfl : w' = v' := by simpa using hv'
    rw [hw]
    exact hlast v hv w rfl

/-- There may be one update more. -/
theorem update (ho : o.Accepted) (h : Develops problem o violation (ws ++ [w]))
    (hprevious : (violation :: ws.map Workspace.violation).getLast? = some previous) :
    Develops problem o violation (ws ++ [w] ++ [Outer.update problem o previous w]) := by
  refine ⟨fun v hv => ?_, fun before v hv => ?_, ?_⟩
  · obtain hv | hv := List.mem_append.1 hv
    · exact h.signed v hv
    · obtain rfl := List.mem_singleton.1 hv
      exact isSigned_update previous w
  · obtain ⟨rfl, rfl⟩ | hv := concat_prefix_concat_iff.1 hv
    · rw [List.map_append, ← List.cons_append, List.map_singleton,
        ← update_penaltyAfter ho hprevious w.violation]
      exact hasPenalty_update previous (h.penalty ws w List.prefix_rfl)
    · exact h.penalty before v hv
  · refine List.isChain_append.2 ⟨h.updates, List.isChain_singleton _, fun v hv v' hv' => ?_⟩
    obtain rfl : w = v := by simpa using hv
    obtain rfl : Outer.update problem o previous w = v' := by simpa using hv'
    exact updates_update previous w

end Develops

/-- The workspace that a solve starts from develops from the initial penalty. -/
theorem develops_start (ho : o.Accepted) {us : List (Vec ℝ m)} {lam : Option (List (Vec ℝ p))}
    {lamN : Option (Vec ℝ q)}
    (hlam : ∀ l ∈ lam, ∀ v ∈ l, Vec.IsSigned problem.stageConstraints.isEquality v)
    (hlamN : ∀ v ∈ lamN, Vec.IsSigned problem.terminalConstraints.isEquality v) :
    Develops problem o violation [.start problem us o.penaltyInitial lam lamN] := by
  apply Develops.singleton ho
  · constructor
    · intro s hs
      obtain ⟨v, hv, rfl⟩ := List.mem_map.1 hs
      cases lam with
      | none =>
        obtain ⟨_, -, rfl⟩ := List.mem_map.1 hv
        exact Vec.isSigned_zero _
      | some l => exact hlam l rfl v hv
    · cases lamN with
      | none => exact Vec.isSigned_zero _
      | some v => exact hlamN v rfl
  · constructor
    · intro s hs
      obtain ⟨v, -, rfl⟩ := List.mem_map.1 hs
      rfl
    · rfl

/-- The violation that the rounds lead to, from the given one before them. -/
def violationAfter (violation : ℝ) (xs : List (Round ℝ n m p q)) : ℝ :=
  (xs.map fun x => x.workspace.violation).getLastD violation

/-- What is known of an iterate after the given rounds, all of which ended with an update. -/
structure Iterate.IsAfter (problem : StageProblem ℝ n m p q) (o : Options ℝ) (violation : ℝ)
    (xs : List (Round ℝ n m p q)) (s : Iterate ℝ n m p q) : Prop where
  develops : Develops problem o violation (xs.map Round.workspace ++ [s.workspace])
  previous : s.previous = violationAfter violation xs
  workspace : ∀ before x, xs = before ++ [x] →
    s.workspace = update problem o (violationAfter violation before) x.workspace

/-- The next round works with what is known, and so does the update after it. -/
theorem Iterate.IsAfter.next (ho : o.Accepted) {xs : List (Round ℝ n m p q)}
    {s : Iterate ℝ n m p q} (hs : s.IsAfter problem o violation xs) {x : Round ℝ n m p q}
    (hround : round problem o s.workspace = .ok x) (history : History (Snapshot ℝ)) :
    Develops problem o violation ((xs ++ [x]).map Round.workspace) ∧
      (x.ends o = false →
        (s.next problem o x history).IsAfter problem o violation (xs ++ [x])) := by
  have hx : Develops problem o violation ((xs ++ [x]).map Round.workspace) := by
    rw [List.map_append]
    exact hs.develops.congr_last (multipliers_of_round hround)
  refine ⟨hx, fun hends => ⟨?_, ?_, fun before y hy => ?_⟩⟩
  · have hprevious : (violation :: (xs.map Round.workspace).map Workspace.violation).getLast? =
        some s.previous := by
      rw [hs.previous, violationAfter, List.getLast?_cons, List.getLastD_eq_getLast?, List.map_map]
      rfl
    rw [List.map_append] at hx ⊢
    simpa [Iterate.next, hends] using hx.update ho hprevious
  · simp [Iterate.next, violationAfter]
  · obtain ⟨rfl, rfl⟩ : xs = before ∧ x = y := by simpa using List.append_inj' hy rfl
    simp [Iterate.next, hends, hs.previous]

/-- In exact arithmetic, a solve that starts without negative multipliers of inequalities never
comes to have one. All penalties are the same, and are known from how often the violation fell too
little. Between two rounds there is one update of the multipliers, and the final workspace is that
of the last round if the problem is solved, and one update further otherwise. -/
theorem develops_of_solve (ho : o.Accepted) {us : List (Vec ℝ m)} {lam : Option (List (Vec ℝ p))}
    {lamN : Option (Vec ℝ q)}
    (hlam : ∀ l ∈ lam, ∀ v ∈ l, Vec.IsSigned problem.stageConstraints.isEquality v)
    (hlamN : ∀ v ∈ lamN, Vec.IsSigned problem.terminalConstraints.isEquality v)
    {history : History (Snapshot ℝ)} {stage : Stage} {r : Result ℝ n m p q}
    (h : (solve problem o (.start problem us o.penaltyInitial lam lamN) history stage).outcome =
      .ok r) :
    let start := Workspace.start problem us o.penaltyInitial lam lamN
    let xs := solveRounds problem o start
    r.history = history.extend stage (xs.map Round.snapshot) ∧ r.iterations = xs.length ∧
    (∃ before x, xs = before ++ [x] ∧ r.workspace =
      if r.status = .solved then x.workspace
      else update problem o (violationAfter start.violation before) x.workspace) ∧
    Develops problem o start.violation
      (xs.map Round.workspace ++ if r.status = .solved then [] else [r.workspace]) := by
  intro start xs
  obtain ⟨before, x, hxs⟩ : ∃ before x, xs = before ++ [x] := by
    have hne := solveRounds_ne_nil (ho.budgetNat_pos .outer) h
    exact ⟨xs.dropLast, xs.getLast hne, (List.dropLast_append_getLast hne).symm⟩
  obtain ⟨t, ⟨hdevelops, hfinal⟩, hr, hcount⟩ := solve_induction
    (fun xs s => s.IsAfter problem o start.violation xs)
    (fun xs t status =>
      Develops problem o start.violation
        (xs.map Round.workspace ++ if status = .solved then [] else [t.workspace]) ∧
      ∀ before x, xs = before ++ [x] → t.workspace =
        if status = .solved then x.workspace
        else update problem o (violationAfter start.violation before) x.workspace)
    (fun xs s x history' hs hround _ hends => (hs.next ho hround history').2 hends)
    (fun xs s x history' hs hround _ hends => by
      refine ⟨by simpa using (hs.next ho hround history').1, fun before y hy => ?_⟩
      obtain ⟨rfl, rfl⟩ : xs = before ∧ x = y := by simpa using List.append_inj' hy rfl
      exact if_pos hends)
    (fun xs s hs => ⟨hs.develops, hs.workspace⟩) h
    ⟨develops_start ho hlam hlamN, rfl, by simp⟩
  have hworkspace : r.workspace = t.workspace := by rw [hr]; rfl
  refine ⟨history_of_solve h, hcount, ⟨before, x, hxs, ?_⟩, ?_⟩
  · rw [hworkspace]
    exact hfinal before x hxs
  · rw [hworkspace]
    exact hdevelops

section Unmet

/-- The integrator at the origin, with an inequality and an equality that nothing meets. -/
noncomputable def unmetProblem : StageProblem ℝ 1 1 1 1 where
  x0 := Vec.zero 1
  intervals := 1
  dt := 1
  dynamics := integratorProblem.dynamics
  stageCost := integratorProblem.stageCost
  terminalCost := integratorProblem.terminalCost
  stageConstraints :=
    ⟨fun _ _ => Vec.const 1 1, fun _ _ => (Mat.zero 1 1, Mat.zero 1 1), Vec.const 1 false⟩
  terminalConstraints := ⟨fun _ => Vec.const 1 1, fun _ => Mat.zero 1 1, Vec.const 1 true⟩

theorem isConvex_unmetProblem : unmetProblem.IsConvex := by
  have hcost : unmetProblem.HasCost integratorCost := ⟨rfl, rfl⟩
  exact hcost.isConvex posSemidef_Q_integrator posDef_R_integrator posSemidef_Qf_integrator
    zero_lt_one

/-- A control of zero keeps the integrator at the origin, and no gain asks for another one. -/
theorem gains_unmet {w : Multipliers ℝ 1 1} {sweep : Riccati.Sweep ℝ 1 1}
    (h : Riccati.backwardPass
      (Lagrangian.expand ⟨unmetProblem, w⟩ (unmetProblem.rollout [Vec.zero 1])) 0 = some sweep) :
    ∀ g ∈ sweep.gains, g.d = Vec.zero 1 := by
  obtain ⟨stages, terminal⟩ := w
  cases stages with
  | nil =>
    cases h
    simp [Riccati.start]
  | cons v stages =>
    set l : Lagrangian ℝ 1 1 1 1 := ⟨unmetProblem, ⟨v :: stages, terminal⟩⟩
    set path := unmetProblem.rollout [Vec.zero 1]
    have hstage : Riccati.stage 0 (l.expandKnot ⟨Vec.zero 1, Vec.zero 1⟩ v)
        (Riccati.start (l.expand path)) = some sweep := h
    have hsymm : ∀ a : Mat ℝ 1 1, a.matrix.IsSymm := by
      intro a
      ext i j
      rw [Matrix.transpose_apply, Subsingleton.elim i j]
    have hlu : (l.expandKnot ⟨Vec.zero 1, Vec.zero 1⟩ v).lu = Vec.zero 1 := by
      apply Vec.fn_injective
      simp [l, Lagrangian.expandKnot, Lagrangian.addStageTerms, StageProblem.expandKnot,
        unmetProblem, integratorProblem, QuadraticCost.stageTerms, Mat.fn_halfFormGradient]
    have hVx : (l.expand path).Vx = Vec.zero 1 := by
      apply Vec.fn_injective
      simp [l, path, Lagrangian.expand, StageProblem.rollout, Path.rollout, Path.cons,
        unmetProblem, integratorProblem, QuadraticCost.terminalGradient, Mat.fn_halfFormGradient,
        Dynamics.affine, integratorCost]
    obtain ⟨g, hgains, hg⟩ := Riccati.gain_of_stationary (hsymm _) (hsymm _) hlu hVx hstage
    simpa [hgains, Riccati.start] using hg

/-- No inner solve leaves the origin, and no round ends the loop. -/
theorem exists_round_unmet {w : Workspace ℝ 1 1 1 1}
    (hpath : w.path = unmetProblem.rollout [Vec.zero 1]) (hw : w.multipliers.NonnegPenalties) :
    ∃ x, round unmetProblem .standard w = .ok x ∧ x.workspace.path = w.path ∧
      x.ends .standard = false := by
  set aim := Lagrangian.aim ⟨unmetProblem, w.multipliers⟩
  set s := Descent.start .standard aim w.path
  have hweight : s.reg.weight = 0 := by
    have hinitial : (Options.standard : Options ℝ).regInitial = 0 := by norm_num [Options.standard]
    exact hinitial
  have hpasses := StageProblem.passesSucceed_of_isConvex isConvex_unmetProblem
  obtain ⟨⟨sweep, hsweep⟩, -⟩ := hpasses.pass w.multipliers hw w.path 0 le_rfl
  have hmove : Descent.move .standard aim s = .ok (s.reg, .stationary sweep.gains) := by
    have hpass : Riccati.backwardPass (aim.expand s.path) s.reg.weight = some sweep := by
      rw [hweight]
      exact hsweep
    rw [hpath] at hsweep
    rw [Descent.move_of_pass hpass, Descent.gradient_of_zeros (gains_unmet hsweep)]
    exact if_pos (not_le.1 Descent.accepted_standard.not_gradientTolerance_le)
  have hinner := Descent.outcome_loop_stationary hmove 499 0
  refine ⟨_, round_eq_ok.2 ⟨_, hinner, rfl⟩, rfl, ?_⟩
  simp only [Round.ends, meets, Bool.and_eq_false_iff, decide_eq_false_iff_not]
  refine .inl fun hlt => ?_
  obtain ⟨-, -, hterminal⟩ := ConstraintValues.violation_lt.1 hlt
  have habs : |(1 : ℝ)| < 1e-3 := violationOf_true_lt.1 (hterminal 0 one_pos)
  norm_num at habs

/-- A solve that has room for its rounds uses up its budget. -/
theorem outcome_loop_unmet {violation : ℝ} (stage : Stage) (xs : List (Round ℝ 1 1 1 1))
    (left done : Nat) {s : Iterate ℝ 1 1 1 1} (hs : s.IsAfter unmetProblem .standard violation xs)
    (hpath : s.workspace.path = unmetProblem.rollout [Vec.zero 1])
    (hkeeps : s.history.keepsAll = true)
    (hroom : s.history.entries.length + left ≤ s.history.capacity) :
    ∃ r, (loop unmetProblem .standard stage left done s).outcome = .ok r ∧
      r.status = .maxIterations ∧ r.iterations = done + left := by
  induction left generalizing done s xs with
  | zero => exact ⟨_, rfl, rfl, rfl⟩
  | succ left ih =>
    obtain ⟨x, hround, hx, hends⟩ := exists_round_unmet hpath
      ((hs.develops.penalty _ s.workspace List.prefix_rfl).nonnegPenalties
        (penaltyAfter_nonneg Descent.accepted_standard _))
    have happend : (s.history.append stage x.snapshot : Except (Error ℝ) _) =
        .ok { s.history with entries := s.history.entries ++ [(stage, x.snapshot)] } := by
      simp [History.append, hkeeps]
      omega
    obtain ⟨-, hnext⟩ := hs.next Descent.accepted_standard hround
      { s.history with entries := s.history.entries ++ [(stage, x.snapshot)] }
    rw [outcome_loop, hround, ok_bind, happend, ok_bind, hends]
    rw [← Nat.succ_add_eq_add_succ done left]
    refine ih _ (done + 1) (hnext hends) ?_ hkeeps ?_
    · simp [Iterate.next, hends, update, hx, hpath]
    · simp [Iterate.next]
      omega

/-- The violation is the same along every path. -/
theorem violation_unmet (path : Path ℝ 1 1) (w : Multipliers ℝ 1 1) (gains : List (Gain ℝ 1 1)) :
    (Workspace.ofPath unmetProblem path w gains).violation = 1 := by
  have hstages : ∀ v ∈ (unmetProblem.evaluateConstraints path).stages, v = Vec.const 1 1 := by
    intro v hv
    obtain ⟨k, -, rfl⟩ := List.mem_map.1 hv
    rfl
  refine le_antisymm ((ConstraintValues.violation_iff (Arith.isLower_le 1)).2
    ⟨zero_le_one, fun v hv i hi => ?_, fun i hi => ?_⟩) (not_lt.1 fun hlt => ?_)
  · have hentry : (Vec.const 1 (1 : ℝ))[i] = 1 := by simp [Vec.const]
    have hkind : unmetProblem.stageConstraints.isEquality[i] = false := by
      simp [unmetProblem, Vec.const]
    rw [hstages v hv, hentry, hkind]
    exact violationOf_false_le.2 ⟨le_rfl, zero_le_one⟩
  · have hi : i = 0 := by omega
    subst hi
    exact abs_one.le
  · obtain ⟨-, -, hterminal⟩ := ConstraintValues.violation_lt.1 hlt
    have habs : |(1 : ℝ)| < 1 := violationOf_true_lt.1 (hterminal 0 one_pos)
    norm_num at habs

/-- A violation that stays the same exceeds the fraction of the one before it every time. -/
theorem growths_replicate {fraction v : ℝ} (h : fraction * v < v) (k : Nat) :
    growths fraction (List.replicate (k + 1) v) = k := by
  induction k with
  | zero => simp [growths]
  | succ k ih =>
    have hlast : (List.replicate (k + 1) v).getLast? = some v := by
      rw [List.getLast?_replicate, if_neg k.succ_ne_zero]
    rw [List.replicate_succ', growths_concat fraction hlast, ih, if_pos h]

theorem penaltyAfter_replicate (k : Nat) :
    penaltyAfter .standard (List.replicate (k + 1) 1) = min (10 ^ k) 1e8 := by
  have hgrowths : growths (Options.standard : Options ℝ).decreaseFraction
      (List.replicate (k + 1) 1) = k := growths_replicate (by norm_num [Options.standard]) k
  rw [penaltyAfter, hgrowths]
  norm_num [Options.standard]

/-- A solve that never meets its constraints goes through its whole budget. Its penalty is ten times
larger in each round than in the one before it, and it ends at its largest value. -/
theorem develops_of_unmet :
    let start := Workspace.start unmetProblem [Vec.zero 1] Options.standard.penaltyInitial none none
    ∃ r, (solve unmetProblem .standard start (.empty 50 true) .feasible).outcome = .ok r ∧
      r.status = .maxIterations ∧ r.iterations = 50 ∧
      r.history.entries =
        (solveRounds unmetProblem .standard start).map (fun x => (.feasible, x.snapshot)) ∧
      Develops unmetProblem .standard start.violation
        ((solveRounds unmetProblem .standard start).map Round.workspace ++ [r.workspace]) ∧
      (∀ before x, before ++ [x] <+: solveRounds unmetProblem .standard start →
        x.workspace.multipliers.HasPenalty (min (10 ^ before.length) 1e8)) ∧
      r.workspace.multipliers.HasPenalty 1e8 := by
  intro start
  have hlam : ∀ l ∈ (none : Option (List (Vec ℝ 1))), ∀ v ∈ l,
      Vec.IsSigned unmetProblem.stageConstraints.isEquality v := nofun
  have hlamN : ∀ v ∈ (none : Option (Vec ℝ 1)),
      Vec.IsSigned unmetProblem.terminalConstraints.isEquality v := nofun
  obtain ⟨r, hr, hstatus, hcount⟩ := outcome_loop_unmet .feasible [] 50 0
    (s := ⟨start, start.violation, 0, none, .empty 50 true⟩)
    ⟨develops_start Descent.accepted_standard hlam hlamN, rfl, by simp⟩ rfl rfl le_rfl
  have hsolve : (solve unmetProblem .standard start (.empty 50 true) .feasible).outcome = .ok r :=
    hr
  obtain ⟨hhistory, hrounds, -, hdevelops⟩ :=
    develops_of_solve Descent.accepted_standard hlam hlamN hsolve
  set xs := solveRounds unmetProblem .standard start with hxs
  have hdevelops : Develops unmetProblem .standard start.violation
      (xs.map Round.workspace ++ [r.workspace]) := by
    simpa [hstatus] using hdevelops
  have hpenalty : ∀ before v, before <+: xs →
      before.map Round.workspace ++ [v] <+: xs.map Round.workspace ++ [r.workspace] →
      v.multipliers.HasPenalty (min (10 ^ before.length) 1e8) := by
    intro before v hbefore hv
    have hviolations : start.violation ::
        (before.map Round.workspace).map Workspace.violation =
        List.replicate (before.length + 1) 1 := by
      refine List.eq_replicate_iff.2 ⟨by simp, ?_⟩
      rintro a (- | ⟨-, ha⟩)
      · exact violation_unmet _ _ _
      · rw [List.map_map] at ha
        obtain ⟨x, hx, rfl⟩ := List.mem_map.1 ha
        obtain ⟨u, hu⟩ := exists_of_mem_rounds (hbefore.subset hx)
        obtain ⟨inner, -, rfl⟩ := round_eq_ok.1 hu
        exact violation_unmet _ _ _
    rw [← penaltyAfter_replicate, ← hviolations]
    exact hdevelops.penalty _ v hv
  refine ⟨r, hsolve, hstatus, hcount, ?_, hdevelops, fun before x hx => ?_, ?_⟩
  · rw [hhistory, History.entries_extend rfl, List.map_map]
    rfl
  · refine hpenalty before x.workspace ((List.prefix_append _ _).trans hx) ?_
    have hmap : before.map Round.workspace ++ [x.workspace] <+: xs.map Round.workspace := by
      simpa using hx.map Round.workspace
    exact hmap.trans (List.prefix_append _ _)
  · have hlargest : min ((10 : ℝ) ^ xs.length) 1e8 = 1e8 := by
      rw [← hrounds, hcount]
      norm_num
    rw [← hlargest]
    exact hpenalty xs r.workspace List.prefix_rfl List.prefix_rfl

end Unmet

end Outer

end TrajOpt
