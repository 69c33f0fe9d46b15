import Mathlib
import TrajOpt.Proofs.Objective.Building
import TrajOpt.Proofs.Objective.Constraints
import TrajOpt.Proofs.Scalar.Extended
import TrajOpt.Proofs.Scalar.Real

/-!
# The encoding of constraints is exact

A constraint set takes bounds apart: infinite ones are left out, the others become rows with the
bound on one side, in one vector for the knots and in another for the final state. The largest
violation of all rows along a path is at most a tolerance exactly if the path keeps what was given,
up to the tolerance. Bounds are compared as they were given, infinite ones included, so arithmetic
has to be exact and to have infinities.

## Main definitions

* `BoundInput.given?` - the bound that is given for an entry of a vector.
* `BoundInput.Encloses` - a vector is within the bounds that are given, up to a tolerance.
* `ConstraintDraft.Holds` - a path keeps all constraints that are given, up to a tolerance.

## Main statements

* `BoundInput.get_of_resolve` - what becomes of the bound of an entry.
* `BoundInput.Resolves.encloses_iff` - bounds as rows.
* `ConstraintDraft.violation_le_iff` - all constraints as one violation.
-/

namespace TrajOpt

open Arith

variable {α ν : Type} {n m k : Nat}

namespace BoundInput

/-- The bound that is given for entry `i`, if there is one. A single number counts for all
entries. -/
def given? (bound : Option (BoundInput α)) (i : Fin k) : Option α :=
  match bound with
  | none => none
  | some (.kept bounds) => bounds[i.val]?.join
  | some (.array t) => t.toNumber?.or ((t.toVec? k).map (Vector.get · i))

section Resolve

variable {what : String} {limit : α → Limit α} {bound : Option (BoundInput α)} {v : Vec (Limit α) k}

/-- The bound of an entry is free if none is given, and otherwise the limit of what is given; a
bound that was kept is a limit already. -/
theorem get_of_resolve (h : (resolve what k limit bound : Except (Error ν) _) = .ok v) (i : Fin k) :
    given? bound i = none ∧ v.get i = .free ∨
      ∃ a, given? bound i = some a ∧ (v.get i = .at a ∨ v.get i = limit a) := by
  cases bound with
  | none =>
    cases h
    exact .inl ⟨rfl, by simp [Vec.get_eq]⟩
  | some bound =>
    cases bound with
    | kept bounds =>
      have hentry : bounds[i.val]? = some (v.get i).toOption := by
        rw [← toList_of_kept h]
        simp [Vec.get_eq]
      have hlimit : v.get i = Limit.ofOption (v.get i).toOption := by
        have hget := congrArg (·[i.val]?) (resolve_kept.1 h)
        simpa [Vec.get_eq, hentry] using hget
      have hgiven : given? (some (.kept bounds)) i = (v.get i).toOption := by
        simp [given?, hentry]
      rw [hgiven]
      cases hoption : (v.get i).toOption with
      | none => exact .inl ⟨rfl, by rw [hlimit, hoption]; rfl⟩
      | some a => exact .inr ⟨a, rfl, .inl (by rw [hlimit, hoption]; rfl)⟩
    | array t =>
      right
      unfold resolve at h
      dsimp only at h
      split at h
      next a ht =>
        cases h
        exact ⟨a, by simp [given?, ht], .inr (by simp [Vec.get_eq])⟩
      next w ht hnumber =>
        cases h
        have hnone : t.toNumber? = none := Option.eq_none_iff_forall_ne_some.2 hnumber
        exact ⟨w.get i, by simp [given?, ht, hnone], .inr (by simp [Vec.get_eq])⟩
      next => cases h

/-- What is asked of every bound that is given is asked of the restricting ones alone, if the free
ones have it anyway and there is none that no number satisfies. -/
theorem forall_given?_iff {within : α → Prop}
    (hlimit : ∀ a, limit a = .at a ∨ limit a = .impossible ∨ limit a = .free ∧ within a)
    (h : (resolve what k limit bound : Except (Error ν) _) = .ok v) {i : Fin k}
    (hpossible : v.get i ≠ .impossible) :
    (∀ b, given? bound i = some b → within b) ↔
      ∀ b, (v.map Limit.toOption).get i = some b → within b := by
  have hget : (v.map Limit.toOption).get i = (v.get i).toOption := by simp [Vec.get_eq]
  rw [hget]
  obtain ⟨hentry, hfree⟩ | ⟨a, hentry, hat | hat⟩ := get_of_resolve h i
  · simp [hentry, hfree, Limit.toOption]
  · simp [hentry, hat, Limit.toOption]
  · obtain hlimit | himpossible | ⟨hlimit, hwithin⟩ := hlimit a
    · simp [hentry, hat, hlimit, Limit.toOption]
    · exact absurd (hat.trans himpossible) hpossible
    · simpa [hentry, hat, hlimit, Limit.toOption] using hwithin

end Resolve

variable [Scalar α]

theorem ne_impossible_of_isAbove {u l : Limit α} (h : u.isAbove l = true) :
    u ≠ .impossible ∧ l ≠ .impossible := by
  cases u <;> cases l <;> simp_all [Limit.isAbove]

section Encloses

variable [LawfulScalar α] {lower upper : Option (BoundInput α)} {eps : α} {v : Vec α k}

open LawfulScalar

/-- An upper bound that does not restrict is above every number. -/
theorem upper_cases (heps : Scalar.isFinite eps = true) {x : α} (hx : isNumber x = true) (a : α) :
    Limit.upper a = .at a ∨ Limit.upper a = .impossible ∨
      Limit.upper a = .free ∧ LeAdd x a eps := by
  unfold Limit.upper
  split
  · exact .inl rfl
  next hinfinite =>
    split
    next hpos =>
      obtain ⟨-, hnumber, hvalue⟩ := lt_iff.1 hpos
      rw [value_zero] at hvalue
      have htop : value a = ⊤ := by
        by_contra hne
        exact hinfinite (isFinite_iff.2 ⟨hnumber, (bot_le.trans_lt hvalue).ne', hne⟩)
      refine .inr (.inr ⟨rfl, hx, hnumber, ?_⟩)
      rw [htop, EReal.top_add_of_ne_bot (isFinite_iff.1 heps).2.1]
      exact le_top
    next => exact .inr (.inl rfl)

theorem lower_cases (eps : α) {x : α} (hx : isNumber x = true) (a : α) :
    Limit.lower a = .at a ∨ Limit.lower a = .impossible ∨
      Limit.lower a = .free ∧ LeAdd a x eps := by
  unfold Limit.lower
  split
  · exact .inl rfl
  next hinfinite =>
    split
    next hneg =>
      obtain ⟨hnumber, -, hvalue⟩ := lt_iff.1 hneg
      rw [value_zero] at hvalue
      have hbot : value a = ⊥ := by
        by_contra hne
        exact hinfinite (isFinite_iff.2 ⟨hnumber, hne, (hvalue.trans_le le_top).ne⟩)
      refine .inr (.inr ⟨rfl, hnumber, hx, ?_⟩)
      rw [hbot]
      exact bot_le
    next => exact .inr (.inl rfl)

/-- A vector is within the bounds that are given, up to `eps`, which is added without rounding. -/
structure Encloses (lower upper : Option (BoundInput α)) (eps : α) (v : Vec α k) : Prop where
  above (i : Fin k) (b : α) : given? upper i = some b → LeAdd (v.get i) b eps
  below (i : Fin k) (b : α) : given? lower i = some b → LeAdd b (v.get i) eps

end Encloses

variable [ExactScalar α] {lower upper : Option (BoundInput α)} {eps : α} {v : Vec α k}

/-- The bounds that are left are kept if all bounds are that were given. -/
theorem Resolves.encloses_iff {lowerName upperName : String} {min max : Vec (Option α) k}
    (h : Resolves ν lowerName upperName lower upper min max)
    (hv : ∀ i, Scalar.isFinite (v.get i) = true) (heps : Scalar.isFinite eps = true) :
    Encloses lower upper eps v ↔
      (∀ i b, max.get i = some b → v.get i - b ≤ eps) ∧
      ∀ i b, min.get i = some b → b - v.get i ≤ eps := by
  obtain ⟨l, u, hl, hu, hcrossed, rfl, rfl⟩ := h
  have hpossible := fun i => ne_impossible_of_isAbove (crossed_eq_nil.1 hcrossed i)
  have hnumber := fun i => isNumber_of_isFinite (hv i)
  have habove := fun i => forall_given?_iff (upper_cases heps (hnumber i)) hu (hpossible i).1
  have hbelow := fun i => forall_given?_iff (lower_cases eps (hnumber i)) hl (hpossible i).2
  simp only [sub_le_iff (.inl (hv _)) heps, sub_le_iff (.inr (hv _)) heps, ← habove, ← hbelow]
  exact ⟨fun h => ⟨h.above, h.below⟩, fun h => ⟨h.1, h.2⟩⟩

end BoundInput

namespace ConstraintDraft

open ConstraintSet

section Holds

variable [Scalar α] [LawfulScalar α]

/-- A path keeps all constraints that are given, up to `eps`: every control and every state is
within its bounds, and so are the final state and the values of the functions. -/
structure Holds (d : ConstraintDraft α) (cs : ConstraintSet α n m) (eps : α) (path : Path α n m) :
    Prop where
  controls : ∀ u ∈ path.controls, BoundInput.Encloses d.uMin d.uMax eps u
  states : ∀ x ∈ path.states, BoundInput.Encloses d.xMin d.xMax eps x
  inequality : ∀ k ∈ path.knots, ∀ a ∈ valuesOf cs.cI (stageArgs k.state k.control), a ≤ eps
  equality : ∀ k ∈ path.knots, ∀ a ∈ valuesOf cs.cE (stageArgs k.state k.control),
    Scalar.abs a ≤ eps
  inequalityN : ∀ a ∈ valuesOf cs.cIN (terminalArgs path.final), a ≤ eps
  equalityN : ∀ a ∈ valuesOf cs.cEN (terminalArgs path.final), Scalar.abs a ≤ eps
  goal : d.useTerminal = true → ∀ i,
    LeAdd (path.final.get i) (cs.goal.get i) eps ∧ LeAdd (cs.goal.get i) (path.final.get i) eps

end Holds

variable [Scalar α] [ExactScalar α] {d : ConstraintDraft α} {cs : ConstraintSet α n m} {eps : α}

theorem Describes.stateRows_le_iff (h : d.Describes ν cs) (heps : Scalar.isFinite eps = true)
    (hnonneg : 0 ≤ eps) {x : Vec α n} (hx : ∀ i, Scalar.isFinite (x.get i) = true) {u : Vec α k}
    {vI vE : Array α} :
    (∀ row ∈ cs.stateRows, violationOf row.isEquality (row.value x u vI vE) ≤ eps) ↔
      BoundInput.Encloses d.xMin d.xMax eps x := by
  simp only [forall_stateRows, ConstraintRow.isEquality, ConstraintRow.value,
    violationOf_false_le, hnonneg, and_true, h.x.encloses_iff hx heps]

/-- The constraint vector of a knot. -/
theorem Describes.stage_le_iff (h : d.Describes ν cs) (heps : Scalar.isFinite eps = true)
    (hnonneg : 0 ≤ eps) {x : Vec α n} (hx : ∀ i, Scalar.isFinite (x.get i) = true) {u : Vec α m}
    (hu : ∀ i, Scalar.isFinite (u.get i) = true) :
    (∀ i (hi : i < cs.p), violationOf cs.isEquality[i] (cs.stage x u)[i] ≤ eps) ↔
      BoundInput.Encloses d.uMin d.uMax eps u ∧ BoundInput.Encloses d.xMin d.xMax eps x ∧
      (∀ a ∈ valuesOf cs.cI (stageArgs x u), a ≤ eps) ∧
      ∀ a ∈ valuesOf cs.cE (stageArgs x u), Scalar.abs a ≤ eps := by
  rw [forall_stage (P := (· ≤ eps)), forall_stageRows, h.stateRows_le_iff heps hnonneg hx]
  simp only [ConstraintRow.isEquality, ConstraintRow.value, violationOf_false_le, hnonneg, and_true,
    violationOf_true_le, forall_valuesOf (P := (· ≤ eps)),
    forall_valuesOf (P := (Scalar.abs · ≤ eps)), h.u.encloses_iff hu heps, and_assoc]

/-- The constraint vector of the final state. -/
theorem Describes.terminal_le_iff (h : d.Describes ν cs) (heps : Scalar.isFinite eps = true)
    (hnonneg : 0 ≤ eps) {x : Vec α n} (hx : ∀ i, Scalar.isFinite (x.get i) = true) :
    (∀ i (hi : i < cs.q), violationOf cs.isEqualityN[i] (cs.terminal x)[i] ≤ eps) ↔
      BoundInput.Encloses d.xMin d.xMax eps x ∧
      (∀ a ∈ valuesOf cs.cIN (terminalArgs x), a ≤ eps) ∧
      (∀ a ∈ valuesOf cs.cEN (terminalArgs x), Scalar.abs a ≤ eps) ∧
      (d.useTerminal = true →
        ∀ i, LeAdd (x.get i) (cs.goal.get i) eps ∧ LeAdd (cs.goal.get i) (x.get i) eps) := by
  rw [forall_terminal (P := (· ≤ eps)), forall_terminalRows, h.stateRows_le_iff heps hnonneg hx]
  simp only [ConstraintRow.isEquality, ConstraintRow.value, violationOf_false_le, hnonneg, and_true,
    violationOf_true_le, forall_valuesOf (P := (· ≤ eps)),
    forall_valuesOf (P := (Scalar.abs · ≤ eps)), abs_sub_le_iff (hx _) heps, h.useTerminal]

/-- The largest violation along a path is at most a tolerance exactly if the path keeps, up to the
tolerance, the bounds of the draft, the goal if the draft asks for it, and the constraint functions
of the set that was built. How many values each function has was counted when the set was built. -/
theorem violation_le_iff {goal : Tensor α}
    (hbuild : (d.build n m goal : Run (Event α) (Error ν) _).outcome = .ok cs)
    (model : Model α n m) (cost : QuadraticCost α n m) (dt : α) (intervals : Nat)
    {path : Path α n m} (hstates : ∀ x ∈ path.states, ∀ i, Scalar.isFinite (x.get i) = true)
    (hcontrols : ∀ u ∈ path.controls, ∀ i, Scalar.isFinite (u.get i) = true)
    (heps : Scalar.isFinite eps = true) (hnonneg : 0 ≤ eps) :
    let problem := StageProblem.ofObjective model (.constrained cost cs) dt intervals
    (problem.evaluateConstraints path).violation problem.stageConstraints.isEquality
        problem.terminalConstraints.isEquality ≤ eps ↔ d.Holds cs eps path := by
  have hdescribes := (build_eq_ok.1 hbuild).2
  simp only [Path.states, Path.controls, List.forall_mem_append, List.forall_mem_map,
    List.forall_mem_singleton] at hstates hcontrols
  have hfinal := hdescribes.terminal_le_iff heps hnonneg hstates.2
  have hknot := fun k hk =>
    hdescribes.stage_le_iff heps hnonneg (hstates.1 k hk) (hcontrols k hk)
  intro problem
  rw [ConstraintValues.violation_iff (isLower_le eps)]
  refine Iff.trans (and_congr_right fun _ => and_congr
    (List.forall_mem_map.trans (forall₂_congr hknot)) hfinal) ?_
  constructor
  · rintro ⟨-, hknots, hx, hinequality, hequality, hgoal⟩
    refine ⟨?_, ?_, fun k hk => (hknots k hk).2.2.1, fun k hk => (hknots k hk).2.2.2, hinequality,
      hequality, hgoal⟩
    · exact List.forall_mem_map.2 fun k hk => (hknots k hk).1
    · exact List.forall_mem_append.2
        ⟨List.forall_mem_map.2 fun k hk => (hknots k hk).2.1, by simpa using hx⟩
  · intro h
    obtain ⟨hknots, hx⟩ := List.forall_mem_append.1 h.states
    exact ⟨hnonneg, fun k hk => ⟨List.forall_mem_map.1 h.controls k hk,
      List.forall_mem_map.1 hknots k hk, h.inequality k hk, h.equality k hk⟩,
      by simpa using hx, h.inequalityN, h.equalityN, h.goal⟩

section Mixed

open Extended

/-- Two controls that are nonnegative, the first of them at most one, and a state whose bounds are
all infinite. -/
noncomputable def mixed : ConstraintDraft Extended where
  uMin := some (.array ⟨[], [finite 0]⟩)
  uMax := some (.array ⟨[2], [finite 1, top]⟩)
  xMax := some (.array ⟨[1], [top]⟩)
  cI := some {
    parameters := .names ["x", "u"]
    inspectable := true
    traced := false
    failure := none
    body := .returns .vector [.sub (.entry 1 0) (.const (finite 1))] }

/-- What the draft describes with the goal zero. -/
noncomputable def mixedSet : ConstraintSet Extended 1 2 where
  goal := Vec.const 1 (finite 0)
  uMin := Vec.const 2 (some (finite 0))
  uMax := #v[some (finite 1), none]
  xMin := Vec.const 1 none
  xMax := Vec.const 1 none
  cI := mixed.cI.map fun f => ⟨"cI", .pure, false, 1, f⟩
  cE := none
  cIN := none
  cEN := none
  useTerminal := true

theorem build_mixed : (mixed.build 1 2 ⟨[], [finite 0]⟩ :
    Run (Event Extended) (Error Empty) _).outcome = .ok mixedSet := by
  have htop : Limit.upper top = .free := by
    have hpos : (0 : Extended) < top := ⟨trivial, trivial, EReal.zero_lt_top⟩
    simp [Limit.upper, Scalar.isFinite, hpos]
  have hbox : finite 0 < finite 1 := ⟨trivial, trivial, EReal.coe_lt_coe_iff.2 one_pos⟩
  have hupper : (BoundInput.resolve "u_max" 2 Limit.upper mixed.uMax :
      Except (Error Empty) _) = .ok #v[.at (finite 1), .free] := by
    simp [BoundInput.resolve, mixed, Tensor.toNumber?, Tensor.toVec?, Vec.ofList?, Vec.ofList, htop]
    rfl
  have hstate : (BoundInput.resolve "x_max" 1 Limit.upper mixed.xMax :
      Except (Error Empty) _) = .ok #v[.free] := by
    simp [BoundInput.resolve, mixed, Tensor.toNumber?, Tensor.toVec?, Vec.ofList?, Vec.ofList, htop]
  refine build_eq_ok.2 ⟨rfl, ⟨Vec.const 2 (.at (finite 0)), _, rfl, hupper, ?_, ?_, ?_⟩,
    ⟨Vec.const 1 .free, _, rfl, hstate, rfl, ?_, ?_⟩, rfl, rfl, rfl, rfl, rfl⟩
  · refine BoundInput.crossed_eq_nil.2 fun i => ?_
    fin_cases i
    · exact decide_eq_true hbox
    · rfl
  all_goals simp [mixedSet, Vec.const, Limit.toOption]

/-- Both states are zero, and both controls exceed one by one. -/
noncomputable def mixedPath : Path Extended 1 2 :=
  ⟨[⟨Vec.const 1 (finite 0), Vec.const 2 (finite (1 + 1))⟩], Vec.const 1 (finite 0)⟩

/-- The first control exceeds its bound by one and no other constraint is violated more, so a
tolerance of one is enough and one of one half is not. -/
theorem violation_mixedPath :
    let model : Model Extended 1 2 :=
      ⟨⟨"dynamics", .pure, true, 1, ⟨"fun", .any, true, true, none, .returns .vector [.entry 0 0]⟩⟩, rfl,
        none, none⟩
    let cost : QuadraticCost Extended 1 2 :=
      ⟨Mat.identity 1, Mat.identity 2, Mat.identity 1, 1, Vec.zero 1, Vec.zero 1, 0⟩
    let problem := StageProblem.ofObjective model (.constrained cost mixedSet) 1 1
    let violation := (problem.evaluateConstraints mixedPath).violation
      problem.stageConstraints.isEquality problem.terminalConstraints.isEquality
    violation ≤ finite 1 ∧ ¬ violation ≤ finite (1 / 2) := by
  intro model cost problem violation
  have hiff : ∀ e : ℝ, 0 ≤ e →
      (violation ≤ finite e ↔ mixed.Holds mixedSet (finite e) mixedPath) := by
    intro e he
    refine violation_le_iff build_mixed model cost 1 1 ?_ ?_ rfl (finite_le_finite.2 he)
    · simp [mixedPath, Path.states, Vec.get_eq, Scalar.isFinite]
    · simp [mixedPath, Path.controls, Vec.get_eq, Scalar.isFinite]
  have hstate : BoundInput.Encloses mixed.xMin mixed.xMax (finite 1)
      (Vec.const 1 (finite 0)) := by
    refine ⟨fun i b hb => ?_, fun i b hb => nomatch hb⟩
    fin_cases i
    cases hb
    exact leAdd_top 0 1
  refine ⟨(hiff 1 (by norm_num)).2 ⟨?_, ?_, ?_, ?_, ?_, ?_, ?_⟩, fun h => ?_⟩
  · refine List.forall_mem_singleton.2 ⟨fun i b hb => ?_, fun i b hb => ?_⟩
    · fin_cases i <;> cases hb
      · exact leAdd_finite.2 (by norm_num)
      · exact leAdd_top (1 + 1) 1
    · cases hb
      fin_cases i
      · exact leAdd_finite.2 (by norm_num)
      · exact leAdd_finite.2 (by norm_num)
  · exact List.forall_mem_cons.2 ⟨hstate, List.forall_mem_singleton.2 hstate⟩
  · refine List.forall_mem_singleton.2 (forall_valuesOf.1 fun j hj => ?_)
    obtain rfl : j = 0 := Nat.lt_one_iff.1 hj
    exact finite_le_finite.2 (by norm_num)
  · exact List.forall_mem_singleton.2 fun a ha => nomatch ha
  · exact fun a ha => nomatch ha
  · exact fun a ha => nomatch ha
  · intro _ i
    fin_cases i
    exact ⟨leAdd_finite.2 (by norm_num), leAdd_finite.2 (by norm_num)⟩
  · have hbound := ((hiff (1 / 2) (by norm_num)).1 h).controls _ (List.mem_singleton_self _)
    have habove := leAdd_finite.1 (hbound.above 0 (finite 1) rfl)
    norm_num at habove

end Mixed

end ConstraintDraft

end TrajOpt
