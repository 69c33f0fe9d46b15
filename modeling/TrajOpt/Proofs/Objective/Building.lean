import TrajOpt.Objective
import TrajOpt.Proofs.Linear.Tensor
import TrajOpt.Proofs.Outcome
import TrajOpt.Proofs.Scalar.Laws

/-!
# What is built is built again

A cost and a constraint set come out of their checks. What is kept of them passes the same checks
again, and what is built from it is the same: arrays are read as they were written, bounds that are
none were given as infinite, and a function is adapted in the same way at the same probe. Only the
goal of a constraint set is not kept.

## Main definitions

* `QuadraticCost.Valid` - the conditions on a cost.
* `ConstraintDraft.Describes` - how a constraint set comes out of a draft.

## Main statements

* `CostDraft.build_eq_ok`, `ConstraintDraft.build_eq_ok` - what the checks ask for.
* `QuadraticCost.Valid.replace_nil`, `ConstraintDraft.Describes.ofSet` - building again.
-/

namespace TrajOpt

variable {α : Type} [Scalar α] {n m : Nat}

namespace CostDraft

omit [Scalar α] in
theorem initialState_eq_ok {t : Tensor α} {v : Vec α n} :
    initialState t = .ok ⟨n, v⟩ ↔ t.toVec? n = some v ∧ n ≠ 0 := by
  unfold initialState
  constructor
  · intro h
    split at h
    next k _ =>
      split at h
      next w hw =>
        split at h
        · cases h
        next hk =>
          cases h
          exact ⟨hw, hk⟩
      · cases h
    · cases h
  · rintro ⟨hv, hn⟩
    rw [(Tensor.toVec?_eq_some.1 hv).1]
    simp [hv, hn]

theorem controlWeight_eq_ok {t : Tensor α} {w : Mat α m m} :
    controlWeight t = .ok ⟨m, w⟩ ↔
      t.toMat? m m = some w ∧ m ≠ 0 ∧ (Cholesky.ofLower? w).isSome = true := by
  unfold controlWeight
  constructor
  · intro h
    split at h
    next k _ _ =>
      split at h
      next w' hw =>
        split at h
        · cases h
        next hk =>
          split at h
          · cases h
          next hfactor =>
            cases h
            exact ⟨hw, hk, by simpa [Option.isSome_iff_ne_none] using hfactor⟩
      · cases h
    · cases h
  · rintro ⟨hw, hm, hfactor⟩
    rw [Tensor.shape_of_toMat? hw]
    simp [hw, hm, Option.isSome_iff_ne_none.1 hfactor]

theorem stateWeight_eq_ok {what : String} {t : Tensor α} {w : Mat α n n} :
    stateWeight what t n = .ok w ↔
      t.toMat? n n = some w ∧ w.isSymmetric = true ∧ w.isSemidefinite = true := by
  unfold stateWeight
  cases t.toMat? n n with
  | none => simp
  | some w' =>
    cases hsymmetric : w'.isSymmetric <;> cases hsemidefinite : w'.isSemidefinite <;>
      simp [hsymmetric, hsemidefinite] <;> grind

/-- The checks of a cost. -/
theorem build_eq_ok {d : CostDraft α} {builder : Builder} {cost : QuadraticCost α n m} :
    d.build builder = .ok ⟨n, m, cost⟩ ↔
      ∃ q r qf tf x0 xf, (d.Q = some q ∧ d.R = some r ∧ d.Qf = some qf ∧ d.tf = some tf ∧
        d.x0 = some x0 ∧ d.xf = some xf) ∧
        initialState x0 = .ok ⟨n, cost.x0⟩ ∧ xf.toVec? n = some cost.xf ∧
        controlWeight r = .ok ⟨m, cost.R⟩ ∧ finalTime tf = .ok cost.tf ∧
        constantCost tf d.c = .ok cost.c ∧ stateWeight "Q" q n = .ok cost.Q ∧
        stateWeight "Qf" qf n = .ok cost.Qf := by
  constructor
  · intro h
    unfold build at h
    split at h
    next q r qf tf x0 xf hq hr hqf htf hx0 hxf =>
      obtain ⟨⟨n, x⟩, hinitial, h⟩ := bind_eq_ok.1 h
      dsimp only at h
      split at h
      next v hv =>
        simp only [ok_bind, bind_eq_ok] at h
        obtain ⟨⟨m, w⟩, hcontrol, time, htime, c, hc, a, ha, b, hb, h⟩ := h
        cases h
        exact ⟨q, r, qf, tf, x0, xf, ⟨hq, hr, hqf, htf, hx0, hxf⟩, hinitial, hv, hcontrol, htime,
          hc, ha, hb⟩
      next => cases h
    next => cases h
  · rintro ⟨q, r, qf, tf, x0, xf, ⟨hq, hr, hqf, htf, hx0, hxf⟩, hinitial, hgoal, hcontrol, htime,
      hc, ha, hb⟩
    simp only [build, hq, hr, hqf, htf, hx0, hxf, hinitial, hgoal, hcontrol, htime, hc, ok_bind, ha,
      hb]
    rfl

theorem eq_of_finalTime {t a : α} (h : finalTime (.time t) = .ok a) : a = t := by
  unfold finalTime at h
  dsimp only at h
  split at h
  · cases h
  · exact (Except.ok.inj h).symm

theorem eq_of_constantCost {tf : FinalTime α} {c a : α}
    (h : constantCost tf (some c) = .ok a) : a = c := by
  unfold constantCost at h
  dsimp only at h
  split at h
  · cases h
  · exact (Except.ok.inj h).symm

variable [LawfulScalar α]

theorem not_neg_of_finalTime {tf : FinalTime α} {t : α} (h : finalTime tf = .ok t) : ¬ t < 0 := by
  unfold finalTime at h
  split at h
  · split at h
    · cases h
    next hneg =>
      cases h
      exact hneg
  · split at h
    · cases h
      exact Arith.lt_irrefl 0
    · cases h

theorem not_neg_of_constantCost (hone : ¬ (1 : α) < 0) {tf : FinalTime α} {c : Option α} {a : α}
    (h : constantCost tf c = .ok a) : ¬ a < 0 := by
  unfold constantCost at h
  split at h
  · split at h
    · cases h
    next hneg =>
      cases h
      exact hneg
  · split at h <;> cases h
    · exact Arith.lt_irrefl 0
    · exact hone

end CostDraft

namespace QuadraticCost

/-- The conditions on a cost. -/
structure Valid (cost : QuadraticCost α n m) : Prop where
  states : n ≠ 0
  controls : m ≠ 0
  Q : cost.Q.isSymmetric = true ∧ cost.Q.isSemidefinite = true
  Qf : cost.Qf.isSymmetric = true ∧ cost.Qf.isSemidefinite = true
  R : (Cholesky.ofLower? cost.R).isSome = true
  tf : ¬ cost.tf < 0
  c : ¬ cost.c < 0

variable {cost : QuadraticCost α n m}

theorem valid_of_build [LawfulScalar α] (hone : ¬ (1 : α) < 0) {d : CostDraft α}
    {builder : Builder} (h : d.build builder = .ok ⟨n, m, cost⟩) : cost.Valid := by
  obtain ⟨q, r, qf, tf, x0, xf, -, hinitial, -, hcontrol, htime, hc, hq, hqf⟩ :=
    CostDraft.build_eq_ok.1 h
  obtain ⟨-, hm, hR⟩ := CostDraft.controlWeight_eq_ok.1 hcontrol
  exact ⟨(CostDraft.initialState_eq_ok.1 hinitial).2, hm, (CostDraft.stateWeight_eq_ok.1 hq).2,
    (CostDraft.stateWeight_eq_ok.1 hqf).2, hR, CostDraft.not_neg_of_finalTime htime,
    CostDraft.not_neg_of_constantCost hone hc⟩

/-- A cost passes its checks again. -/
theorem Valid.replace_nil (h : cost.Valid) : cost.replace [] = .ok ⟨n, m, cost⟩ := by
  refine CostDraft.build_eq_ok.2
    ⟨_, _, _, _, _, _, ⟨rfl, rfl, rfl, rfl, rfl, rfl⟩, ?_, ?_, ?_, ?_, ?_, ?_, ?_⟩
  · exact CostDraft.initialState_eq_ok.2 ⟨Tensor.toVec?_ofVec _, h.states⟩
  · exact Tensor.toVec?_ofVec _
  · exact CostDraft.controlWeight_eq_ok.2 ⟨Tensor.toMat?_ofMat _, h.controls, h.R⟩
  · exact if_neg h.tf
  · exact if_neg h.c
  · exact CostDraft.stateWeight_eq_ok.2 ⟨Tensor.toMat?_ofMat _, h.Q⟩
  · exact CostDraft.stateWeight_eq_ok.2 ⟨Tensor.toMat?_ofMat _, h.Qf⟩

end QuadraticCost

section Bounds

variable {ν : Type} {k : Nat}

/-- The bounds that a lower and an upper bound are resolved to, if every upper bound is above the
lower one. -/
def BoundInput.Resolves (ν : Type) (lowerName upperName : String)
    (lower upper : Option (BoundInput α)) (min max : Vec (Option α) k) : Prop :=
  ∃ l u, (BoundInput.resolve lowerName k Limit.lower lower : Except (Error ν) _) = .ok l ∧
    (BoundInput.resolve upperName k Limit.upper upper : Except (Error ν) _) = .ok u ∧
    BoundInput.crossed l u = [] ∧ min = l.map Limit.toOption ∧ max = u.map Limit.toOption

namespace BoundInput

omit [Scalar α] in
theorem resolve_kept {what : String} {limit : α → Limit α} {bounds : List (Option α)}
    {v : Vec (Limit α) k} :
    (resolve what k limit (some (.kept bounds)) : Except (Error ν) _) = .ok v ↔
      v.toList = bounds.map Limit.ofOption := by
  rw [resolve, ← Vec.ofList?_eq_some]
  cases Vec.ofList? k (bounds.map Limit.ofOption) <;> simp

omit [Scalar α] in
theorem toOption_ofOption (b : Option α) : (Limit.ofOption b).toOption = b := by
  cases b <;> rfl

omit [Scalar α] in
/-- Bounds that were kept are the same bounds. -/
theorem toList_of_kept {what : String} {limit : α → Limit α} {bounds : List (Option α)}
    {v : Vec (Limit α) k}
    (h : (resolve what k limit (some (.kept bounds)) : Except (Error ν) _) = .ok v) :
    (v.map Limit.toOption).toList = bounds := by
  rw [Vector.toList_map, resolve_kept.1 h, List.map_map]
  simp [Function.comp_def, toOption_ofOption]

theorem crossed_eq_nil {l u : Vec (Limit α) k} :
    crossed l u = [] ↔ ∀ i, (u.get i).isAbove (l.get i) = true := by
  simp [crossed]

theorem ofOption_toOption {l u : Limit α} (h : u.isAbove l = true) :
    Limit.ofOption l.toOption = l ∧ Limit.ofOption u.toOption = u := by
  cases l <;> cases u <;> simp_all [Limit.isAbove, Limit.ofOption, Limit.toOption]

omit [Scalar α] in
/-- Limits that a number may satisfy are what is made of them again. -/
theorem toList_eq_map_ofOption {v : Vec (Limit α) k}
    (h : ∀ i, Limit.ofOption (v.get i).toOption = v.get i) :
    v.toList = (v.map Limit.toOption).toList.map Limit.ofOption := by
  refine List.ext_getElem (by simp) fun i hi hi' => ?_
  have hentry := h ⟨i, by simpa using hi⟩
  simpa [Vec.get_eq] using hentry.symm

/-- Bounds that were resolved are resolved to themselves. -/
theorem Resolves.kept {lowerName upperName : String} {lower upper : Option (BoundInput α)}
    {min max : Vec (Option α) k} (h : Resolves ν lowerName upperName lower upper min max) :
    Resolves ν lowerName upperName (some (.kept min.toList)) (some (.kept max.toList)) min max := by
  obtain ⟨l, u, -, -, hcrossed, rfl, rfl⟩ := h
  have habove := crossed_eq_nil.1 hcrossed
  refine ⟨l, u, resolve_kept.2 ?_, resolve_kept.2 ?_, hcrossed, rfl, rfl⟩
  · exact toList_eq_map_ofOption fun i => (ofOption_toOption (habove i)).1
  · exact toList_eq_map_ofOption fun i => (ofOption_toOption (habove i)).2

theorem Resolves.toList_min {lowerName upperName : String} {upper : Option (BoundInput α)}
    {bounds : List (Option α)} {min max : Vec (Option α) k}
    (h : Resolves ν lowerName upperName (some (.kept bounds)) upper min max) :
    min.toList = bounds := by
  obtain ⟨l, u, hl, -, -, rfl, -⟩ := h
  exact toList_of_kept hl

theorem Resolves.toList_max {lowerName upperName : String} {lower : Option (BoundInput α)}
    {bounds : List (Option α)} {min max : Vec (Option α) k}
    (h : Resolves ν lowerName upperName lower (some (.kept bounds)) min max) :
    max.toList = bounds := by
  obtain ⟨l, u, -, hu, -, -, rfl⟩ := h
  exact toList_of_kept hu

end BoundInput

end Bounds

section Constraints

variable {ν : Type}

/-- An adapted function has the function that was given as its source. -/
theorem source_of_adaptOptional {f : Option (UserFunction α)} {probe : Args α} {name : String}
    {g : Option (Adapted α)}
    (h : (ConstraintDraft.adaptOptional f probe name : Run (Event α) (Error ν) _).outcome = .ok g) :
    g.map Adapted.source = f := by
  cases f with
  | none =>
    cases h
    rfl
  | some f =>
    obtain ⟨g, hg, rfl⟩ := Run.outcome_map_eq_ok.1 h
    simp only [adapt, Run.outcome_bind_eq_ok, Run.outcome_ofExcept] at hg
    obtain ⟨form, -, found, -, hg⟩ := hg
    simp only [Run.outcome_refuse_eq_ok, Run.outcome_bind_eq_ok] at hg
    obtain ⟨-, -, -, hg⟩ := hg
    cases hg
    rfl

/-- The source of an adapted function is adapted in the same way. -/
theorem adaptOptional_source {f : Option (UserFunction α)} {probe : Args α} {name : String}
    {g : Option (Adapted α)}
    (h : (ConstraintDraft.adaptOptional f probe name : Run (Event α) (Error ν) _).outcome = .ok g) :
    (ConstraintDraft.adaptOptional (g.map Adapted.source) probe name :
      Run (Event α) (Error ν) _).outcome = .ok g := by
  rw [source_of_adaptOptional h]
  exact h

/-- A source is adapted to one function at a probe. -/
theorem eq_of_adaptOptional {f f' : Option (UserFunction α)} {probe : Args α} {name : String}
    {g g' : Option (Adapted α)} (hsource : f' = g.map Adapted.source)
    (hg : (ConstraintDraft.adaptOptional f probe name : Run (Event α) (Error ν) _).outcome = .ok g)
    (hg' : (ConstraintDraft.adaptOptional f' probe name : Run (Event α) (Error ν) _).outcome =
      .ok g') : g' = g := by
  rw [hsource, adaptOptional_source hg] at hg'
  exact (Except.ok.inj hg').symm

namespace ConstraintDraft

/-- The probe of stage constraints, and that of terminal ones. -/
def stageProbe (α : Type) [Scalar α] (n m : Nat) : Args α :=
  [.vector (List.replicate n 0), .vector (List.replicate m 0)]

def terminalProbe (α : Type) [Scalar α] (n : Nat) : Args α := [.vector (List.replicate n 0)]

/-- How a constraint set comes out of a draft, apart from its goal. -/
structure Describes (ν : Type) (d : ConstraintDraft α) (cs : ConstraintSet α n m) : Prop where
  u : BoundInput.Resolves ν "u_min" "u_max" d.uMin d.uMax cs.uMin cs.uMax
  x : BoundInput.Resolves ν "x_min" "x_max" d.xMin d.xMax cs.xMin cs.xMax
  cI : (adaptOptional d.cI (stageProbe α n m) "cI" : Run (Event α) (Error ν) _).outcome = .ok cs.cI
  cE : (adaptOptional d.cE (stageProbe α n m) "cE" : Run (Event α) (Error ν) _).outcome = .ok cs.cE
  cIN : (adaptOptional d.cIN (terminalProbe α n) "cI_N" : Run (Event α) (Error ν) _).outcome =
    .ok cs.cIN
  cEN : (adaptOptional d.cEN (terminalProbe α n) "cE_N" : Run (Event α) (Error ν) _).outcome =
    .ok cs.cEN
  useTerminal : cs.useTerminal = d.useTerminal

/-- The checks of a constraint set. -/
theorem build_eq_ok {d : ConstraintDraft α} {goal : Tensor α} {cs : ConstraintSet α n m} :
    (d.build n m goal : Run (Event α) (Error ν) _).outcome = .ok cs ↔
      (goalState goal n : Except (Error ν) _) = .ok cs.goal ∧ d.Describes ν cs := by
  constructor
  · intro h
    unfold build at h
    simp only [Run.outcome_bind_eq_ok, Run.outcome_ofExcept] at h
    obtain ⟨g, hg, uMin, huMin, uMax, huMax, xMin, hxMin, xMax, hxMax, h⟩ := h
    simp only [Run.outcome_refuse_eq_ok, Run.outcome_bind_eq_ok, Bool.not_eq_true',
      Bool.not_eq_false, List.isEmpty_iff] at h
    obtain ⟨hu, hx, cI, hcI, cE, hcE, cIN, hcIN, cEN, hcEN, h⟩ := h
    cases h
    exact ⟨hg, ⟨uMin, uMax, huMin, huMax, hu, rfl, rfl⟩, ⟨xMin, xMax, hxMin, hxMax, hx, rfl, rfl⟩,
      hcI, hcE, hcIN, hcEN, rfl⟩
  · rintro ⟨hg, ⟨uMin, uMax, huMin, huMax, hu, huMin', huMax'⟩,
      ⟨xMin, xMax, hxMin, hxMax, hx, hxMin', hxMax'⟩, hcI, hcE, hcIN, hcEN, huse⟩
    unfold build
    simp only [Run.outcome_bind_eq_ok, Run.outcome_ofExcept]
    refine ⟨_, hg, _, huMin, _, huMax, _, hxMin, _, hxMax, ?_⟩
    simp only [Run.outcome_refuse_eq_ok, Run.outcome_bind_eq_ok, Bool.not_eq_true',
      Bool.not_eq_false, List.isEmpty_iff]
    refine ⟨hu, hx, _, hcI, _, hcE, _, hcIN, _, hcEN, ?_⟩
    rw [← huMin', ← huMax', ← hxMin', ← hxMax', ← huse]
    rfl

omit [Scalar α] in
theorem goalState_ofVec (goal : Vec α n) :
    (goalState (.ofVec goal) n : Except (Error ν) _) = .ok goal := by
  have hnumber : (Tensor.ofVec goal).toNumber? = none := rfl
  rw [goalState, hnumber, Tensor.toVec?_ofVec]

/-- What is kept of a constraint set describes it again, with any goal. -/
theorem Describes.ofSet {d : ConstraintDraft α} {cs : ConstraintSet α n m}
    (h : d.Describes ν cs) (goal : Vec α n) :
    (ConstraintDraft.ofSet cs).Describes ν { cs with goal } where
  u := h.u.kept
  x := h.x.kept
  cI := adaptOptional_source h.cI
  cE := adaptOptional_source h.cE
  cIN := adaptOptional_source h.cIN
  cEN := adaptOptional_source h.cEN
  useTerminal := rfl

end ConstraintDraft

end Constraints

end TrajOpt
