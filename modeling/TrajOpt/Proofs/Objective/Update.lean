import TrajOpt.Proofs.Objective.Building
import TrajOpt.Proofs.Scalar.Double
import TrajOpt.Proofs.Solve.Coherence

/-!
# What an update changes

An update builds an objective anew from the fields that it has and the ones that are changed. A
field that is not named is thus read as it was written, and comes out the same. The goal of the
constraints is the one thing that is not a field: it is always taken over from the new cost. A set
of constraints that was built for another goal and paired with the cost is moved to that of the
cost, even by an update that names nothing.

## Main definitions

* `FieldName`, `Objective.field?` - the fields of an objective by name, whatever its dimensions.
* `Objective.IsBuilt` - objectives as they come out of their checks, in whatever way.
* `Objective.retarget` - an objective whose constraints have the goal of the cost.

## Main statements

* `Objective.isBuilt_of_update` and others - every way to build an objective.
* `Objective.field?_update` - a field that is not named is the same.
* `Objective.update_nil` - an update without changes.
* `Objective.update_eq` - what an update changes.
-/

namespace TrajOpt

/-- The names of the fields of an objective. -/
inductive FieldName where
  | Q
  | R
  | Qf
  | tf
  | x0
  | xf
  | c
  | uMin
  | uMax
  | xMin
  | xMax
  | cI
  | cE
  | cIN
  | cEN
  | useTerminal
  deriving DecidableEq

/-- What a field of an objective holds, whatever the dimensions of the objective. -/
inductive FieldValue (α : Type) where
  | array (value : Tensor α)
  | number (value : α)
  | bounds (bounds : List (Option α))
  | function (source : Option (UserFunction α))
  | flag (value : Bool)

section Names

variable {α : Type}

/-- The name of a field of a cost. -/
def CostField.fieldName : CostField α → FieldName
  | Q _ => .Q
  | R _ => .R
  | Qf _ => .Qf
  | tf _ => .tf
  | x0 _ => .x0
  | xf _ => .xf
  | c _ => .c

/-- The name of a field of a constraint set. -/
def ConstraintField.fieldName : ConstraintField α → FieldName
  | uMin _ => .uMin
  | uMax _ => .uMax
  | xMin _ => .xMin
  | xMax _ => .xMax
  | cI _ => .cI
  | cE _ => .cE
  | cIN _ => .cIN
  | cEN _ => .cEN
  | useTerminal _ => .useTerminal

/-- The name of a change, if it names a field. -/
def ObjectiveField.fieldName? : ObjectiveField α → Option FieldName
  | cost _ field => some field.fieldName
  | constraint field => some field.fieldName
  | unknown _ => none

end Names

section Fields

variable {α : Type} {n m : Nat}

/-- The field of a cost with the given name. -/
def QuadraticCost.field? (cost : QuadraticCost α n m) : FieldName → Option (FieldValue α)
  | .Q => some (.array (.ofMat cost.Q))
  | .R => some (.array (.ofMat cost.R))
  | .Qf => some (.array (.ofMat cost.Qf))
  | .tf => some (.number cost.tf)
  | .x0 => some (.array (.ofVec cost.x0))
  | .xf => some (.array (.ofVec cost.xf))
  | .c => some (.number cost.c)
  | _ => none

/-- The field of a constraint set with the given name. -/
def ConstraintSet.field? (cs : ConstraintSet α n m) : FieldName → Option (FieldValue α)
  | .uMin => some (.bounds cs.uMin.toList)
  | .uMax => some (.bounds cs.uMax.toList)
  | .xMin => some (.bounds cs.xMin.toList)
  | .xMax => some (.bounds cs.xMax.toList)
  | .cI => some (.function (cs.cI.map Adapted.source))
  | .cE => some (.function (cs.cE.map Adapted.source))
  | .cIN => some (.function (cs.cIN.map Adapted.source))
  | .cEN => some (.function (cs.cEN.map Adapted.source))
  | .useTerminal => some (.flag cs.useTerminal)
  | _ => none

/-- The adapted function of a constraint set with the given name. -/
def ConstraintSet.function? (cs : ConstraintSet α n m) : FieldName → Option (Adapted α)
  | .cI => cs.cI
  | .cE => cs.cE
  | .cIN => cs.cIN
  | .cEN => cs.cEN
  | _ => none

namespace Objective

/-- The field of an objective with the given name. -/
def field? (o : Objective α n m) (name : FieldName) : Option (FieldValue α) :=
  (o.cost.field? name).or (o.constraints?.bind fun cs => cs.field? name)

/-- The adapted function of an objective with the given name. -/
def function? (o : Objective α n m) (name : FieldName) : Option (Adapted α) :=
  o.constraints?.bind fun cs => cs.function? name

/-- The goal of the constraints, if there are any. -/
def goal? (o : Objective α n m) : Option (Vec α n) := o.constraints?.map ConstraintSet.goal

/-- The objective whose constraints have the goal of the cost. -/
def retarget : Objective α n m → Objective α n m
  | unconstrained cost => .unconstrained cost
  | constrained cost cs => .constrained cost { cs with goal := cost.xf }

end Objective

end Fields

section Drafts

variable {α : Type} {name : FieldName}

/-- Two drafts of a cost that have the same under a name. -/
def CostDraft.SameAt (d d' : CostDraft α) : FieldName → Prop
  | .Q => d'.Q = d.Q
  | .R => d'.R = d.R
  | .Qf => d'.Qf = d.Qf
  | .tf => d'.tf = d.tf
  | .x0 => d'.x0 = d.x0
  | .xf => d'.xf = d.xf
  | .c => d'.c = d.c
  | _ => True

/-- Fields with other names do not touch what a draft of a cost has under a name. -/
theorem CostDraft.sameAt_foldl {fields : List (CostField α)}
    (h : ∀ v ∈ fields, v.fieldName ≠ name) (d : CostDraft α) :
    d.SameAt (fields.foldl set d) name := by
  induction fields generalizing d with
  | nil => cases name <;> first | rfl | trivial
  | cons v fields ih =>
    have hrest := ih (fun w hw => h w (List.mem_cons_of_mem v hw)) (d.set v)
    have hv : v.fieldName ≠ name := h v List.mem_cons_self
    cases v <;> cases name <;> first | exact hrest | exact absurd rfl hv

/-- Two drafts of a constraint set that have the same under a name. -/
def ConstraintDraft.SameAt (d d' : ConstraintDraft α) : FieldName → Prop
  | .uMin => d'.uMin = d.uMin
  | .uMax => d'.uMax = d.uMax
  | .xMin => d'.xMin = d.xMin
  | .xMax => d'.xMax = d.xMax
  | .cI => d'.cI = d.cI
  | .cE => d'.cE = d.cE
  | .cIN => d'.cIN = d.cIN
  | .cEN => d'.cEN = d.cEN
  | .useTerminal => d'.useTerminal = d.useTerminal
  | _ => True

/-- Fields with other names do not touch what a draft of a constraint set has under a name. -/
theorem ConstraintDraft.sameAt_foldl {fields : List (ConstraintField α)}
    (h : ∀ v ∈ fields, v.fieldName ≠ name) (d : ConstraintDraft α) :
    d.SameAt (fields.foldl set d) name := by
  induction fields generalizing d with
  | nil => cases name <;> first | rfl | trivial
  | cons v fields ih =>
    have hrest := ih (fun w hw => h w (List.mem_cons_of_mem v hw)) (d.set v)
    have hv : v.fieldName ≠ name := h v List.mem_cons_self
    cases v <;> cases name <;> first | exact hrest | exact absurd rfl hv

end Drafts

variable {α : Type} [Scalar α] {n m n' m' : Nat} {name : FieldName}

/-- A field of a cost that is not named is the same after a replacement. -/
theorem QuadraticCost.field?_replace {cost : QuadraticCost α n m} {cost' : QuadraticCost α n' m'}
    {changes : List (CostField α)} (h : cost.replace changes = .ok ⟨n', m', cost'⟩)
    (hname : ∀ v ∈ changes, v.fieldName ≠ name) : cost'.field? name = cost.field? name := by
  have hsame := CostDraft.sameAt_foldl hname (.ofCost cost)
  obtain ⟨q, r, qf, tf, x0, xf, ⟨hq, hr, hqf, htf, hx0, hxf⟩, hinitial, hgoal, hcontrol, htime, hc,
    hstate, hfinal⟩ := CostDraft.build_eq_ok.1 h
  cases name with
  | Q =>
    cases hq.symm.trans hsame
    rw [field?, field?, Tensor.ofMat_of_toMat? (CostDraft.stateWeight_eq_ok.1 hstate).1]
  | R =>
    cases hr.symm.trans hsame
    rw [field?, field?, Tensor.ofMat_of_toMat? (CostDraft.controlWeight_eq_ok.1 hcontrol).1]
  | Qf =>
    cases hqf.symm.trans hsame
    rw [field?, field?, Tensor.ofMat_of_toMat? (CostDraft.stateWeight_eq_ok.1 hfinal).1]
  | tf =>
    cases htf.symm.trans hsame
    rw [field?, field?, CostDraft.eq_of_finalTime htime]
  | x0 =>
    cases hx0.symm.trans hsame
    rw [field?, field?, Tensor.ofVec_of_toVec? (CostDraft.initialState_eq_ok.1 hinitial).1]
  | xf =>
    cases hxf.symm.trans hsame
    rw [field?, field?, Tensor.ofVec_of_toVec? hgoal]
  | c =>
    have hsome : (changes.foldl CostDraft.set (.ofCost cost)).c = some cost.c := hsame
    rw [hsome] at hc
    rw [field?, field?, CostDraft.eq_of_constantCost hc]
  | _ => rfl

section Constraints

variable {changes : List (ConstraintField α)}

/-- A field of a constraint set that is not named is the same in one that is built anew. -/
theorem ConstraintSet.field?_rebuild {cs : ConstraintSet α n m} {cs' : ConstraintSet α n' m'}
    (h : (changes.foldl ConstraintDraft.set (.ofSet cs)).Describes α cs')
    (hname : ∀ v ∈ changes, v.fieldName ≠ name) : cs'.field? name = cs.field? name := by
  have hsame := ConstraintDraft.sameAt_foldl hname (.ofSet cs)
  obtain ⟨hu, hx, hcI, hcE, hcIN, hcEN, huse⟩ := h
  cases name with
  | uMin =>
    rw [show _ = some (BoundInput.kept cs.uMin.toList) from hsame] at hu
    rw [field?, field?, hu.toList_min]
  | uMax =>
    rw [show _ = some (BoundInput.kept cs.uMax.toList) from hsame] at hu
    rw [field?, field?, hu.toList_max]
  | xMin =>
    rw [show _ = some (BoundInput.kept cs.xMin.toList) from hsame] at hx
    rw [field?, field?, hx.toList_min]
  | xMax =>
    rw [show _ = some (BoundInput.kept cs.xMax.toList) from hsame] at hx
    rw [field?, field?, hx.toList_max]
  | cI => exact congrArg (some ∘ FieldValue.function) ((source_of_adaptOptional hcI).trans hsame)
  | cE => exact congrArg (some ∘ FieldValue.function) ((source_of_adaptOptional hcE).trans hsame)
  | cIN => exact congrArg (some ∘ FieldValue.function) ((source_of_adaptOptional hcIN).trans hsame)
  | cEN => exact congrArg (some ∘ FieldValue.function) ((source_of_adaptOptional hcEN).trans hsame)
  | useTerminal => exact congrArg (some ∘ FieldValue.flag) (huse.trans hsame)
  | _ => rfl

/-- Within the same dimensions, a function that is not named is also adapted alike. -/
theorem ConstraintSet.function?_rebuild {d : ConstraintDraft α} {cs cs' : ConstraintSet α n m}
    (hcs : d.Describes α cs)
    (h : (changes.foldl ConstraintDraft.set (.ofSet cs)).Describes α cs')
    (hname : ∀ v ∈ changes, v.fieldName ≠ name) : cs'.function? name = cs.function? name := by
  have hsame := ConstraintDraft.sameAt_foldl hname (.ofSet cs)
  cases name with
  | cI => exact eq_of_adaptOptional hsame hcs.cI h.cI
  | cE => exact eq_of_adaptOptional hsame hcs.cE h.cE
  | cIN => exact eq_of_adaptOptional hsame hcs.cIN h.cIN
  | cEN => exact eq_of_adaptOptional hsame hcs.cEN h.cEN
  | _ => rfl

end Constraints

/-- The cost came out of its checks. -/
def QuadraticCost.IsBuilt (cost : QuadraticCost α n m) : Prop :=
  ∃ (d : CostDraft α) (builder : Builder), d.build builder = .ok ⟨n, m, cost⟩

/-- The constraint set came out of its checks, with whatever goal. -/
def ConstraintSet.IsBuilt (cs : ConstraintSet α n m) : Prop :=
  ∃ (d : ConstraintDraft α) (goal : Tensor α),
    (d.build n m goal : Run (Event α) (Error α) _).outcome = .ok cs

namespace Objective

variable {o : Objective α n m} {o' : Objective α n' m'} {changes fields : List (ObjectiveField α)}

/-- The cost of the objective came out of its checks, and so did the constraints if there are
any. -/
def IsBuilt : Objective α n m → Prop
  | unconstrained cost => cost.IsBuilt
  | constrained cost cs => cost.IsBuilt ∧ cs.IsBuilt

theorem IsBuilt.cost (h : o.IsBuilt) : o.cost.IsBuilt := by
  cases o with
  | unconstrained cost => exact h
  | constrained cost cs => exact h.1

section Building

theorem isBuilt_of_createUnconstrained
    (h : (createUnconstrained fields).outcome = .ok ⟨n, m, o⟩) : o.IsBuilt := by
  simp only [createUnconstrained, Run.outcome_bind_eq_ok, Run.outcome_ofExcept] at h
  obtain ⟨⟨n, m, cost⟩, hcost, h⟩ := h
  cases h
  rw [costOf] at hcost
  split at hcost
  · cases hcost
  · exact ⟨_, _, hcost⟩

theorem isBuilt_of_constraintsFor {cost : QuadraticCost α n m} {cs : ConstraintSet α n m}
    (h : (constraintsFor cost fields).outcome = .ok cs) : cs.IsBuilt := by
  rw [constraintsFor, constraintsOf] at h
  split at h
  · cases h
  · exact ⟨_, _, h⟩

theorem isBuilt_of_createConstrained
    (h : (createConstrained fields).outcome = .ok ⟨n, m, o⟩) : o.IsBuilt := by
  simp only [createConstrained, Run.outcome_bind_eq_ok, Run.outcome_ofExcept] at h
  obtain ⟨⟨n, m, cost⟩, hcost, cs, hcs, h⟩ := h
  cases h
  exact ⟨⟨_, _, hcost⟩, isBuilt_of_constraintsFor hcs⟩

theorem isBuilt_of_constrain {o' : Objective α n m} (ho : o.IsBuilt)
    (h : (o.constrain fields).outcome = .ok o') : o'.IsBuilt := by
  simp only [constrain, Run.outcome_bind_eq_ok] at h
  obtain ⟨cs, hcs, h⟩ := h
  cases h
  exact ⟨ho.cost, isBuilt_of_constraintsFor hcs⟩

theorem isBuilt_of_pair {cost : QuadraticCost α n m} {cs : Sized (ConstraintSet α)}
    (hcost : cost.IsBuilt) (hcs : cs.value.IsBuilt) (h : pair cost cs = .ok o) : o.IsBuilt := by
  rw [pair] at h
  split at h
  next hdims =>
    obtain ⟨k, l, cs⟩ := cs
    obtain ⟨rfl, rfl⟩ := hdims
    cases h
    exact ⟨hcost, hcs⟩
  next => cases h

theorem update_unconstrained_eq_ok {cost : QuadraticCost α n m} :
    ((unconstrained cost).update changes).outcome = .ok ⟨n', m', o'⟩ ↔ ∃ cost',
      cost.replace (changes.filterMap ObjectiveField.costField?) = .ok ⟨n', m', cost'⟩ ∧
      (changes.filter fun f => f.costField?.isNone) = [] ∧ o' = .unconstrained cost' := by
  simp only [update, Run.outcome_bind_eq_ok, Run.outcome_ofExcept]
  constructor
  · rintro ⟨⟨k, l, cost'⟩, hcost, h⟩
    dsimp only at h
    rw [Run.outcome_refuse_eq_ok] at h
    obtain ⟨hothers, h⟩ := h
    cases h
    exact ⟨cost', hcost, by simpa using hothers, rfl⟩
  · rintro ⟨cost', hcost, hothers, rfl⟩
    refine ⟨_, hcost, ?_⟩
    dsimp only
    rw [Run.outcome_refuse_eq_ok]
    exact ⟨by simp [hothers], rfl⟩

theorem update_constrained_eq_ok {cost : QuadraticCost α n m} {cs : ConstraintSet α n m} :
    ((constrained cost cs).update changes).outcome = .ok ⟨n', m', o'⟩ ↔ ∃ cost' cs',
      cost.replace (changes.filterMap ObjectiveField.costField?) = .ok ⟨n', m', cost'⟩ ∧
      ((changes.filter fun f => f.costField?.isNone).filter ObjectiveField.isUnknown) = [] ∧
      ((((changes.filter fun f => f.costField?.isNone).filterMap
        ObjectiveField.constraintField?).foldl ConstraintDraft.set (.ofSet cs)).Describes α cs') ∧
      cs'.goal = cost'.xf ∧ o' = .constrained cost' cs' := by
  simp only [update, Run.outcome_bind_eq_ok, Run.outcome_ofExcept]
  constructor
  · rintro ⟨⟨k, l, cost'⟩, hcost, h⟩
    dsimp only at h
    rw [Run.outcome_refuse_eq_ok] at h
    obtain ⟨hunknown, h⟩ := h
    obtain ⟨cs', hcs, h⟩ := Run.outcome_bind_eq_ok.1 h
    cases h
    obtain ⟨hgoal, hdescribes⟩ := ConstraintDraft.build_eq_ok.1 hcs
    rw [ConstraintDraft.goalState_ofVec] at hgoal
    exact ⟨cost', cs', hcost, by simpa using hunknown, hdescribes, (Except.ok.inj hgoal).symm, rfl⟩
  · rintro ⟨cost', cs', hcost, hunknown, hdescribes, hgoal, rfl⟩
    refine ⟨_, hcost, ?_⟩
    dsimp only
    rw [Run.outcome_refuse_eq_ok]
    refine ⟨by simp [hunknown], Run.outcome_bind_eq_ok.2 ⟨cs', ?_, rfl⟩⟩
    exact ConstraintDraft.build_eq_ok.2
      ⟨(ConstraintDraft.goalState_ofVec _).trans (by rw [hgoal]), hdescribes⟩

theorem isBuilt_of_update (h : (o.update changes).outcome = .ok ⟨n', m', o'⟩) : o'.IsBuilt := by
  cases o with
  | unconstrained cost =>
    obtain ⟨cost', hcost, -, rfl⟩ := update_unconstrained_eq_ok.1 h
    exact ⟨_, _, hcost⟩
  | constrained cost cs =>
    obtain ⟨cost', cs', hcost, -, hdescribes, hgoal, rfl⟩ := update_constrained_eq_ok.1 h
    exact ⟨⟨_, _, hcost⟩, _, .ofVec cost'.xf, ConstraintDraft.build_eq_ok.2
      ⟨(ConstraintDraft.goalState_ofVec _).trans (by rw [hgoal]), hdescribes⟩⟩

end Building

section Frame

omit [Scalar α] in
/-- A name that no change has is not that of a change of the cost. -/
theorem fieldName_ne_of_costField (hname : ∀ f ∈ changes, f.fieldName? ≠ some name) :
    ∀ v ∈ changes.filterMap ObjectiveField.costField?, v.fieldName ≠ name := by
  rintro v hv rfl
  obtain ⟨f, hf, hfield⟩ := List.mem_filterMap.1 hv
  cases f <;> cases hfield
  exact hname _ hf rfl

omit [Scalar α] in
/-- A name that no change has is not that of a change of the constraints. -/
theorem fieldName_ne_of_constraintField (hname : ∀ f ∈ changes, f.fieldName? ≠ some name) :
    ∀ v ∈ (changes.filter fun f => f.costField?.isNone).filterMap ObjectiveField.constraintField?,
      v.fieldName ≠ name := by
  rintro v hv rfl
  obtain ⟨f, hf, hfield⟩ := List.mem_filterMap.1 hv
  cases f <;> cases hfield
  exact hname _ (List.mem_of_mem_filter hf) rfl

/-- A field that the changes do not name is the same after an update. -/
theorem field?_update (h : (o.update changes).outcome = .ok ⟨n', m', o'⟩)
    (hname : ∀ f ∈ changes, f.fieldName? ≠ some name) : o'.field? name = o.field? name := by
  have hcostName := fieldName_ne_of_costField hname
  cases o with
  | unconstrained cost =>
    obtain ⟨cost', hcost, -, rfl⟩ := update_unconstrained_eq_ok.1 h
    exact congrArg (·.or none) (QuadraticCost.field?_replace hcost hcostName)
  | constrained cost cs =>
    obtain ⟨cost', cs', hcost, -, hdescribes, -, rfl⟩ := update_constrained_eq_ok.1 h
    have hconstraints : cs'.field? name = cs.field? name :=
      ConstraintSet.field?_rebuild hdescribes (fieldName_ne_of_constraintField hname)
    exact congrArg₂ Option.or (QuadraticCost.field?_replace hcost hcostName) hconstraints

/-- Within the same dimensions, a function that the changes do not name is also adapted alike. -/
theorem function?_update {o' : Objective α n m} (ho : o.IsBuilt)
    (h : (o.update changes).outcome = .ok ⟨n, m, o'⟩)
    (hname : ∀ f ∈ changes, f.fieldName? ≠ some name) : o'.function? name = o.function? name := by
  cases o with
  | unconstrained cost =>
    obtain ⟨cost', -, -, rfl⟩ := update_unconstrained_eq_ok.1 h
    rfl
  | constrained cost cs =>
    obtain ⟨cost', cs', -, -, hdescribes, -, rfl⟩ := update_constrained_eq_ok.1 h
    obtain ⟨-, d, goal, hcs⟩ := ho
    exact ConstraintSet.function?_rebuild (ConstraintDraft.build_eq_ok.1 hcs).2 hdescribes
      (fieldName_ne_of_constraintField hname)

/-- An update leaves constraints where they are, and their goal is that of the new cost. -/
theorem goal?_update (h : (o.update changes).outcome = .ok ⟨n', m', o'⟩) :
    o'.isConstrained = o.isConstrained ∧ ∀ goal ∈ o'.goal?, goal = o'.cost.xf := by
  cases o with
  | unconstrained cost =>
    obtain ⟨cost', -, -, rfl⟩ := update_unconstrained_eq_ok.1 h
    exact ⟨rfl, nofun⟩
  | constrained cost cs =>
    obtain ⟨cost', cs', -, -, -, hgoal, rfl⟩ := update_constrained_eq_ok.1 h
    refine ⟨rfl, ?_⟩
    rintro goal ⟨⟩
    exact hgoal

/-- Unless the goal of the cost is named, an update keeps the goal of the constraints exactly if it
is that of the cost. -/
theorem goal?_update_iff (h : (o.update changes).outcome = .ok ⟨n', m', o'⟩)
    (hname : ∀ f ∈ changes, f.fieldName? ≠ some .xf) :
    o'.goal?.map Tensor.ofVec = o.goal?.map Tensor.ofVec ↔ ∀ goal ∈ o.goal?, goal = o.cost.xf := by
  have hxf : Tensor.ofVec o'.cost.xf = Tensor.ofVec o.cost.xf := by
    have hfield : o'.field? .xf = o.field? .xf := field?_update h hname
    exact FieldValue.array.inj (Option.some.inj hfield)
  cases o with
  | unconstrained cost =>
    obtain ⟨cost', -, -, rfl⟩ := update_unconstrained_eq_ok.1 h
    exact iff_of_true rfl nofun
  | constrained cost cs =>
    obtain ⟨cost', cs', -, -, -, hgoal, rfl⟩ := update_constrained_eq_ok.1 h
    have hgoal' : Tensor.ofVec cs'.goal = Tensor.ofVec cost.xf := by
      rw [hgoal]
      exact hxf
    simp only [goal?, constraints?, Option.map_some, Option.some.injEq, hgoal',
      Tensor.ofVec_injective.eq_iff, Option.mem_some_iff, forall_eq']
    exact eq_comm

/-- An update without changes only moves the constraints to the goal of the cost. -/
theorem update_nil [LawfulScalar α] (hone : ¬ (1 : α) < 0) (ho : o.IsBuilt) :
    (o.update []).outcome = .ok ⟨n, m, o.retarget⟩ := by
  obtain ⟨d, builder, hcost⟩ := ho.cost
  have hreplace := (QuadraticCost.valid_of_build hone hcost).replace_nil
  cases o with
  | unconstrained cost => exact update_unconstrained_eq_ok.2 ⟨cost, hreplace, rfl, rfl⟩
  | constrained cost cs =>
    obtain ⟨-, d, goal, hcs⟩ := ho
    exact update_constrained_eq_ok.2 ⟨cost, { cs with goal := cost.xf }, hreplace, rfl,
      (ConstraintDraft.build_eq_ok.1 hcs).2.ofSet cost.xf, rfl, rfl⟩

/-- A final time that the cost may have is accepted. It comes with a move of the constraints to the
goal of the cost. -/
theorem update_time {cost : QuadraticCost α n m} {cs : ConstraintSet α n m} {t : α} (text : String)
    (hvalid : ({ cost with tf := t } : QuadraticCost α n m).Valid) (hcs : cs.IsBuilt) :
    ((constrained cost cs).update [.cost text (.tf (.time t))]).outcome =
      .ok ⟨n, m, .constrained { cost with tf := t } { cs with goal := cost.xf }⟩ := by
  obtain ⟨d, goal, hcs⟩ := hcs
  exact update_constrained_eq_ok.2 ⟨_, _, hvalid.replace_nil, rfl,
    (ConstraintDraft.build_eq_ok.1 hcs).2.ofSet cost.xf, rfl, rfl⟩

/-- Without changes, every stage has the same constraint values; so has the final state, unless the
goal is one of the constraints and not that of the cost. -/
theorem values_retarget {cs : ConstraintSet α n m} (hcs : o.constraints? = some cs) :
    ∃ cs', o.retarget.constraints? = some cs' ∧
      (∀ x u, (cs'.stage x u).toList = (cs.stage x u).toList) ∧
      (cs.useTerminal = false ∨ cs.goal = o.cost.xf →
        ∀ x, (cs'.terminal x).toList = (cs.terminal x).toList) := by
  cases o with
  | unconstrained cost => cases hcs
  | constrained cost cs =>
    cases hcs
    refine ⟨_, rfl, fun x u => rfl, ?_⟩
    rintro (huse | hgoal) x
    · have hrows : ({ cs with goal := cost.xf } : ConstraintSet α n m).terminalRows =
          cs.terminalRows := by
        simp only [ConstraintSet.terminalRows, huse]
        rfl
      simp only [ConstraintSet.terminal, Vec.mapList, Vector.toList_mk]
      rw [hrows]
    · rw [show cost.xf = cs.goal from hgoal.symm]

end Frame

/-- An update, whatever it names, leaves an objective with or without constraints as it is in this,
and every field that it does not name. The goal of the constraints becomes that of the cost, so it
is kept exactly if it was that already. An update that names nothing is always accepted, and changes
nothing else. -/
theorem update_eq [LawfulScalar α] (hone : ¬ (1 : α) < 0) (ho : o.IsBuilt) :
    (∀ (changes : List (ObjectiveField α)) (n' m' : Nat) (o' : Objective α n' m'),
      (o.update changes).outcome = .ok ⟨n', m', o'⟩ →
      o'.IsBuilt ∧ o'.isConstrained = o.isConstrained ∧
      (∀ name, (∀ f ∈ changes, f.fieldName? ≠ some name) → o'.field? name = o.field? name ∧
        (n' = n → m' = m → o'.function? name = o.function? name)) ∧
      (∀ goal ∈ o'.goal?, goal = o'.cost.xf) ∧
      ((∀ f ∈ changes, f.fieldName? ≠ some .xf) →
        (o'.goal?.map Tensor.ofVec = o.goal?.map Tensor.ofVec ↔
          ∀ goal ∈ o.goal?, goal = o.cost.xf))) ∧
    (o.update []).outcome = .ok ⟨n, m, o.retarget⟩ ∧
    ∀ cs, o.constraints? = some cs → ∃ cs', o.retarget.constraints? = some cs' ∧
      (∀ x u, (cs'.stage x u).toList = (cs.stage x u).toList) ∧
      (cs.useTerminal = false ∨ cs.goal = o.cost.xf →
        ∀ x, (cs'.terminal x).toList = (cs.terminal x).toList) := by
  refine ⟨fun changes n' m' o' h => ?_, update_nil hone ho, fun cs hcs => values_retarget hcs⟩
  refine ⟨isBuilt_of_update h, (goal?_update h).1, fun name hname => ⟨field?_update h hname, ?_⟩,
    (goal?_update h).2, goal?_update_iff h⟩
  rintro rfl rfl
  exact function?_update ho h hname

end Objective

namespace PointMass

theorem isBuilt_cost : cost.IsBuilt := by
  have hvalid : cost.Valid := by constructor <;> decide +kernel
  exact ⟨_, _, hvalid.replace_nil⟩

/-- Bounds on the control of the point mass. -/
def boxDraft : ConstraintDraft Float where
  uMin := some (.array ⟨[], [-1]⟩)
  uMax := some (.array ⟨[], [1]⟩)

/-- Constraints of the point mass whose goal is not that of its cost. -/
theorem exists_distantGoal : ∃ cs : ConstraintSet Float 2 1,
    (boxDraft.build 2 1 (.ofVec #v[5, 5]) : Run (Event Float) (Error Float) _).outcome = .ok cs ∧
    (cs.terminal #v[1, 2]).toList = [-4, -3] ∧
    (({ cs with goal := cost.xf } : ConstraintSet Float 2 1).terminal #v[1, 2]).toList =
      [1, 2] := by
  have hrun : (boxDraft.build 2 1 (.ofVec #v[5, 5]) :
      Run (Event Float) (Error Float) _).outcome.toOption.any (fun cs =>
        decide ((cs.terminal #v[1, 2]).toList = [-4, -3]) &&
        decide ((({ cs with goal := cost.xf } : ConstraintSet Float 2 1).terminal
          #v[1, 2]).toList = [1, 2])) = true := by decide +kernel
  obtain ⟨cs, hcs, hrun⟩ := exists_ok_of_any hrun
  obtain ⟨hterminal, hterminal'⟩ := Bool.and_eq_true_iff.1 hrun
  exact ⟨cs, hcs, of_decide_eq_true hterminal, of_decide_eq_true hterminal'⟩

/-- A later final time leaves the weights of the point mass and the bounds on its control. -/
theorem update_of_finalTime : ∃ (cs : ConstraintSet Float 2 1) (o o' : Objective Float 2 1),
    Objective.pair cost ⟨2, 1, cs⟩ = .ok o ∧ ¬ (1 : Float) < 0 ∧ o.IsBuilt ∧
    (o.update [.cost "tf" (.tf (.time 3))]).outcome = .ok ⟨2, 1, o'⟩ ∧
    o'.field? .Q = o.field? .Q ∧ o'.field? .uMax = o.field? .uMax := by
  have hone : ¬ (1 : Float) < 0 := by decide +kernel
  obtain ⟨cs, hcs, -⟩ := exists_distantGoal
  have hbuilt : (Objective.constrained cost cs).IsBuilt := ⟨isBuilt_cost, _, _, hcs⟩
  have hlater : ({ cost with tf := 3 } : QuadraticCost Float 2 1).Valid := by
    constructor <;> decide +kernel
  have hupdate := Objective.update_time "tf" hlater hbuilt.2
  obtain ⟨-, -, hfields, -, -⟩ := (Objective.update_eq hone hbuilt).1 _ _ _ _ hupdate
  have hnamed : ∀ f ∈ [(.cost "tf" (.tf (.time 3)) : ObjectiveField Float)],
      f.fieldName? = some .tf := by
    rintro f hf
    rw [List.mem_singleton.1 hf]
    rfl
  have hother (name : FieldName) (hname : name ≠ .tf) :=
    (hfields name fun f hf h => hname (Option.some.inj (h.symm.trans (hnamed f hf)))).1
  exact ⟨cs, .constrained cost cs, _, rfl, hone, hbuilt, hupdate, hother .Q nofun, hother .uMax nofun⟩

/-- An update that names nothing moves the terminal constraint of the point mass to the goal of its
cost. -/
theorem terminal_of_distantGoal : ∃ (cs cs' : ConstraintSet Float 2 1) (o o' : Objective Float 2 1),
    cost.IsBuilt ∧
    (boxDraft.build 2 1 (.ofVec #v[5, 5]) : Run (Event Float) (Error Float) _).outcome = .ok cs ∧
    Objective.pair cost ⟨2, 1, cs⟩ = .ok o ∧ (o.update []).outcome = .ok ⟨2, 1, o'⟩ ∧
    o.constraints? = some cs ∧ (cs.terminal #v[1, 2]).toList = [-4, -3] ∧
    o'.constraints? = some cs' ∧ (cs'.terminal #v[1, 2]).toList = [1, 2] := by
  obtain ⟨cs, hcs, hterminal, hterminal'⟩ := exists_distantGoal
  have hbuilt : (Objective.constrained cost cs).IsBuilt := ⟨isBuilt_cost, _, _, hcs⟩
  exact ⟨cs, _, .constrained cost cs, _, isBuilt_cost, hcs, rfl,
    Objective.update_nil (by decide +kernel) hbuilt, rfl, hterminal, rfl, hterminal'⟩

end PointMass

end TrajOpt
