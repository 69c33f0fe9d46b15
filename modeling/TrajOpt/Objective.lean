import TrajOpt.Objective.Constraints
import TrajOpt.Objective.Cost

/-!
# Objectives

An objective is a quadratic cost, with or without a constraint set. It is built from named fields,
and a changed objective is built anew from the fields that it consists of and the changed ones.

## Main definitions

* `Objective` - a cost, alone or with constraints.
* `Objective.create`, `Objective.constrain`, `Objective.pair` - the ways to build one.
* `Objective.update` - an objective with some fields changed.
-/

namespace TrajOpt

/-- A quadratic cost, alone or with constraints. -/
inductive Objective (α : Type) (n m : Nat) where
  | unconstrained (cost : QuadraticCost α n m)
  | constrained (cost : QuadraticCost α n m) (constraints : ConstraintSet α n m)

/-- One named field of an objective. -/
inductive ObjectiveField (α : Type) where
  | cost (name : String) (field : CostField α)
  | constraint (field : ConstraintField α)
  | unknown (name : String)

namespace ObjectiveField

variable {α : Type}

/-- The name of a field. -/
def text : ObjectiveField α → String
  | cost name _ => name
  | constraint field => field.text
  | unknown name => name

/-- The field of the cost that this is. -/
def costField? : ObjectiveField α → Option (CostField α)
  | cost _ field => some field
  | _ => none

/-- The field of the constraint set that this is. -/
def constraintField? : ObjectiveField α → Option (ConstraintField α)
  | constraint field => some field
  | _ => none

/-- Whether this is a field that no objective has. -/
def isUnknown : ObjectiveField α → Bool
  | unknown _ => true
  | _ => false

/-- The names of the fields in increasing order. -/
def names (fields : List (ObjectiveField α)) : List String :=
  (fields.map text).mergeSort fun a b => a ≤ b

end ObjectiveField

namespace Objective

variable {α : Type} {n m : Nat}

/-- The cost of an objective. -/
def cost : Objective α n m → QuadraticCost α n m
  | unconstrained cost => cost
  | constrained cost _ => cost

/-- The constraints of an objective, if it has any. -/
def constraints? : Objective α n m → Option (ConstraintSet α n m)
  | unconstrained _ => none
  | constrained _ constraints => some constraints

/-- Whether the objective has constraints. -/
def isConstrained (o : Objective α n m) : Bool := o.constraints?.isSome

variable [Scalar α]

/-- The first of the fields that are not fields of a cost. -/
def foreignToCost? (fields : List (ObjectiveField α)) : Option String :=
  (fields.find? fun f => f.costField?.isNone).map ObjectiveField.text

/-- The cost that the fields describe. A field that a cost does not have is an error. -/
def costOf (fields : List (ObjectiveField α)) (builder : Builder) :
    Except (Error α) (Sized (QuadraticCost α)) :=
  match foreignToCost? fields with
  | some name => .error (.unexpectedField builder name)
  | none => (CostDraft.ofFields (fields.filterMap ObjectiveField.costField?)).build builder

/-- The cost with the given fields changed. -/
def replaceCost (cost : QuadraticCost α n m) (changes : List (ObjectiveField α)) :
    Except (Error α) (Sized (QuadraticCost α)) :=
  if (foreignToCost? changes).isSome then .error .unusableArguments
  else cost.replace (changes.filterMap ObjectiveField.costField?)

/-- What is wrong with a field that is not a field of a constraint set: it is given already, or
there is no such field. -/
def foreignToConstraints {ν : Type} (name : String) : Error ν :=
  if ["self", "n", "m", "xf"].contains name then .repeatedField .constraints name
  else .unexpectedField .constraints name

/-- The constraint set that the fields describe. The first field that a constraint set does not have
is an error. -/
def constraintsOf (n m : Nat) (goal : Tensor α) (fields : List (ObjectiveField α)) :
    Run (Event α) (Error α) (ConstraintSet α n m) :=
  match fields.find? fun f => f.constraintField?.isNone with
  | some f => Run.fail (foreignToConstraints f.text)
  | none =>
    (ConstraintDraft.ofFields (fields.filterMap ObjectiveField.constraintField?)).build n m goal

/-- The constraints of the given fields for a cost, whose goal is that of the cost. -/
def constraintsFor (cost : QuadraticCost α n m) (fields : List (ObjectiveField α)) :
    Run (Event α) (Error α) (ConstraintSet α n m) :=
  constraintsOf n m (.ofVec cost.xf) fields

/-- The objective without constraints that the fields describe. -/
def createUnconstrained (fields : List (ObjectiveField α)) :
    Run (Event α) (Error α) (Sized (Objective α)) := do
  let ⟨n, m, cost⟩ ← Run.ofExcept (costOf fields .unconstrained)
  return ⟨n, m, .unconstrained cost⟩

/-- The objective with constraints that the fields describe: those that a cost does not have belong
to the constraint set. -/
def createConstrained (fields : List (ObjectiveField α)) :
    Run (Event α) (Error α) (Sized (Objective α)) := do
  let draft := CostDraft.ofFields (fields.filterMap ObjectiveField.costField?)
  let ⟨n, m, cost⟩ ← Run.ofExcept (draft.build .constrained)
  let cs ← constraintsFor cost (fields.filter fun f => f.costField?.isNone)
  return ⟨n, m, .constrained cost cs⟩

/-- The cost of an objective with constraints of the given fields. -/
def constrain (o : Objective α n m) (fields : List (ObjectiveField α)) :
    Run (Event α) (Error α) (Objective α n m) := do
  return .constrained o.cost (← constraintsFor o.cost fields)

/-- A cost with a constraint set that was built on its own; the dimensions have to agree. -/
def pair (cost : QuadraticCost α n m) (cs : Sized (ConstraintSet α)) :
    Except (Error α) (Objective α n m) :=
  if h : cs.n = n ∧ cs.m = m then
    .ok (.constrained cost (h.1 ▸ h.2 ▸ cs.value))
  else .error (.dimensionsDiffer .constraintsOfCost cs.n cs.m n m)

/-- The objective with some fields given anew, checked again. The goal of the constraints is that of
the new cost. -/
def update (o : Objective α n m) (changes : List (ObjectiveField α)) :
    Run (Event α) (Error α) (Sized (Objective α)) := do
  let others := changes.filter fun f => f.costField?.isNone
  let ⟨n', m', cost⟩ ← Run.ofExcept (o.cost.replace (changes.filterMap ObjectiveField.costField?))
  match o with
  | unconstrained _ =>
    if !others.isEmpty then Run.fail (.unknownFields (ObjectiveField.names others) false)
    return ⟨n', m', .unconstrained cost⟩
  | constrained _ cs =>
    let unknown := others.filter ObjectiveField.isUnknown
    if !unknown.isEmpty then Run.fail (.unknownFields (ObjectiveField.names unknown) true)
    let draft := (others.filterMap ObjectiveField.constraintField?).foldl ConstraintDraft.set
      (.ofSet cs)
    return ⟨n', m', .constrained cost (← draft.build n' m' (.ofVec cost.xf))⟩

end Objective

end TrajOpt
