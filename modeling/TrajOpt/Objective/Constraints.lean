import TrajOpt.Function.Adapted
import TrajOpt.Linear.Tensor

/-!
# Constraint sets

Controls and states may be bounded, stages and the final state may have further inequalities
`c ≤ 0` and equalities `c = 0`, and the final state may be required to be the goal. All of these are
entries of two constraint vectors, one for each stage and one for the final state.

The layout of both vectors is a list of rows. A row tells which constraint the entry belongs to, and
the value, the derivative and the kind of the entry are functions on the row, so they cannot get out
of step.

## Main definitions

* `ConstraintSet`, `ConstraintSet.stageRows`, `ConstraintSet.terminalRows`.
* `ConstraintSet.stage`, `ConstraintSet.stageJacobians` - values and derivatives at a stage.
* `ConstraintSet.terminal`, `ConstraintSet.terminalJacobian` - the same for the final state.
* `ConstraintDraft.build` - the checks that turn named fields into a constraint set.
-/

namespace TrajOpt

/-- An entry of a constraint vector over `n` states and `m` controls. General constraints are
numbered within their function. -/
inductive ConstraintRow (α : Type) (n m : Nat) where
  | controlAbove (i : Fin m) (bound : α)
  | controlBelow (i : Fin m) (bound : α)
  | stateAbove (i : Fin n) (bound : α)
  | stateBelow (i : Fin n) (bound : α)
  | inequality (j : Nat)
  | equality (j : Nat)
  | goal (i : Fin n) (target : α)

namespace ConstraintRow

variable {α : Type} {n m : Nat}

/-- Whether the entry has to be zero; otherwise it must not be positive. -/
def isEquality : ConstraintRow α n m → Bool
  | equality _ | goal _ _ => true
  | _ => false

variable [Arith α]

/-- The value of the entry, from the state, the control and the values of the general
constraints. -/
def value (x : Vec α n) (u : Vec α m) (inequalities equalities : Array α) :
    ConstraintRow α n m → α
  | controlAbove i bound => u.get i - bound
  | controlBelow i bound => bound - u.get i
  | stateAbove i bound => x.get i - bound
  | stateBelow i bound => bound - x.get i
  | inequality j => inequalities[j]?.getD 0
  | equality j => equalities[j]?.getD 0
  | goal i target => x.get i - target

/-- The vector with one in place `i` and zero elsewhere. -/
def unit {k : Nat} (i : Fin k) : Vec α k := Vector.ofFn fun j => if i = j then 1 else 0

/-- The derivative of the entry along the state, from that of the general constraints. -/
def stateDerivative (inequalities equalities : Array (Vec α n)) : ConstraintRow α n m → Vec α n
  | controlAbove _ _ | controlBelow _ _ => Vec.zero n
  | stateAbove i _ | goal i _ => unit i
  | stateBelow i _ => -unit i
  | inequality j => inequalities[j]?.getD (Vec.zero n)
  | equality j => equalities[j]?.getD (Vec.zero n)

/-- The derivative of the entry along the control, from that of the general constraints. -/
def controlDerivative (inequalities equalities : Array (Vec α m)) : ConstraintRow α n m → Vec α m
  | controlAbove i _ => unit i
  | controlBelow i _ => -unit i
  | stateAbove _ _ | stateBelow _ _ | goal _ _ => Vec.zero m
  | inequality j => inequalities[j]?.getD (Vec.zero m)
  | equality j => equalities[j]?.getD (Vec.zero m)

end ConstraintRow

/-- The constraints of a problem with `n` states and `m` controls. A bound that is `none` does not
restrict anything. -/
structure ConstraintSet (α : Type) (n m : Nat) where
  goal : Vec α n
  uMin : Vec (Option α) m
  uMax : Vec (Option α) m
  xMin : Vec (Option α) n
  xMax : Vec (Option α) n
  cI : Option (Adapted α)
  cE : Option (Adapted α)
  cIN : Option (Adapted α)
  cEN : Option (Adapted α)
  useTerminal : Bool

namespace ConstraintSet

variable {α : Type} {n m : Nat}

/-- One row for every bound that restricts something. -/
def boundRows {k : Nat} {β : Type} (row : Fin k → α → β) (bounds : Vec (Option α) k) : List β :=
  (List.finRange k).filterMap fun i => (bounds.get i).map (row i)

/-- The number of values of a function, zero if there is none. -/
def sizeOf (f : Option (Adapted α)) : Nat := (f.map Adapted.size).getD 0

/-- What every call of a function raises, nothing if there is none. -/
def faultOf (f : Option (Adapted α)) (lengths : List (Option Nat)) : Option Fault :=
  f.bind fun f => f.fault? lengths

/-- What evaluating the constraints raises: those of the stages come first. -/
def fault? (cs : ConstraintSet α n m) : Option Fault :=
  let stage := [some n, some m]
  let final := [some n]
  (faultOf cs.cI stage).or <| (faultOf cs.cE stage).or <|
    (faultOf cs.cIN final).or (faultOf cs.cEN final)

/-- The rows for the bounds of the state. -/
def stateRows {k : Nat} (cs : ConstraintSet α n m) : List (ConstraintRow α n k) :=
  boundRows .stateAbove cs.xMax ++ boundRows .stateBelow cs.xMin

/-- The entries of the constraint vector of a stage: inequalities first, equalities last. -/
def stageRows (cs : ConstraintSet α n m) : List (ConstraintRow α n m) :=
  boundRows .controlAbove cs.uMax ++ boundRows .controlBelow cs.uMin ++ cs.stateRows ++
    (List.range (sizeOf cs.cI)).map .inequality ++ (List.range (sizeOf cs.cE)).map .equality

/-- The entries of the constraint vector of the final state, which has no control. -/
def terminalRows (cs : ConstraintSet α n m) : List (ConstraintRow α n 0) :=
  cs.stateRows ++ (List.range (sizeOf cs.cIN)).map .inequality ++
    (List.range (sizeOf cs.cEN)).map .equality ++
    if cs.useTerminal then (List.finRange n).map fun i => .goal i (cs.goal.get i) else []

/-- The number of entries of the constraint vector of a stage. -/
abbrev p (cs : ConstraintSet α n m) : Nat := cs.stageRows.length

/-- The number of entries of the constraint vector of the final state. -/
abbrev q (cs : ConstraintSet α n m) : Nat := cs.terminalRows.length

/-- The number of inequalities among the rows. -/
def inequalities {k : Nat} (rows : List (ConstraintRow α n k)) : Nat :=
  rows.countP fun row => !row.isEquality

/-- The entries of the constraint vector of a stage that are equalities. -/
def isEquality (cs : ConstraintSet α n m) : Vec Bool cs.p :=
  Vec.mapList ConstraintRow.isEquality cs.stageRows

/-- The entries of the constraint vector of the final state that are equalities. -/
def isEqualityN (cs : ConstraintSet α n m) : Vec Bool cs.q :=
  Vec.mapList ConstraintRow.isEquality cs.terminalRows

variable [Scalar α]

/-- The values of a function, none if there is no function. -/
def valuesOf (f : Option (Adapted α)) (args : Args α) : Array α :=
  match f with
  | some f => (f.value id args).toArray
  | none => #[]

/-- The derivatives of a function along argument `k`, one vector for each value. -/
def derivativesOf (f : Option (Adapted α)) (args : Args α) (varying : List Nat) (k size : Nat) :
    Array (Vec α size) :=
  match f with
  | some f =>
    ((f.jacobian args varying k).map fun row =>
      (Vector.ofFn fun j : Fin size => row[j.val]?.getD 0)).toArray
  | none => #[]

/-- The arguments of a stage constraint. -/
def stageArgs (x : Vec α n) (u : Vec α m) : Args α := [.vector x.toList, .vector u.toList]

/-- The arguments of a terminal constraint. -/
def terminalArgs (x : Vec α n) : Args α := [.vector x.toList]

/-- The constraint vector of a stage. -/
def stage (cs : ConstraintSet α n m) (x : Vec α n) (u : Vec α m) : Vec α cs.p :=
  let args := stageArgs x u
  let vI := valuesOf cs.cI args
  let vE := valuesOf cs.cE args
  Vec.mapList (ConstraintRow.value x u vI vE) cs.stageRows

/-- The constraint vector of the final state. -/
def terminal (cs : ConstraintSet α n m) (x : Vec α n) : Vec α cs.q :=
  let args := terminalArgs x
  let vI := valuesOf cs.cIN args
  let vE := valuesOf cs.cEN args
  Vec.mapList (ConstraintRow.value x Vec.empty vI vE) cs.terminalRows

/-- The derivatives of the constraint vector of a stage along the state and the control. -/
def stageJacobians (cs : ConstraintSet α n m) (x : Vec α n) (u : Vec α m) :
    Mat α cs.p n × Mat α cs.p m :=
  let args := stageArgs x u
  let xI := derivativesOf cs.cI args [0, 1] 0 n
  let xE := derivativesOf cs.cE args [0, 1] 0 n
  let uI := derivativesOf cs.cI args [0, 1] 1 m
  let uE := derivativesOf cs.cE args [0, 1] 1 m
  (Vec.mapList (ConstraintRow.stateDerivative xI xE) cs.stageRows,
    Vec.mapList (ConstraintRow.controlDerivative uI uE) cs.stageRows)

/-- The derivative of the constraint vector of the final state. -/
def terminalJacobian (cs : ConstraintSet α n m) (x : Vec α n) : Mat α cs.q n :=
  let args := terminalArgs x
  let xI := derivativesOf cs.cIN args [0] 0 n
  let xE := derivativesOf cs.cEN args [0] 0 n
  Vec.mapList (ConstraintRow.stateDerivative xI xE) cs.terminalRows

/-- One line that describes the constraint set. -/
def text (cs : ConstraintSet α n m) : String :=
  let p := cs.p
  let pI := inequalities cs.stageRows
  let pN := cs.q
  let pIN := inequalities cs.terminalRows
  let terminal := (Numeral.truth cs.useTerminal).text
  s!"ConstraintSet(p={p}, pI={pI}, p_N={pN}, pI_N={pIN}, use_terminal_constraint={terminal})"

end ConstraintSet

/-- A bound as it is given: an array, or the bounds of a set that is built anew. -/
inductive BoundInput (α : Type) where
  | array (value : Tensor α)
  | kept (bounds : List (Option α))

/-- One entry of a bound: a number, no restriction, or what no number can satisfy. -/
inductive Limit (α : Type) where
  | at (value : α)
  | free
  | impossible

namespace Limit

variable {α : Type} [Scalar α]

/-- An upper bound: plus infinity does not restrict, and no number is below minus infinity or below
what is not a number. -/
def upper (a : α) : Limit α :=
  if Scalar.isFinite a then .at a else if 0 < a then free else impossible

/-- A lower bound, with the signs of infinity exchanged. -/
def lower (a : α) : Limit α :=
  if Scalar.isFinite a then .at a else if a < 0 then free else impossible

/-- The bound of a set that is built anew. -/
def ofOption : Option α → Limit α
  | some a => .at a
  | none => free

/-- The bound as a number, if it restricts anything. -/
def toOption : Limit α → Option α
  | .at a => some a
  | _ => none

/-- Whether an upper bound is above a lower bound. -/
def isAbove (upper lower : Limit α) : Bool :=
  match upper, lower with
  | .at a, .at b => decide (b < a)
  | impossible, _ | _, impossible => false
  | _, _ => true

end Limit

namespace BoundInput

variable {α ν : Type} [Scalar α]

/-- The bound for each of `k` entries; a single number counts for all of them. -/
def resolve (what : String) (k : Nat) (limit : α → Limit α) (bound : Option (BoundInput α)) :
    Except (Error ν) (Vec (Limit α) k) :=
  match bound with
  | none => .ok (Vec.const k .free)
  | some (.kept bounds) =>
    match Vec.ofList? k (bounds.map Limit.ofOption) with
    | some v => .ok v
    | none => .error (.vectorShape what k [bounds.length])
  | some (.array t) =>
    match t.toNumber?, t.toVec? k with
    | some a, _ => .ok (Vec.const k (limit a))
    | _, some v => .ok (v.map limit)
    | _, _ => .error (.vectorShape what k t.shape)

/-- The indices at which an upper bound is not above the lower one. -/
def crossed {k : Nat} (lower upper : Vec (Limit α) k) : List Nat :=
  ((List.finRange k).filter fun i => !(upper.get i).isAbove (lower.get i)).map Fin.val

end BoundInput

/-- One named field of a constraint set. -/
inductive ConstraintField (α : Type) where
  | uMin (value : Tensor α)
  | uMax (value : Tensor α)
  | xMin (value : Tensor α)
  | xMax (value : Tensor α)
  | cI (value : Option (UserFunction α))
  | cE (value : Option (UserFunction α))
  | cIN (value : Option (UserFunction α))
  | cEN (value : Option (UserFunction α))
  | useTerminal (value : Bool)

/-- The name of a field. -/
def ConstraintField.text {α : Type} : ConstraintField α → String
  | uMin _ => "u_min"
  | uMax _ => "u_max"
  | xMin _ => "x_min"
  | xMax _ => "x_max"
  | cI _ => "cI"
  | cE _ => "cE"
  | cIN _ => "cI_N"
  | cEN _ => "cE_N"
  | useTerminal _ => "use_terminal_constraint"

/-- The names of all fields, in order. -/
def constraintFieldNames : List String :=
  ["cE", "cE_N", "cI", "cI_N", "u_max", "u_min", "use_terminal_constraint", "x_max", "x_min"]

/-- The named fields of a constraint set as far as they are given. -/
structure ConstraintDraft (α : Type) where
  uMin : Option (BoundInput α) := none
  uMax : Option (BoundInput α) := none
  xMin : Option (BoundInput α) := none
  xMax : Option (BoundInput α) := none
  cI : Option (UserFunction α) := none
  cE : Option (UserFunction α) := none
  cIN : Option (UserFunction α) := none
  cEN : Option (UserFunction α) := none
  useTerminal : Bool := true

namespace ConstraintDraft

variable {α ν : Type}

/-- The draft with one field given anew. -/
def set (d : ConstraintDraft α) : ConstraintField α → ConstraintDraft α
  | .uMin v => { d with uMin := some (.array v) }
  | .uMax v => { d with uMax := some (.array v) }
  | .xMin v => { d with xMin := some (.array v) }
  | .xMax v => { d with xMax := some (.array v) }
  | .cI v => { d with cI := v }
  | .cE v => { d with cE := v }
  | .cIN v => { d with cIN := v }
  | .cEN v => { d with cEN := v }
  | .useTerminal v => { d with useTerminal := v }

/-- The draft of the given fields. -/
def ofFields (fields : List (ConstraintField α)) : ConstraintDraft α := fields.foldl set {}

/-- The draft that rebuilds a constraint set. The goal is not part of it. -/
def ofSet {n m : Nat} (cs : ConstraintSet α n m) : ConstraintDraft α where
  uMin := some (.kept cs.uMin.toList)
  uMax := some (.kept cs.uMax.toList)
  xMin := some (.kept cs.xMin.toList)
  xMax := some (.kept cs.xMax.toList)
  cI := cs.cI.map Adapted.source
  cE := cs.cE.map Adapted.source
  cIN := cs.cIN.map Adapted.source
  cEN := cs.cEN.map Adapted.source
  useTerminal := cs.useTerminal

variable [Scalar α]

/-- A goal: a vector of `n` entries, or one number for all of them. -/
def goalState (t : Tensor α) (n : Nat) : Except (Error ν) (Vec α n) :=
  match t.toNumber?, t.toVec? n with
  | some a, _ => .ok (Vec.const n a)
  | _, some v => .ok v
  | _, _ => .error (.vectorShape "xf" n t.shape)

/-- A constraint function, adapted at the probe. -/
def adaptOptional (f : Option (UserFunction α)) (probe : Args α) (name : String) :
    Run (Event α) (Error ν) (Option (Adapted α)) :=
  match f with
  | none => pure none
  | some f => some <$> adapt f probe name none

/-- The constraint set for `n` states and `m` controls that the fields describe. Bounds are checked
before the functions are tried out at zero. -/
def build (d : ConstraintDraft α) (n m : Nat) (goal : Tensor α) :
    Run (Event α) (Error ν) (ConstraintSet α n m) := do
  let goal ← Run.ofExcept (goalState goal n)
  let uMin ← Run.ofExcept (BoundInput.resolve "u_min" m Limit.lower d.uMin)
  let uMax ← Run.ofExcept (BoundInput.resolve "u_max" m Limit.upper d.uMax)
  let xMin ← Run.ofExcept (BoundInput.resolve "x_min" n Limit.lower d.xMin)
  let xMax ← Run.ofExcept (BoundInput.resolve "x_max" n Limit.upper d.xMax)
  let crossedU := BoundInput.crossed uMin uMax
  if !crossedU.isEmpty then Run.fail (.emptyBox "u" crossedU)
  let crossedX := BoundInput.crossed xMin xMax
  if !crossedX.isEmpty then Run.fail (.emptyBox "x" crossedX)
  let x : Arg α := .vector (List.replicate n 0)
  let u : Arg α := .vector (List.replicate m 0)
  let cI ← adaptOptional d.cI [x, u] "cI"
  let cE ← adaptOptional d.cE [x, u] "cE"
  let cIN ← adaptOptional d.cIN [x] "cI_N"
  let cEN ← adaptOptional d.cEN [x] "cE_N"
  return {
    goal
    uMin := uMin.map Limit.toOption
    uMax := uMax.map Limit.toOption
    xMin := xMin.map Limit.toOption
    xMax := xMax.map Limit.toOption
    cI, cE, cIN, cEN
    useTerminal := d.useTerminal }

end ConstraintDraft

end TrajOpt
