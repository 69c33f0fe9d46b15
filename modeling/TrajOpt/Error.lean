import TrajOpt.Number.Numeral
import TrajOpt.Text.Listing

/-!
# Errors

Models, objectives, options and solvers are checked when they are built. What is wrong is a value of
`Error`, which holds the data of the case; the class of an error and its wording are functions on
these values. Counts are kept as they were given; other numbers are of a type `ν`.

## Main definitions

* `Error`, `Error.kind`, `Error.message` - the cases, their classes and their texts.
* `Fault` - what a function supplied by the user raises.
-/

namespace TrajOpt

/-- What a function supplied by the user raises: the name of its kind, the names of the wider kinds
that it belongs to, and a text. -/
structure Fault where
  kind : String
  wider : List String
  text : String
  deriving DecidableEq

namespace Fault

/-- The wider kinds of those kinds that come under an index or a type error without being named
so. -/
def widerKinds : String → List String
  | "ModelError" | "ConcretizationTypeError" | "TracerArrayConversionError"
  | "TracerBoolConversionError" | "TracerIntegerConversionError" | "UnexpectedTracerError" =>
    ["TypeError"]
  | "AxisError" => ["ValueError", "IndexError"]
  | "NonConcreteBooleanIndexError" => ["IndexError"]
  | _ => []

/-- What is raised with a text; a key that was not found is shown quoted. -/
def raised (kind text : String) : Fault :=
  ⟨kind, widerKinds kind, if kind == "KeyError" then Text.quoted text else text⟩

/-- An index outside an array of known size. -/
def outOfRange (index : Int) (size : Nat) : Fault :=
  raised "IndexError" s!"index {index} is out of bounds for axis 0 with size {size}"

/-- A call that does not fit the parameters of the function of the given name. -/
def misfit (name reason : String) : Fault := raised "TypeError" (name ++ "() " ++ reason)

/-- Whether a handler for `kind` catches the fault. -/
def isA (f : Fault) (kind : String) : Bool := (f.kind :: f.wider).contains kind

/-- An index outside its array. -/
def isIndexError (f : Fault) : Bool := f.isA "IndexError"

/-- A call that does not fit the parameters, or a mistake that looks like one. -/
def isTypeError (f : Fault) : Bool := f.isA "TypeError"

@[simp] theorem isIndexError_outOfRange (index : Int) (size : Nat) :
    (outOfRange index size).isIndexError = true := by
  simp [isIndexError, isA, outOfRange, raised]

@[simp] theorem isTypeError_misfit (name reason : String) :
    (misfit name reason).isTypeError = true := by
  simp [isTypeError, isA, misfit, raised]

end Fault

/-- What is built from named fields. -/
inductive Builder where
  | options
  | cost
  | unconstrained
  | constrained
  | constraints
  deriving DecidableEq

/-- The name under which a builder appears in messages. -/
def Builder.text : Builder → String
  | options => "SolverOptions.__init__()"
  | cost => "QuadraticCost.__init__()"
  | unconstrained => "UnconstrainedObjective.create()"
  | constrained => "ConstrainedObjective.create()"
  | constraints => "ConstraintSet.__init__()"

/-- The parts of a problem that have dimensions of their own. -/
inductive Part where
  | constraintsOfCost
  | objectiveOfModel
  deriving DecidableEq

/-- What can be wrong, with the data that the message shows. -/
inductive Error (ν : Type) where
  /-- The parameters fit neither of the two calling forms for `count` arguments. -/
  | callingForm (name : String) (count : Nat) (signature : String)
  /-- The function raised something when it was tried out. -/
  | probeFailed (name : String) (text : String)
  /-- The function does not return a vector. -/
  | outputShape (name : String) (shape : List Nat)
  /-- The function returns a vector of another length than required. -/
  | outputSize (name : String) (found : Nat) (expected : Int)
  /-- The function writes past the largest buffer. -/
  | outputUncounted (name : String) (largest : Nat)
  /-- The function raised something outside of every handler. -/
  | raised (fault : Fault)
  /-- A buffer of negative size. -/
  | negativeSize
  /-- An argument that does not exist or is not an array; a traced computation words it
  differently. -/
  | argumentIndex (traced : Bool)
  | jacobiansOfContinuous
  | dimension (what : String) (value : Numeral)
  | unknownScheme (name : String) (available : List String)
  | vectorShape (what : String) (expected : Nat) (shape : List Nat)
  | squareShape (what : String) (expected : Nat) (shape : List Nat)
  | emptyState (shape : List Nat)
  | controlWeightShape (shape : List Nat)
  | dimensionsDiffer (part : Part) (n m n' m' : Nat)
  | noInterval (count : Int)
  | pathShape (what : String) (rows columns : Nat) (shape : List Nat)
  | emptyBox (what : String) (indices : List Nat)
  | notSymmetric (what : String)
  | notSemidefinite (what : String)
  | notDefinite (what : String)
  | finalTimeText (text : String)
  | negative (what : String) (value : ν)
  | unknownFields (names : List String) (constrained : Bool)
  | intervalsRequired
  | emptyHorizon (count : Numeral)
  | unexpectedField (builder : Builder) (name : String)
  | repeatedField (builder : Builder) (name : String)
  | missingFields (builder : Builder) (names : List String)
  | unknownOptions (names : List String)
  | budget (name : String) (value : Numeral)
  | notPositive (name : String) (value : ν)
  | lineSearchBounds (lower upper : ν)
  | notAboveOne (name : String) (value : ν)
  | penaltyBounds
  | decreaseFraction (value : ν)
  | regularizationBounds
  | guessCount (count : Nat)
  | logFull (capacity : Int)
  | logIndex
  /-- A double that has no integer part. -/
  | noInteger (reason : Numeral.NoInteger)
  /-- A count that was not given as an integer. -/
  | notCountable
  /-- A tag of a history entry that does not exist. -/
  | unknownTag
  /-- Arguments that an operation cannot work with, such as arrays that do not fit together. -/
  | unusableArguments
  /-- A negative number of entries. -/
  | negativeLength
  /-- A loop that did not end within the steps that are followed. -/
  | endless

/-- The classes of errors. -/
inductive ErrorKind where
  | model
  | objective
  | dimension
  | value
  | type
  | runtime
  | index
  | overflow
  | raised (name : String)
  deriving DecidableEq

namespace Error

variable {ν μ : Type}

/-- The class of an error. -/
def kind : Error ν → ErrorKind
  | callingForm .. | probeFailed .. | outputShape .. | outputSize .. | outputUncounted ..
  | jacobiansOfContinuous => .model
  | raised fault => .raised fault.kind
  | dimension .. | vectorShape .. | squareShape .. | emptyState .. | controlWeightShape ..
  | dimensionsDiffer .. | noInterval .. | pathShape .. => .dimension
  | emptyBox .. | notSymmetric .. | notSemidefinite .. | notDefinite .. | finalTimeText ..
  | negative .. | unknownFields .. | intervalsRequired | emptyHorizon .. => .objective
  | unexpectedField .. | repeatedField .. | missingFields .. | unknownOptions .. | guessCount ..
  | notCountable | unusableArguments => .type
  | unknownScheme .. | budget .. | notPositive .. | lineSearchBounds .. | notAboveOne ..
  | penaltyBounds | decreaseFraction .. | regularizationBounds | unknownTag | negativeLength
  | negativeSize | argumentIndex true | noInteger .notANumber => .value
  | noInteger .infinite => .overflow
  | logFull .. | endless => .runtime
  | logIndex | argumentIndex false => .index

/-- The text of an error, for the errors that have one; `text` prints the numbers in it. -/
def message (text : ν → String) : Error ν → Option String
  | callingForm name count signature =>
    let next := count + 1
    some (s!"{name} must take {count} arguments (pure form) or {next} " ++
      s!"arguments (in-place form, output buffer first); got {signature}")
  | probeFailed name reason => some s!"{name} failed when called with probe inputs: {reason}"
  | outputShape name shape =>
      some (name ++ " must return a 1-D array, got shape " ++ Text.shape shape)
  | outputSize name found expected => some s!"{name} returns {found} values, expected {expected}"
  | outputUncounted name largest => some s!"{name} writes more than {largest} values"
  | raised fault => some fault.text
  | negativeSize => some "negative dimensions are not allowed"
  | argumentIndex false => some "tuple index out of range"
  | jacobiansOfContinuous => some "analytic jacobians are only supported for discrete models"
  | dimension what value => some (what ++ " must be a positive integer, got " ++ value.text)
  | unknownScheme name available =>
    some (s!"Unknown integration scheme '{name}'. Available: " ++
      Text.bracketed (available.map Text.quoted))
  | vectorShape what expected shape =>
    some (s!"{what} must have length {expected}, got shape " ++ Text.shape shape)
  | squareShape what expected shape =>
    some (s!"{what} must have shape ({expected}, {expected}), got " ++ Text.shape shape)
  | emptyState shape => some ("x0 must be a non-empty vector, got shape " ++ Text.shape shape)
  | controlWeightShape shape =>
    some ("R must be a non-empty square matrix, got shape " ++ Text.shape shape)
  | dimensionsDiffer .constraintsOfCost n m a b =>
    some s!"constraints are for n={n}, m={m} but the cost has n={a}, m={b}"
  | dimensionsDiffer .objectiveOfModel n m a b =>
    some s!"objective is for n={n}, m={m} but the model has n={a}, m={b}"
  | noInterval count => some s!"N must be >= 1, got {count}"
  | pathShape what rows columns shape =>
    some (s!"{what} must have shape ({rows}, {columns}), got " ++ Text.shape shape)
  | emptyBox what indices =>
    some (s!"{what}_max must be greater than {what}_min, violated at indices " ++
      Text.bracketed (indices.map toString))
  | notSymmetric what => some (what ++ " must be symmetric")
  | notSemidefinite what => some (what ++ " must be positive semi-definite")
  | notDefinite what => some (what ++ " must be positive definite")
  | finalTimeText given => some s!"tf must be a number or 'min', got '{given}'"
  | negative what value => some (what ++ " must be non-negative, got " ++ text value)
  | unknownFields names true =>
    some ("unknown objective fields: " ++ Text.bracketed (names.map Text.quoted))
  | unknownFields names false =>
    some ("unknown fields for an unconstrained objective: " ++
      Text.bracketed (names.map Text.quoted))
  | intervalsRequired =>
    some "minimum-time objectives (tf = 0) require the number of intervals N"
  | emptyHorizon count =>
    some ("the horizon must contain at least one interval, got N=" ++ count.text)
  | unexpectedField builder name =>
    some (builder.text ++ s!" got an unexpected keyword argument '{name}'")
  | repeatedField builder name =>
    some (builder.text ++ s!" got multiple values for argument '{name}'")
  | missingFields builder names =>
    let count := names.length
    let noun := if count = 1 then "argument" else "arguments"
    some (builder.text ++ s!" missing {count} required positional {noun}: " ++
      Text.conjunction (names.map fun name => s!"'{name}'"))
  | unknownOptions names =>
    some ("unknown solver options: " ++ Text.bracketed (names.map Text.quoted))
  | budget name value => some (name ++ " must be a positive integer, got " ++ value.text)
  | notPositive name value => some (name ++ " must be positive, got " ++ text value)
  | lineSearchBounds lower upper =>
    some ("line search bounds must satisfy 0 < c1 < c2, got " ++ text lower ++ ", " ++ text upper)
  | notAboveOne name value => some (name ++ " must be > 1, got " ++ text value)
  | penaltyBounds => some "penalty_max must be >= penalty_initial"
  | decreaseFraction value =>
    some ("constraint_decrease_ratio must be in (0, 1), got " ++ text value)
  | regularizationBounds =>
    some "regularization bounds must satisfy 0 <= initial, min < max"
  | guessCount count => some s!"solve() takes (U0) or (X0, U0), got {count} arguments"
  | logFull capacity => some s!"results log is full ({capacity} entries)"
  | logIndex => some "list index out of range"
  | noInteger .infinite => some "cannot convert float infinity to integer"
  | noInteger .notANumber => some "cannot convert float NaN to integer"
  | notCountable => some "'float' object cannot be interpreted as an integer"
  | argumentIndex true | unknownTag | unusableArguments | negativeLength | endless => none

/-- The same error with every number replaced. -/
def map (f : ν → μ) : Error ν → Error μ
  | callingForm name count signature => callingForm name count signature
  | probeFailed name text => probeFailed name text
  | outputShape name shape => outputShape name shape
  | outputSize name found expected => outputSize name found expected
  | outputUncounted name largest => outputUncounted name largest
  | raised fault => raised fault
  | negativeSize => negativeSize
  | argumentIndex traced => argumentIndex traced
  | jacobiansOfContinuous => jacobiansOfContinuous
  | dimension what value => dimension what value
  | unknownScheme name available => unknownScheme name available
  | vectorShape what expected shape => vectorShape what expected shape
  | squareShape what expected shape => squareShape what expected shape
  | emptyState shape => emptyState shape
  | controlWeightShape shape => controlWeightShape shape
  | dimensionsDiffer part n m a b => dimensionsDiffer part n m a b
  | noInterval count => noInterval count
  | pathShape what rows columns shape => pathShape what rows columns shape
  | emptyBox what indices => emptyBox what indices
  | notSymmetric what => notSymmetric what
  | notSemidefinite what => notSemidefinite what
  | notDefinite what => notDefinite what
  | finalTimeText text => finalTimeText text
  | negative what value => negative what (f value)
  | unknownFields names constrained => unknownFields names constrained
  | intervalsRequired => intervalsRequired
  | emptyHorizon count => emptyHorizon count
  | unexpectedField builder name => unexpectedField builder name
  | repeatedField builder name => repeatedField builder name
  | missingFields builder names => missingFields builder names
  | unknownOptions names => unknownOptions names
  | budget name value => budget name value
  | notPositive name value => notPositive name (f value)
  | lineSearchBounds lower upper => lineSearchBounds (f lower) (f upper)
  | notAboveOne name value => notAboveOne name (f value)
  | penaltyBounds => penaltyBounds
  | decreaseFraction value => decreaseFraction (f value)
  | regularizationBounds => regularizationBounds
  | guessCount count => guessCount count
  | logFull capacity => logFull capacity
  | logIndex => logIndex
  | noInteger reason => noInteger reason
  | notCountable => notCountable
  | unknownTag => unknownTag
  | unusableArguments => unusableArguments
  | negativeLength => negativeLength
  | endless => endless

end Error

end TrajOpt
