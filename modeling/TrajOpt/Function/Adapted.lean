import TrajOpt.Event
import TrajOpt.Function
import TrajOpt.Run

/-!
# Functions in one calling form

Before a function is used, its calling form is decided, it is tried out at probe arguments, and the
number of its values is found. The result is an `Adapted` function, which is called with the
arguments of the pure form and yields a vector of known length whatever the form of the function is.

The values of an in-place function are counted by running it on a buffer that holds nothing but
undefined numbers; the last entry that is a number afterwards is the last value. Larger buffers are
tried as long as the function runs out of the buffer.

## Main definitions

* `adapt` - decides the form, tries the function out and measures it.
* `Adapted.value`, `Adapted.fault?` - the values of an adapted function, and what a call raises.
* `Adapted.jacobian`, `centralDifference` - exact derivatives and central differences.
* `Args.replaced` - the arguments with another one at an index.
* `Selection`, `Callable.differencesAlong` - derivatives along one argument, or along several in
  order.
-/

namespace TrajOpt

/-- A function in the pure calling form with `size` values. -/
structure Adapted (α : Type) where
  name : String
  form : CallForm
  /-- Whether the function takes part in the traced computation and has exact derivatives. -/
  traceable : Bool
  size : Nat
  source : UserFunction α

namespace Adapted

variable {α β : Type}

/-- The values at arguments in `β`; missing ones are zero. -/
def value [Scalar β] (f : Adapted α) (embed : α → β) (args : Args β) : Vec β f.size :=
  let values := match f.form with
    | .pure => (f.source.returned embed args).toArray
    | .inplace => f.source.written embed (Array.replicate f.size 0) args
  Vector.ofFn fun i => values[i.val]?.getD 0

/-- What every call with arguments of the given lengths raises. A function outside of the traced
computation receives a buffer of its size, and without any values it is never called. -/
def fault? (f : Adapted α) (lengths : List (Option Nat)) : Option Fault :=
  if f.traceable then f.source.tracingFault? lengths
  else if f.size = 0 then none
  else match f.form with
    | .pure => f.source.fault? lengths
    | .inplace => f.source.fault? (some f.size :: lengths)

end Adapted

/-- The sizes of the buffers that are tried to count the values of an in-place function. -/
def bufferSizes : List Nat := [100, 1000, 10000, 100000]

section Adapt

variable {α ν : Type} [Scalar α]

/-- The number that stands for an entry that was not assigned. -/
def undefinedNumber : α := 0 / 0

/-- The calling form for `count` arguments, from the parameters if they are known. Otherwise the
function is called in the pure form, and only a call that does not fit selects the other form. -/
def callForm (f : UserFunction α) (name : String) (lengths : List (Option Nat)) :
    Except (Error ν) CallForm :=
  let count := lengths.length
  if f.inspectable then
    if f.parameters.accepts count then .ok .pure
    else if f.parameters.accepts (count + 1) then .ok .inplace
    else .error (.callingForm name count f.parameters.text)
  else
    match f.fault? lengths with
    | none => .ok .pure
    | some fault => if fault.isTypeError then .ok .inplace else .error (.raised fault)

/-- The position after the last entry that is a number. -/
def countWritten (buffer : Array α) : Nat :=
  (buffer.toList.reverse.dropWhile fun a => !Arith.isNumber a).length

/-- The number of values that an in-place function writes at the probe. -/
def countOutputs (f : UserFunction α) (name : String) (probe : Args α) :
    List Nat → Except (Error ν) Nat
  | [] => .error (.outputUncounted name (bufferSizes.getLastD 0))
  | size :: larger =>
    match f.fault? (some size :: probe.map Arg.length?) with
    | none => .ok (countWritten (f.written id (Array.replicate size undefinedNumber) probe))
    | some fault =>
      if fault.isIndexError then countOutputs f name probe larger
      else .error (.probeFailed name fault.text)

/-- The number of values of a function in the given form, as the probe shows it. -/
def measure (f : UserFunction α) (form : CallForm) (name : String) (probe : Args α)
    (size : Option Int) : Except (Error ν) Nat :=
  let lengths := probe.map Arg.length?
  match form with
  | .pure =>
    match f.tracingFault? lengths with
    | some fault => .error (.probeFailed name fault.text)
    | none =>
      match f.shape with
      | [k] => .ok k
      | shape => .error (.outputShape name shape)
  | .inplace =>
    match size with
    | none => countOutputs f name probe bufferSizes
    | some (.ofNat k) =>
      match f.fault? (some k :: lengths) with
      | some fault => .error (.probeFailed name fault.text)
      | none => .ok k
    | some (.negSucc _) => .error .negativeSize

/-- The function in the pure calling form, tried out at the probe. A required number of values is
compared with the one found; a function that cannot be traced is reported as slow. -/
def adapt (f : UserFunction α) (probe : Args α) (name : String) (size : Option Int) :
    Run (Event α) (Error ν) (Adapted α) := do
  let form ← Run.ofExcept (callForm f name (probe.map Arg.length?))
  let found ← Run.ofExcept (measure f form name probe size)
  if size.any (· != (found : Int)) then Run.fail (.outputSize name found (size.getD 0))
  let traceable := form == .pure && f.traceable
  Run.reportIf (!traceable) (.slowFunction name (form == .inplace))
  return { name, form, traceable, size := found, source := f }

end Adapt

section Derivative

variable {α : Type} {n m : Nat}

/-- Central differences with the step `eps` along each coordinate, one column for each. -/
def centralDifference [Scalar α] (eps : α) (f : Vec α n → Vec α m) (x : Vec α n) : Mat α m n :=
  let columns : Mat α n m := (Mat.diagonal n eps).map fun e =>
    (f (x + e) - f (x + -e)).map (· / (2.0 * eps))
  columns.transpose

/-- The step of central differences unless another one is asked for. -/
def differenceStep [Scalar α] : α := 1e-6

/-- The arguments that vary, all of them free to do so, and the others constant. -/
def Args.free [Scalar α] (args : Args α) (varying : List Nat) : Args (Dual α) :=
  args.zipIdx.map fun (arg, j) =>
    arg.map fun a => ⟨a, if varying.contains j then some 0 else none⟩

/-- The derivative of a function along argument `k`: one row for each value, one column for each
entry of the argument. The function is traced through arguments of which those in `varying` are
differentiated. -/
def Args.jacobian [Scalar α] (f : Args (Dual α) → Vec (Dual α) m) (args : Args α)
    (varying : List Nat) (k : Nat) : List (List α) :=
  match args[k]? with
  | none => []
  | some arg =>
    let x := Vec.ofList arg.entries
    (Dual.jacobian (fun x => f ((args.free varying).set k (arg.withEntries x.toList))) x).toLists

/-- The argument that an index denotes; negative indices count from the end. -/
def Args.at? (args : Args α) (i : Int) : Option (Arg α) :=
  (UserFunction.place? args.length i).bind fun k => args[k]?

/-- Where a window of `size` arguments is cut at an index. A negative index counts from the end. -/
def Args.cut (size : Nat) (i : Int) : Nat := (if i < 0 then i + size else i).toNat

/-- The arguments up to the index, another argument, and the arguments that follow the index. After
the index `-1` comes `0`, so there all arguments follow. -/
def Args.replaced (args : Args α) (i : Int) (arg : Arg α) : Args α :=
  args.take (cut args.length i) ++ [arg] ++ args.drop (cut args.length (i + 1))

/-- Central differences of a function along the argument at an index. -/
def Args.differences [Scalar α] (eps : α) (f : Args α → Vec α m) (args : Args α) (i : Int) :
    List (List α) :=
  match args.at? i with
  | none => []
  | some arg =>
    let x := Vec.ofList arg.entries
    (centralDifference eps (fun x => f (args.replaced i (arg.withEntries x.toList))) x).toLists

/-- One thing, or several of them in an order. -/
inductive Selection (ι : Type) where
  | one (i : ι)
  | several (l : List ι)

namespace Selection

variable {ι κ : Type}

/-- All that is selected, in order. -/
def toList : Selection ι → List ι
  | one i => [i]
  | several l => l

/-- The values of `f` at what is selected. -/
def map (f : ι → κ) : Selection ι → Selection κ
  | one i => one (f i)
  | several l => several (l.map f)

/-- The values of `f` at what is selected, in order, up to the first error. -/
def mapM {η : Type} (f : ι → Except η κ) : Selection ι → Except η (Selection κ)
  | one i => (f i).map one
  | several l => (l.mapM f).map several

end Selection

/-- A function as it is called: what a call raises, which depends on the lengths of the arguments
only, and the values that it returns otherwise. -/
structure Callable (α : Type) (m : Nat) where
  fault? : List (Option Nat) → Option Fault
  value : Args α → Vec α m

namespace Callable

variable {ν : Type} [Scalar α]

/-- Central differences along the argument at an index, which has to be an array. All calls have
arguments of the same lengths. -/
def differences (f : Callable α m) (eps : α) (args : Args α) (i : Int) :
    Except (Error ν) (List (List α)) :=
  match args.at? i with
  | some (.vector l) =>
    match f.fault? ((args.replaced i (.vector l)).map Arg.length?) with
    | some fault => .error (.raised fault)
    | none => .ok (args.differences eps f.value i)
  | _ => .error (.argumentIndex false)

/-- Central differences along the selected arguments, each matrix by itself. -/
def differencesAlong (f : Callable α m) (eps : α) (args : Args α) (selection : Selection Int) :
    Except (Error ν) (Selection (List (List α))) :=
  selection.mapM (f.differences eps args)

end Callable

namespace Adapted

variable {ν : Type} [Scalar α]

/-- The derivative along argument `k`, exact if the function is traceable and by central differences
otherwise. -/
def jacobian (f : Adapted α) (args : Args α) (varying : List Nat) (k : Nat) : List (List α) :=
  if f.traceable then args.jacobian (f.value Dual.constant) varying k
  else args.differences differenceStep (f.value id) k

/-- The function as it is called. -/
def callable (f : Adapted α) : Callable α f.size := ⟨f.fault?, f.value id⟩

/-- The derivatives along the selected arguments. A traced computation looks for all of them before
it calls the function. -/
def jacobians (f : Adapted α) (args : Args α) (selection : Selection Int) :
    Except (Error ν) (Selection (List (List α))) :=
  if f.traceable then do
    let places ← selection.mapM fun i =>
      match UserFunction.place? args.length i with
      | some k => .ok k
      | none => .error (.argumentIndex true)
    match f.fault? (args.map Arg.length?) with
    | some fault => .error (.raised fault)
    | none =>
      return places.map (args.jacobian (f.value Dual.constant) places.toList)
  else f.callable.differencesAlong differenceStep args selection

end Adapted

end Derivative

end TrajOpt
