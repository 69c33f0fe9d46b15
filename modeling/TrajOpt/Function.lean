import TrajOpt.Error
import TrajOpt.Expr

/-!
# Functions supplied by the user

Dynamics and constraints come from the user in one of two forms: a pure function returns its values,
an in-place function receives a buffer as its first argument and assigns to entries of it. A
function is described by its parameters and by expressions for what it returns or assigns.

Whether a call raises something depends on the lengths of the arguments and never on their numbers,
so `UserFunction.fault?` answers that question once for all arguments of the same lengths.

## Main definitions

* `UserFunction` - a function with its parameters and its body.
* `UserFunction.fault?` - what a call raises.
* `UserFunction.returned`, `UserFunction.written` - what a call returns, and what it leaves in a
  buffer.
-/

namespace TrajOpt

/-- The two calling forms. -/
inductive CallForm where
  | pure
  | inplace
  deriving DecidableEq

/-- The name of a calling form. -/
def CallForm.text : CallForm → String
  | pure => "pure"
  | inplace => "inplace"

/-- How a function arranges the values that it returns. -/
inductive Arrangement where
  | vector
  | row
  | scalar
  | list
  | nothing
  deriving DecidableEq

/-- What a function does: it returns values, or it assigns values to entries of a buffer, in order.
Negative indices count from the end of the buffer. -/
inductive Body (α : Type) where
  | returns (arrangement : Arrangement) (values : List (Expr α))
  | assigns (assignments : List (Int × Expr α))

/-- The parameters of a function: their names, or any number of them. -/
inductive Parameters where
  | names (names : List String)
  | any

namespace Parameters

/-- Whether a call with `count` arguments fits. -/
def accepts (p : Parameters) (count : Nat) : Bool :=
  match p with
  | names l => l.length == count
  | any => true

/-- The parameters as messages show them. -/
def text : Parameters → String
  | names l => "(" ++ Text.commaSeparated l ++ ")"
  | any => "(*args)"

/-- What a call of the function `name` with `count` arguments raises because it does not fit. -/
def misfit? (p : Parameters) (name : String) (count : Nat) : Option Fault :=
  match p with
  | any => none
  | names l =>
    if l.length < count then
      let taken := l.length
      let noun := if taken = 1 then "argument" else "arguments"
      let verb := if count = 1 then "was" else "were"
      some (Fault.misfit name s!"takes {taken} positional {noun} but {count} {verb} given")
    else if count < l.length then
      let missing := (l.drop count).map fun parameter => s!"'{parameter}'"
      let number := missing.length
      let noun := if number = 1 then "argument" else "arguments"
      some (Fault.misfit name
        (s!"missing {number} required positional {noun}: " ++ Text.conjunction missing))
    else none

/-- Parameters without names of their own are numbered. -/
def numbered (count : Nat) : Parameters := names ((List.range count).map fun i => s!"a{i}")

end Parameters

/-- A function supplied by the user. -/
structure UserFunction (α : Type) where
  /-- The name under which a call that does not fit is reported. -/
  name : String := "fun"
  parameters : Parameters
  /-- Whether the parameters can be found out without calling the function. -/
  inspectable : Bool
  /-- Whether the function is written for tracing throughout. -/
  traced : Bool
  /-- What every call raises. -/
  failure : Option Fault
  body : Body α

namespace UserFunction

variable {α β : Type}

/-- The shape of what a pure function returns. -/
def shape (f : UserFunction α) : List Nat :=
  match f.body with
  | .returns .vector values | .returns .list values => [values.length]
  | .returns .row values => [1, values.length]
  | _ => []

/-- The expressions of the values that a pure function returns. -/
def values (f : UserFunction α) : List (Expr α) :=
  match f.body with
  | .returns _ values => values
  | .assigns _ => []

/-- The assignments of an in-place function. -/
def assignments (f : UserFunction α) : List (Int × Expr α) :=
  match f.body with
  | .returns _ _ => []
  | .assigns assignments => assignments

/-- Whether a pure function can be traced: it is written for tracing, or nothing that needs plain
numbers meets an argument. Arranging values in an array needs plain numbers, and so do the
elementary functions. -/
def traceable (f : UserFunction α) : Bool :=
  f.traced ||
    match f.body with
    | .returns .vector values | .returns .row values => values.all fun e => !e.hasArgument
    | .returns _ values => values.all fun e => !e.appliesFunction
    | .assigns _ => false

/-- The place in a buffer of `size` entries that an index denotes. -/
def place? (size : Nat) (index : Int) : Option Nat :=
  let i := if index < 0 then index + size else index
  if 0 ≤ i ∧ i < size then some i.toNat else none

/-- What an expression raises at arguments of the given lengths. -/
def expressionFault? (lengths : List (Option Nat)) (e : Expr α) : Option Fault :=
  (e.outOfRange? lengths).map fun (i, n) => Fault.outOfRange i n

/-- What a call with `count` arguments raises before the body looks at them. -/
def callFault? (f : UserFunction α) (count : Nat) : Option Fault :=
  (f.parameters.misfit? f.name count).or f.failure

/-- What a call with arguments of the given lengths raises. A call that does not fit the parameters
never reaches the body. The arguments of an in-place function begin with the buffer; each value is
computed before the entry is looked up. -/
def fault? (f : UserFunction α) (lengths : List (Option Nat)) : Option Fault :=
  (f.callFault? lengths.length).or <|
    match f.body with
    | .returns _ values => values.findSome? (expressionFault? lengths)
    | .assigns assignments =>
      let size := (lengths.head?.join).getD 0
      assignments.findSome? fun (index, e) =>
        (expressionFault? lengths.tail e).or <|
          if (place? size index).isSome then none else some (Fault.outOfRange index size)

/-- What a call with these arguments returns. -/
def returned [Scalar β] (f : UserFunction α) (embed : α → β) (args : Args β) : List β :=
  f.values.map (Expr.eval embed args)

/-- A pure function of a state, a control and further arguments as a function on vectors. Values
that are missing are zero. -/
def onVectors [Scalar β] (f : UserFunction α) (embed : α → β) (further : Args β) {n m k : Nat}
    (x : Vec β n) (u : Vec β m) : Vec β k :=
  let values := (f.returned embed ([.vector x.toList, .vector u.toList] ++ further)).toArray
  Vector.ofFn fun i => values[i.val]?.getD 0

/-- What tracing a pure function raises. Entries beyond the end of an argument do not matter to
it. -/
def tracingFault? (f : UserFunction α) (lengths : List (Option Nat)) : Option Fault :=
  if f.traceable then f.callFault? lengths.length else f.fault? lengths

/-- The assignment of a value to an entry of a buffer, and nothing where there is no such entry. -/
def assign (buffer : Array β) (index : Int) (value : β) : Array β :=
  match place? buffer.size index with
  | some i => buffer.setIfInBounds i value
  | none => buffer

/-- What a call with this buffer and these further arguments leaves in the buffer. -/
def written [Scalar β] (f : UserFunction α) (embed : α → β) (buffer : Array β)
    (args : Args β) : Array β :=
  f.assignments.foldl (fun b (index, e) => assign b index (e.eval embed args)) buffer

@[simp] theorem size_assign (buffer : Array β) (index : Int) (value : β) :
    (assign buffer index value).size = buffer.size := by
  unfold assign
  split <;> simp

end UserFunction

end TrajOpt
