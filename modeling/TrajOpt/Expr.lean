import TrajOpt.Scalar.Dual

/-!
# Expressions

Dynamics, costs and constraints are given by expressions over the arguments of a function: entries
of its vector arguments and its numeric arguments. An expression is evaluated over any type of
scalars that its constants embed into, so that the same expression yields values and derivatives.

An entry beyond the end of its vector is read as the last one. Where that is to be an error instead,
`Expr.outOfRange?` tells beforehand, from the lengths of the arguments alone, whether it happens.

## Main definitions

* `Arg` - an argument of a function.
* `Expr`, `Expr.eval` - expressions and their values.
* `Expr.outOfRange?` - the first entry, in the order of evaluation, that lies outside its vector.
-/

namespace TrajOpt

/-- An argument of a function. -/
inductive Arg (α : Type) where
  | vector (entries : List α)
  | number (value : α)

namespace Arg

variable {α β : Type}

/-- The same argument with every number replaced. -/
def map (f : α → β) : Arg α → Arg β
  | vector v => vector (v.map f)
  | number a => number (f a)

/-- The length of a vector argument. -/
def length? : Arg α → Option Nat
  | vector v => some v.length
  | number _ => none

/-- All numbers of the argument. -/
def entries : Arg α → List α
  | vector v => v
  | number a => [a]

/-- An argument of the same kind with these numbers. -/
def withEntries (arg : Arg α) (entries : List β) : Arg β :=
  match arg, entries with
  | number _, [b] => number b
  | _, _ => vector entries

end Arg

/-- The arguments that a function is applied to. -/
abbrev Args (α : Type) := List (Arg α)

namespace Args

variable {α : Type}

/-- The index at which entry `i` of argument `k` is read: that of the last entry where there are not
that many. -/
def indexOf (args : Args α) (k i : Nat) : Nat :=
  match args[k]? with
  | some (.vector v) => min i (v.length - 1)
  | _ => i

variable [Zero α]

/-- Entry `i` of argument `k`, or zero if the argument is not a vector or has no entries. -/
def entry (args : Args α) (k i : Nat) : α :=
  match args[k]? with
  | some (.vector v) => v[min i (v.length - 1)]?.getD 0
  | _ => 0

/-- The number that argument `k` is, or zero. -/
def number (args : Args α) (k : Nat) : α :=
  match args[k]? with
  | some (.number a) => a
  | _ => 0

end Args

/-- The elementary functions of expressions. -/
inductive Elementary where
  | sin
  | cos
  | tan
  | exp
  | log
  | sqrt
  | tanh
  | abs
  deriving DecidableEq

namespace Elementary

/-- The name of an elementary function. -/
def text : Elementary → String
  | sin => "sin"
  | cos => "cos"
  | tan => "tan"
  | exp => "exp"
  | log => "log"
  | sqrt => "sqrt"
  | tanh => "tanh"
  | abs => "abs"

/-- All elementary functions. -/
def all : List Elementary := [sin, cos, tan, exp, log, sqrt, tanh, abs]

/-- The elementary function of the given name. -/
def ofText? (name : String) : Option Elementary := all.find? fun f => f.text == name

/-- The value of an elementary function. -/
def eval {α : Type} [Scalar α] : Elementary → α → α
  | sin => Scalar.sin
  | cos => Scalar.cos
  | tan => Scalar.tan
  | exp => Scalar.exp
  | log => Scalar.log
  | sqrt => Scalar.sqrt
  | tanh => Scalar.tanh
  | abs => Scalar.abs

end Elementary

/-- Expressions over the arguments of a function, with constants in `α`. -/
inductive Expr (α : Type) where
  | const (value : α)
  | entry (argument index : Nat)
  | number (argument : Nat)
  | add (a b : Expr α)
  | sub (a b : Expr α)
  | mul (a b : Expr α)
  | div (a b : Expr α)
  | neg (a : Expr α)
  | pow (a : Expr α) (exponent : Int)
  | apply (f : Elementary) (a : Expr α)

namespace Expr

variable {α β : Type}

/-- The value of an expression at arguments in `β`, into which `embed` takes the constants. -/
def eval [Scalar β] (embed : α → β) (args : Args β) : Expr α → β
  | const c => embed c
  | entry k i => args.entry k i
  | number k => args.number k
  | add a b => a.eval embed args + b.eval embed args
  | sub a b => a.eval embed args - b.eval embed args
  | mul a b => a.eval embed args * b.eval embed args
  | div a b => a.eval embed args / b.eval embed args
  | neg a => -a.eval embed args
  | pow a k => Arith.powInt (a.eval embed args) k
  | apply f a => f.eval (a.eval embed args)

/-- Whether the value of the expression depends on an argument at all. -/
def hasArgument : Expr α → Bool
  | const _ => false
  | entry _ _ => true
  | number _ => true
  | add a b | sub a b | mul a b | div a b => a.hasArgument || b.hasArgument
  | neg a | pow a _ | apply _ a => a.hasArgument

/-- Whether an elementary function is applied to something that depends on an argument. -/
def appliesFunction : Expr α → Bool
  | const _ | entry _ _ | number _ => false
  | add a b | sub a b | mul a b | div a b => a.appliesFunction || b.appliesFunction
  | neg a | pow a _ => a.appliesFunction
  | apply _ a => a.hasArgument

/-- The first entry in the order of evaluation that lies outside its vector, as its index and the
length of the vector. The lengths are those of the arguments, `none` for a number. -/
def outOfRange? (lengths : List (Option Nat)) : Expr α → Option (Nat × Nat)
  | const _ | number _ => none
  | entry k i =>
    match lengths[k]? with
    | some (some n) => if i < n then none else some (i, n)
    | _ => none
  | add a b | sub a b | mul a b | div a b =>
    (a.outOfRange? lengths).or (b.outOfRange? lengths)
  | neg a | pow a _ | apply _ a => a.outOfRange? lengths

end Expr

end TrajOpt
