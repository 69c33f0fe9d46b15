import TrajOpt.Expr.Gradient
import TrajOpt.Function.Adapted

/-!
# Derivatives along batches

A pure function can be evaluated and differentiated at many places at once: some of its arguments
are given once for each place, the others are shared by all places.

## Main definitions

* `Args.batch` - the arguments at each place.
* `UserFunction.jacobian`, `UserFunction.hessians` - exact derivatives at one place.
* `UserFunction.callable` - a pure function as central differences call it.
-/

namespace TrajOpt

variable {α : Type}

/-- The arguments at each place. Every column holds one argument for all places; the shared
arguments follow. -/
def Args.batch (columns : List (List (Arg α))) (shared : Args α) : List (Args α) :=
  let places := ((columns.map List.length).min?).getD 0
  (List.range places).map fun i => columns.filterMap (·[i]?) ++ shared

/-- The number of entries of argument `k`. -/
def Args.sizeOf (args : Args α) (k : Nat) : Nat := ((args[k]?).map fun a => a.entries.length).getD 0

namespace UserFunction

variable [Scalar α]

/-- The derivatives of all values along argument `k`, one row for each value. -/
def jacobian (f : UserFunction α) (args : Args α) (k : Nat) : List (List α) :=
  Expr.rows id args k (args.sizeOf k) f.values

/-- The second derivatives of a number along the state twice, along the control twice, and along the
state in the rows and the control in the columns. -/
def hessians (f : UserFunction α) (args : Args α) : List (List (List α)) :=
  let n := args.sizeOf 0
  let m := args.sizeOf 1
  match f.values with
  | e :: _ => [e.hessian args 0 n 0 n, e.hessian args 1 m 1 m, e.hessian args 0 n 1 m]
  | [] => []

/-- A pure function as it is called. -/
def callable (f : UserFunction α) : Callable α f.values.length :=
  ⟨f.tracingFault?, fun args => Vec.mapList (Expr.eval id args) f.values⟩

end UserFunction

end TrajOpt
