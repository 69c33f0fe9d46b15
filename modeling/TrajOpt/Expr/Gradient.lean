import TrajOpt.Expr

/-!
# Gradients of expressions

The gradient of an expression is collected by walking from the expression down to the arguments it
reads. Each node passes on the weight with which it enters the result, so an argument that the
expression does not read contributes nothing at all. The weights may again be dual numbers, which
gives second derivatives.

## Main definitions

* `Expr.readings` - every reading of an argument together with its weight.
* `Expr.gradient`, `Expr.rows` - the weights of all entries of one argument, for one expression and
  for several.
* `Expr.hessian` - the derivatives of one gradient along another argument.
-/

namespace TrajOpt

namespace Expr

variable {α β : Type}

/-- The reading of one entry of an argument, and the weight with which it enters a result. A numeric
argument has the single entry zero. -/
structure Reading (β : Type) where
  argument : Nat
  index : Nat
  weight : β

/-- Every reading of an argument in the expression when its own weight in the result is `w`. The
derivative of an elementary function multiplies the weight, which is what the function does to the
slope of a dual number. -/
def readings [Scalar β] (embed : α → β) (args : Args β) (w : β) : Expr α → List (Reading β)
  | const _ => []
  | entry k i => [⟨k, args.indexOf k i, w⟩]
  | number k => [⟨k, 0, w⟩]
  | add a b => a.readings embed args w ++ b.readings embed args w
  | sub a b => a.readings embed args w ++ b.readings embed args (-w)
  | mul a b =>
    a.readings embed args (w * b.eval embed args) ++ b.readings embed args (w * a.eval embed args)
  | div a b =>
    let x := a.eval embed args
    let y : Dual β := ⟨b.eval embed args, some w⟩
    a.readings embed args (w / y.value) ++
      b.readings embed args (Dual.constant x / y).slopeOrZero
  | neg a => a.readings embed args (-w)
  | pow a k =>
    let x : Dual β := ⟨a.eval embed args, some w⟩
    a.readings embed args (Arith.powInt x k).slopeOrZero
  | apply f a =>
    let x : Dual β := ⟨a.eval embed args, some w⟩
    a.readings embed args (f.eval x).slopeOrZero

/-- The sum of the weights of entry `i` of argument `k`. -/
def totalWeight [Scalar β] (readings : List (Reading β)) (k i : Nat) : β :=
  (readings.filter fun r => r.argument == k && r.index == i).foldl (fun s r => s + r.weight) 0

/-- The derivatives of the expression along the entries of argument `k`, which are `n`. -/
def gradient [Scalar β] (embed : α → β) (args : Args β) (k n : Nat) (e : Expr α) : List β :=
  let readings := e.readings embed args 1
  (List.range n).map (totalWeight readings k)

/-- The derivatives along argument `k` of a vector of expressions, one row for each of them. Every
row is the gradient of the sum of all components weighted by one row of the identity matrix. -/
def rows [Scalar β] (embed : α → β) (args : Args β) (k n : Nat) (es : List (Expr α)) :
    List (List β) :=
  es.zipIdx.map fun (_, row) =>
    let readings := es.zipIdx.flatMap fun (e, i) =>
      e.readings embed args (if i = row then 1 else 0)
    (List.range n).map (totalWeight readings k)

/-- The arguments as dual numbers of which entry `i` of argument `k` varies, and no other argument
does. -/
def Args.vary [Scalar α] (args : Args α) (k i : Nat) : Args (Dual α) :=
  args.zipIdx.map fun (arg, j) =>
    if j = k then
      match arg with
      | .vector v => .vector (v.zipIdx.map fun (a, l) => ⟨a, some (if l = i then 1 else 0)⟩)
      | .number a => .number ⟨a, some 1⟩
    else arg.map Dual.constant

/-- The second derivatives of the expression, along the `m` entries of argument `k` in the rows and
the `n` entries of argument `l` in the columns. -/
def hessian [Scalar α] (args : Args α) (k m l n : Nat) (e : Expr α) : List (List α) :=
  let columns := (List.range n).map fun j =>
    (e.gradient Dual.constant (Args.vary args l j) k m).map Dual.slopeOrZero
  (List.range m).map fun i => columns.map fun column => column[i]?.getD 0

end Expr

end TrajOpt
