import TrajOpt.Error
import TrajOpt.Linear.Tensor

/-!
# Straight lines

A simple guess of the states goes from one state to another along a straight line. Where one of the
two states is a single number, it stands for all entries of that state.

## Main definitions

* `straightLine` - the states of the line between two states of equal length.
* `straightLine?` - the same between any two arrays, as far as they fit together.
-/

namespace TrajOpt

variable {α ν : Type} [Scalar α] {n : Nat}

/-- The part `k / count` of the line that is passed after `k` of `count` intervals; nothing is
passed at the start, even of a line without intervals. -/
def passed (k count : Nat) : α := if k = 0 then 0 else Scalar.ofNat k / Scalar.ofNat count

/-- The state after `k` of `count` intervals of the line from `x0` to `xf`. -/
def pointOfLine (x0 xf : Vec α n) (count k : Nat) : Vec α n :=
  x0 + Vec.scale (passed k count) (xf - x0)

/-- The first `states` states of the line from `x0` to `xf` that is divided into `count`
intervals. -/
def straightLine (x0 xf : Vec α n) (count states : Nat) : List (Vec α n) :=
  (List.range states).map (pointOfLine x0 xf count)

/-- Two lists of equal length, where a list of one entry is repeated to the length of the other. -/
def matchLengths (a b : List α) : Option ((n : Nat) × Vec α n × Vec α n) :=
  match Vec.ofList? b.length a, a, b with
  | some u, _, _ => some ⟨b.length, u, Vec.ofList b⟩
  | none, [x], _ => some ⟨b.length, Vec.const b.length x, Vec.ofList b⟩
  | none, _, [y] => some ⟨a.length, Vec.ofList a, Vec.const a.length y⟩
  | none, _, _ => none

/-- The states of the line between two arrays. The number of intervals is checked first; a line of
minus one intervals has no states. -/
def straightLine? (x0 xf : Tensor α) (intervals : Numeral) :
    Except (Error ν) (List (List α)) := do
  let count ← match intervals.int? with
    | some k => if k < -1 then .error .negativeLength else .ok k
    | none => .error .unusableArguments
  if 1 < x0.shape.length ∨ 1 < xf.shape.length then throw .unusableArguments
  match matchLengths x0.entries xf.entries with
  | some ⟨_, a, b⟩ =>
    return (straightLine a b count.toNat (count + 1).toNat).map Vector.toList
  | none => throw .unusableArguments

end TrajOpt
