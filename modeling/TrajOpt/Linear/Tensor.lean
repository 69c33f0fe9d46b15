import TrajOpt.Linear.Vec

/-!
# Arrays of any shape

Vectors, matrices and bounds are handed over as nested lists. A nested list whose parts all have the
same shape is an array of that shape; the parts of a problem check the shape before they take the
entries over.

## Main definitions

* `Nested.tensor?` - a nested list as an array, if it is one.
* `Tensor.toVec?`, `Tensor.toMat?` - the array as a vector or matrix of given dimensions.
-/

namespace TrajOpt

/-- A number, or a list of such things. -/
inductive Nested (α : Type) where
  | number (value : α)
  | list (parts : List (Nested α))

/-- An array: its lengths along all axes and its entries in row-major order. -/
structure Tensor (α : Type) where
  shape : List Nat
  entries : List α

namespace Tensor

variable {α : Type} {n m : Nat}

/-- The array whose parts along the first axis are given, if they all have one shape. -/
def stack? (parts : List (Tensor α)) : Option (Tensor α) :=
  match parts with
  | [] => some ⟨[0], []⟩
  | p :: _ =>
    if parts.all fun q => q.shape == p.shape then
      some ⟨parts.length :: p.shape, parts.flatMap Tensor.entries⟩
    else none

/-- The array of the entries of a vector. -/
def ofVec (v : Vec α n) : Tensor α := ⟨[n], v.toList⟩

/-- The array of the entries of a matrix. -/
def ofMat (a : Mat α n m) : Tensor α := ⟨[n, m], a.toList.flatMap Vector.toList⟩

/-- The number that the array consists of, if it has no axes. -/
def toNumber? (t : Tensor α) : Option α :=
  match t.shape, t.entries with
  | [], [a] => some a
  | _, _ => none

/-- The array as a vector of `n` entries. -/
def toVec? (t : Tensor α) (n : Nat) : Option (Vec α n) :=
  if t.shape = [n] then Vec.ofList? n t.entries else none

/-- The entries cut into rows of equal length. -/
def rowsOf (length : Nat) : Nat → List α → List (List α)
  | 0, _ => []
  | count + 1, l => l.take length :: rowsOf length count (l.drop length)

/-- The array as a matrix of `r` rows and `c` columns. -/
def toMat? (t : Tensor α) (r c : Nat) : Option (Mat α r c) :=
  if t.shape = [r, c] then Mat.ofLists? r c (rowsOf c r t.entries) else none

end Tensor

namespace Nested

variable {α : Type}

mutual

/-- The nested list as an array, if all parts of each list in it have the same shape. -/
def tensor? : Nested α → Option (Tensor α)
  | number a => some ⟨[], [a]⟩
  | list parts => (tensors? parts).bind Tensor.stack?

/-- All nested lists as arrays, if every one of them is one. -/
def tensors? : List (Nested α) → Option (List (Tensor α))
  | [] => some []
  | p :: ps => do return (← tensor? p) :: (← tensors? ps)

end

end Nested

end TrajOpt
