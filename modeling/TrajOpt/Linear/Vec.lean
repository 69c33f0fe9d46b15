import TrajOpt.Scalar

/-!
# Vectors and matrices

A vector is an array of known length and a matrix is a vector of rows, so the dimensions of a
problem are part of the types and no operation below has a case for arrays that do not fit.

## Main definitions

* `Vec.dot`, `Mat.mulVec`, `Mat.vecMul`, `Mat.mul` - the products.
* `Vec.append`, `Vec.left`, `Vec.right` - a vector of `n + m` entries as two vectors.
* `Mat.ofBlocks` - a matrix put together from four blocks.
* `Sized` - an object whose type depends on dimensions that are not known beforehand.
-/

namespace TrajOpt

/-- An object together with the numbers of states and controls that its type depends on. -/
structure Sized (F : Nat → Nat → Type) where
  n : Nat
  m : Nat
  value : F n m

/-- A vector of `n` entries. -/
abbrev Vec (α : Type) (n : Nat) := Vector α n

/-- A matrix of `r` rows and `c` columns, as the vector of its rows. -/
abbrev Mat (α : Type) (r c : Nat) := Vector (Vector α c) r

namespace Vec

variable {α β : Type} {n m : Nat}

/-- The vector of all entries of a list. -/
def ofList (l : List α) : Vec α l.length := ⟨l.toArray, by simp⟩

/-- The vector of the values of `f` at the entries of a list. -/
def mapList (f : β → α) (l : List β) : Vec α l.length := ⟨(l.map f).toArray, by simp⟩

/-- The list as a vector of `n` entries, if it has that many. -/
def ofList? (n : Nat) (l : List α) : Option (Vec α n) :=
  if h : l.length = n then some (h ▸ ofList l) else none

/-- The vector whose entries are all `a`. -/
def const (n : Nat) (a : α) : Vec α n := Vector.replicate n a

/-- The entry `a` followed by those of `v`. -/
def cons (a : α) (v : Vec α n) : Vec α (n + 1) := (#v[a] ++ v).cast (Nat.add_comm 1 n)

/-- The vector without entries. -/
def empty : Vec α 0 := #v[]

/-- The first entry. -/
def first (v : Vec α (n + 1)) : α := v[0]

/-- All entries but the first. -/
def rest (v : Vec α (n + 1)) : Vec α n := Vector.ofFn fun i => v[i.val + 1]

/-- The entries of `u` followed by those of `v`. -/
def append (u : Vec α n) (v : Vec α m) : Vec α (n + m) := u ++ v

/-- The first `n` of `n + m` entries. -/
def left (v : Vec α (n + m)) : Vec α n := Vector.ofFn fun i => v[i.val]

/-- The last `m` of `n + m` entries. -/
def right (v : Vec α (n + m)) : Vec α m := Vector.ofFn fun i => v[n + i.val]

theorem get_eq (v : Vec α n) (i : Fin n) : v.get i = v[i.val] := rfl

@[simp] theorem getElem_const (a : α) {i : Nat} (h : i < n) : (const n a)[i] = a := by
  simp [const]

@[simp] theorem getElem_mapList (f : β → α) (l : List β) {i : Nat} (h : i < l.length) :
    (mapList f l)[i] = f l[i] := by
  simp [mapList]

@[simp] theorem getElem_cons_zero (a : α) (v : Vec α n) : (cons a v)[0] = a := by
  simp [cons]

@[simp] theorem first_eq (v : Vec α (n + 1)) : first v = v[0] := rfl

@[simp] theorem getElem_cons_succ (a : α) (v : Vec α n) {i : Nat} (h : i < n) :
    (cons a v)[i + 1] = v[i] := by
  simp [cons]

@[simp] theorem getElem_rest (v : Vec α (n + 1)) {i : Nat} (h : i < n) :
    (rest v)[i] = v[i + 1] := by
  simp [rest]

@[simp] theorem left_append (u : Vec α n) (v : Vec α m) : left (append u v) = u := by
  ext i h
  simp [left, append]

@[simp] theorem right_append (u : Vec α n) (v : Vec α m) : right (append u v) = v := by
  ext i h
  simp [right, append]

theorem append_left_right (v : Vec α (n + m)) : append (left v) (right v) = v := by
  ext i h
  by_cases hi : i < n
  · simp [append, left, hi]
  · simp [append, right, Vector.getElem_append, hi, show n + (i - n) = i by omega]

section Scalar

variable [Arith α]

/-- The vector of zeros. -/
def zero (n : Nat) : Vec α n := const n 0

/-- Each entry times `a`. -/
def scale (a : α) (v : Vec α n) : Vec α n := v.map (a * ·)

/-- The sum of the products of matching entries. -/
def dot (u v : Vec α n) : α := (Vector.zipWith (· * ·) u v).sum

/-- The largest entry, or `a` where no entry exceeds it; not a number as soon as one entry is
not. -/
def maximum (a : α) (v : Vec α n) : α := v.foldl Arith.maximum a

@[simp] theorem getElem_scale (a : α) (v : Vec α n) {i : Nat} (h : i < n) :
    (scale a v)[i] = a * v[i] := by
  simp [scale]

end Scalar

end Vec

namespace Mat

variable {α : Type} {r c k p q : Nat}

/-- The rows of `a` followed by those of `b`. -/
def above (a : Mat α r c) (b : Mat α k c) : Mat α (r + k) c := Vec.append a b

/-- Each row of `a` followed by the matching row of `b`. -/
def beside (a : Mat α r c) (b : Mat α r k) : Mat α r (c + k) := Vector.zipWith Vec.append a b

/-- The matrix of four blocks: `a` and `b` in the upper rows, `c` and `d` in the lower ones. -/
def ofBlocks (a : Mat α r p) (b : Mat α r q) (c : Mat α k p) (d : Mat α k q) :
    Mat α (r + k) (p + q) :=
  above (beside a b) (beside c d)

/-- Rows and columns exchanged. -/
def transpose (a : Mat α r c) : Mat α c r :=
  Vector.ofFn fun j => Vector.ofFn fun i => a[i.val][j.val]

/-- The rows of a matrix as lists. -/
def toLists (a : Mat α r c) : List (List α) := a.toList.map Vector.toList

/-- A list of rows as a matrix of `r` rows of `c` entries, if it is one. -/
def ofLists? (r c : Nat) (rows : List (List α)) : Option (Mat α r c) := do
  let rows ← rows.mapM (Vec.ofList? c)
  Vec.ofList? r rows

@[simp] theorem getElem_transpose (a : Mat α r c) {i j : Nat} (hj : j < c) (hi : i < r) :
    (transpose a)[j][i] = a[i][j] := by
  simp [transpose]

variable [Arith α]

/-- The matrix of zeros. -/
def zero (r c : Nat) : Mat α r c := Vec.const r (Vec.zero c)

/-- The matrix with `a` on the diagonal and zeros elsewhere. -/
def diagonal (n : Nat) (a : α) : Mat α n n :=
  Vector.ofFn fun i => Vector.ofFn fun j => if i = j then a else 0

/-- The identity matrix. -/
def identity (n : Nat) : Mat α n n := diagonal n 1

/-- Each entry times `a`. -/
def scale (a : α) (m : Mat α r c) : Mat α r c := m.map (Vec.scale a)

/-- The matrix with the entries `u i * v j`. -/
def outer (u : Vec α r) (v : Vec α c) : Mat α r c := u.map fun a => Vec.scale a v

/-- The product with a column on the right. -/
def mulVec (a : Mat α r c) (v : Vec α c) : Vec α r := a.map (Vec.dot · v)

/-- The product with a row on the left. -/
def vecMul (v : Vec α r) (a : Mat α r c) : Vec α c := (transpose a).map (Vec.dot v)

/-- The product of two matrices. -/
def mul (a : Mat α r k) (b : Mat α k c) : Mat α r c :=
  let columns := transpose b
  a.map fun row => columns.map (Vec.dot row)

/-- The number `u A v`, multiplied from the left. -/
def bilinear (u : Vec α r) (a : Mat α r c) (v : Vec α c) : α := Vec.dot (vecMul u a) v

end Mat

end TrajOpt
