import TrajOpt.Linear.Vec

/-!
# Cholesky factorization

A symmetric positive definite matrix is the product of a lower triangular matrix with a positive
diagonal and its transpose. `Cholesky α n` is such a triangular matrix, given column by column: the
first diagonal entry, the entries below it, and the factor of what is left when the first row and
column are eliminated. The factorization and the solution of a linear system follow that shape, one
unknown at a time.

## Main definitions

* `Cholesky.ofLower?` - the factor of the matrix that a lower triangle describes, if there is one.
* `Cholesky.solve` - the solution of `L Lᵀ x = b`.
* `Mat.isPositiveDefinite`, `Mat.solvePositiveDefinite?` - the same for the symmetric part of any
  square matrix.
-/

namespace TrajOpt

/-- A lower triangular matrix of `n` columns: the diagonal entry and the entries below it for the
first column, and the remaining columns. -/
inductive Cholesky (α : Type) : Nat → Type where
  | empty : Cholesky α 0
  | column {n : Nat} (diagonal : α) (below : Vec α n) (rest : Cholesky α n) : Cholesky α (n + 1)

namespace Mat

variable {α : Type} {n : Nat}

/-- The first entry of the first row. -/
def corner (a : Mat α (n + 1) (n + 1)) : α := Vec.first (Vec.first a)

/-- The entries below the first one in the first column. -/
def belowFirst (a : Mat α (n + 1) (n + 1)) : Vec α n := (Vec.rest a).map Vec.first

/-- The matrix without its first row and column. -/
def minor (a : Mat α (n + 1) (n + 1)) : Mat α n n := (Vec.rest a).map Vec.rest

end Mat

namespace Cholesky

variable {α : Type}

/-- Factorizes the symmetric matrix that the lower triangle of `a` describes, whatever stands above
the diagonal. There is no factor when a pivot is zero or negative. -/
def ofLower? [Scalar α] : {n : Nat} → Mat α n n → Option (Cholesky α n)
  | 0, _ => some .empty
  | _ + 1, a =>
    let pivot := a.corner
    if pivot ≤ 0 then none
    else
      let diagonal := Scalar.sqrt pivot
      let below := a.belowFirst.map (· / diagonal)
      (ofLower? (a.minor - Mat.outer below below)).map (column diagonal below)

/-- Whether every entry of the factor is finite. -/
def isFinite [Scalar α] : {n : Nat} → Cholesky α n → Bool
  | _, empty => true
  | _, column diagonal below rest =>
    Scalar.isFinite diagonal && below.all Scalar.isFinite && rest.isFinite

/-- The solution of `L Lᵀ x = b`: the first unknown of `L y = b` goes into the right-hand sides
below it, the remaining system is solved, and its solution gives the first unknown of
`Lᵀ x = y`. -/
def solve [Arith α] : {n : Nat} → Cholesky α n → Vec α n → Vec α n
  | _, empty, b => b
  | _, column diagonal below rest, b =>
    let y := Vec.first b / diagonal
    let x := rest.solve (Vec.rest b - Vec.scale y below)
    Vec.cons ((y - Vec.dot below x) / diagonal) x

end Cholesky

namespace Mat

variable {α : Type} [Scalar α] {n k : Nat}

/-- The symmetric part of a square matrix. -/
def symmetrize (a : Mat α n n) : Mat α n n := Mat.scale 0.5 (a + a.transpose)

/-- The matrix with `weight` added along the diagonal. -/
def regularize (a : Mat α n n) (weight : α) : Mat α n n :=
  a + Mat.scale weight (Mat.identity n)

/-- The finite factor of the symmetric part, if it has one. -/
def factor? (a : Mat α n n) : Option (Cholesky α n) :=
  (Cholesky.ofLower? a.symmetrize).filter Cholesky.isFinite

/-- Whether the symmetric part has a finite factor. -/
def isPositiveDefinite (a : Mat α n n) : Bool := a.factor?.isSome

/-- The solution of `S x = b` for the symmetric part `S` of `a`, if that is positive definite. -/
def solvePositiveDefinite? (a : Mat α n n) (b : Vec α n) : Option (Vec α n) :=
  a.factor?.map fun l => l.solve b

/-- The solution of `S x = b` as far as there is a factor of the symmetric part `S`, be it finite or
not; without one, nothing in it is a number. -/
def solveAnyway (a : Mat α n n) (b : Vec α n) : Vec α n :=
  match Cholesky.ofLower? a.symmetrize with
  | some l => l.solve b
  | none => Vec.const n (0 / 0)

/-- The solutions for every column of `b` at once. -/
def solveColumns? (a : Mat α n n) (b : Mat α n k) : Option (Mat α n k) :=
  a.factor?.map fun l => Mat.transpose ((Mat.transpose b).map l.solve)

end Mat

end TrajOpt
