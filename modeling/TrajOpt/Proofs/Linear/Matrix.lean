import Mathlib
import TrajOpt.Linear.Cholesky
import TrajOpt.Objective.Cost
import TrajOpt.Proofs.Scalar.Real

/-!
# Vectors and matrices of real numbers

Over the real numbers the arrays of the algorithms are vectors and matrices as linear algebra knows
them. Every operation on arrays has its counterpart there, and what follows about products and forms
is read back from it.

## Main definitions

* `Vec.fn`, `Mat.matrix` - an array as a function of its indices.

## Main statements

* `Vec.dot_eq`, `Mat.fn_mulVec`, `Mat.matrix_mul` - what the products are.
-/

namespace TrajOpt

open Matrix

variable {n m r c k : Nat}

namespace Vec

/-- The entries of a vector. -/
def fn (v : Vec ℝ n) : Fin n → ℝ := fun i => v.get i

theorem fn_injective : Function.Injective (fn : Vec ℝ n → Fin n → ℝ) := by
  intro u v h
  ext i hi
  exact congrFun h ⟨i, hi⟩

@[simp] theorem fn_add (u v : Vec ℝ n) : (u + v).fn = u.fn + v.fn := by
  ext i
  simp [fn, get_eq]

@[simp] theorem fn_sub (u v : Vec ℝ n) : (u - v).fn = u.fn - v.fn := by
  ext i
  simp [fn, get_eq]

@[simp] theorem fn_neg (v : Vec ℝ n) : (-v).fn = -v.fn := by
  ext i
  simp [fn, get_eq]

@[simp] theorem fn_scale (a : ℝ) (v : Vec ℝ n) : (scale a v).fn = a • v.fn := by
  ext i
  simp [fn, get_eq]

@[simp] theorem fn_zero : (zero n : Vec ℝ n).fn = 0 := by
  ext i
  simp [fn, get_eq, zero]

@[simp] theorem fn_rest (v : Vec ℝ (n + 1)) : (rest v).fn = Fin.tail v.fn := by
  ext i
  simp [fn, get_eq, Fin.tail]

@[simp] theorem fn_cons (a : ℝ) (v : Vec ℝ n) : (cons a v).fn = Fin.cons a v.fn := by
  ext i
  cases i using Fin.cases <;> simp [fn, get_eq]

theorem toList_eq_ofFn (v : Vec ℝ n) : v.toList = List.ofFn v.fn := by
  refine List.ext_getElem (by simp) ?_
  intro i h₁ h₂
  simp [fn, get_eq]

theorem sum_eq (v : Vec ℝ n) : v.sum = ∑ i, v.fn i := by
  rw [← Vector.sum_toList, toList_eq_ofFn, List.sum_ofFn]

theorem dot_eq (u v : Vec ℝ n) : dot u v = u.fn ⬝ᵥ v.fn := by
  rw [dot, sum_eq]
  simp [fn, get_eq, dotProduct]

end Vec

namespace Mat

/-- The entries of a matrix. -/
def matrix (a : Mat ℝ r c) : Matrix (Fin r) (Fin c) ℝ := fun i j => (a.get i).get j

@[simp] theorem matrix_add (a b : Mat ℝ r c) : (a + b).matrix = a.matrix + b.matrix := by
  ext i j
  simp [matrix, Vec.get_eq]

@[simp] theorem matrix_scale (t : ℝ) (a : Mat ℝ r c) : (scale t a).matrix = t • a.matrix := by
  ext i j
  simp [matrix, Vec.get_eq, scale]

@[simp] theorem matrix_transpose (a : Mat ℝ r c) : a.transpose.matrix = a.matrixᵀ := by
  ext i j
  simp [matrix, Vec.get_eq]

@[simp] theorem matrix_identity : (identity n : Mat ℝ n n).matrix = 1 := by
  ext i j
  simp [matrix, Vec.get_eq, identity, diagonal, Matrix.one_apply, Fin.ext_iff]

@[simp] theorem matrix_outer (u : Vec ℝ r) (v : Vec ℝ c) :
    (outer u v).matrix = vecMulVec u.fn v.fn := by
  ext i j
  simp [matrix, Vec.get_eq, outer, Vec.fn, vecMulVec]

theorem matrix_injective : Function.Injective (matrix : Mat ℝ r c → Matrix (Fin r) (Fin c) ℝ) := by
  intro a b h
  ext i hi j hj
  exact congrFun (congrFun h ⟨i, hi⟩) ⟨j, hj⟩

theorem isSymm_matrix_iff {a : Mat ℝ n n} : a.matrix.IsSymm ↔ a.transpose = a := by
  rw [← matrix_injective.eq_iff, matrix_transpose, Matrix.IsSymm]

@[simp] theorem fn_mulVec (a : Mat ℝ r c) (v : Vec ℝ c) :
    (mulVec a v).fn = a.matrix *ᵥ v.fn := by
  ext i
  simp [Vec.fn, Vec.get_eq, mulVec, Vec.dot_eq]
  rfl

@[simp] theorem fn_vecMul (v : Vec ℝ r) (a : Mat ℝ r c) :
    (vecMul v a).fn = v.fn ᵥ* a.matrix := by
  ext j
  simp only [Vec.fn, Vec.get_eq, vecMul, Vector.getElem_map, Vec.dot_eq]
  refine congrArg (v.fn ⬝ᵥ ·) ?_
  ext i
  simp [Vec.fn, Vec.get_eq, matrix]

@[simp] theorem matrix_mul (a : Mat ℝ r k) (b : Mat ℝ k c) :
    (mul a b).matrix = a.matrix * b.matrix := by
  ext i j
  simp [matrix, Vec.get_eq, mul, Vec.dot_eq, Matrix.mul_apply, dotProduct, Vec.fn]

theorem bilinear_eq (u : Vec ℝ r) (a : Mat ℝ r c) (v : Vec ℝ c) :
    bilinear u a v = u.fn ⬝ᵥ a.matrix *ᵥ v.fn := by
  rw [bilinear, Vec.dot_eq, fn_vecMul, dotProduct_mulVec]

theorem halfForm_eq (w : Mat ℝ n n) (d : Vec ℝ n) :
    w.halfForm d = (d.fn ⬝ᵥ w.matrix *ᵥ d.fn) / 2 := by
  rw [halfForm, bilinear_eq, Vec.fn_scale, smul_dotProduct]
  norm_num
  ring

end Mat

end TrajOpt
