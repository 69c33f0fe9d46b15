import TrajOpt.Proofs.Linear.Forms

/-!
# Vectors and matrices of two parts

Controls with slacks are vectors of two parts, and what is linear or quadratic in them is given by
matrices of blocks.

## Main statements

* `Mat.mulVec_above`, `Mat.mulVec_beside` - the products of blocks with vectors.
* `Mat.bilinear_above`, `Mat.halfForm_ofBlocks` - the forms of blocks.
-/

namespace TrajOpt

variable {n m k : Nat}

theorem Vec.dot_append (u : Vec ℝ n) (v : Vec ℝ m) (w : Vec ℝ (n + m)) :
    dot (append u v) w = dot u (left w) + dot v (right w) := by
  rw [dot_eq, dot_eq, dot_eq, dotProduct, Fin.sum_univ_add]
  simp [dotProduct, fn, get_eq, append, left, right]

theorem Vec.append_zero : append (zero m : Vec ℝ m) (zero n) = zero (m + n) := by
  ext i hi
  by_cases h : i < m
  · simp [append, zero, h]
  · simp [append, zero, Vector.getElem_append]

theorem Vec.left_add (v w : Vec ℝ (n + m)) : left (v + w) = left v + left w := by
  ext i hi
  simp [left]

theorem Vec.right_add (v w : Vec ℝ (n + m)) : right (v + w) = right v + right w := by
  ext i hi
  simp [right]

theorem Vec.append_add_append (u u' : Vec ℝ n) (v v' : Vec ℝ m) :
    append u v + append u' v' = append (u + u') (v + v') := by
  ext i hi
  by_cases h : i < n
  · simp [append, h]
  · simp [append, Vector.getElem_append, h]

theorem Vec.append_sub_append (u u' : Vec ℝ n) (v v' : Vec ℝ m) :
    append u v - append u' v' = append (u - u') (v - v') := by
  ext i hi
  by_cases h : i < n
  · simp [append, h]
  · simp [append, Vector.getElem_append, h]

namespace Mat

theorem diagonal_mulVec (a : ℝ) (v : Vec ℝ k) : (diagonal k a).mulVec v = Vec.scale a v := by
  apply Vec.fn_injective
  simp [matrix_diagonal, Matrix.smul_mulVec]

theorem identity_mulVec (v : Vec ℝ k) : (identity k).mulVec v = v := by
  apply Vec.fn_injective
  simp

theorem mulVec_above (a : Mat ℝ n k) (b : Mat ℝ m k) (v : Vec ℝ k) :
    (above a b).mulVec v = Vec.append (a.mulVec v) (b.mulVec v) := by
  ext i hi
  by_cases h : i < n
  · simp [above, mulVec, Vec.append, h]
  · simp [above, mulVec, Vec.append, Vector.getElem_append, h]

theorem mulVec_beside (a : Mat ℝ k n) (b : Mat ℝ k m) (v : Vec ℝ (n + m)) :
    (beside a b).mulVec v = a.mulVec (Vec.left v) + b.mulVec (Vec.right v) := by
  ext i hi
  simp [beside, mulVec, Vec.dot_append]

@[simp] theorem zero_mulVec (v : Vec ℝ k) : (zero m k).mulVec v = Vec.zero m := by
  apply Vec.fn_injective
  simp

theorem bilinear_eq_dot (u : Vec ℝ m) (a : Mat ℝ m n) (v : Vec ℝ n) :
    bilinear u a v = Vec.dot (a.mulVec v) u := by
  rw [bilinear_eq, Vec.dot_comm, Vec.dot_eq, fn_mulVec]

theorem bilinear_above (a : Mat ℝ n k) (b : Mat ℝ m k) (u : Vec ℝ (n + m)) (v : Vec ℝ k) :
    bilinear u (above a b) v = bilinear (Vec.left u) a v + bilinear (Vec.right u) b v := by
  rw [bilinear_eq_dot, bilinear_eq_dot, bilinear_eq_dot, mulVec_above, Vec.dot_append]

theorem halfForm_eq_dot (w : Mat ℝ n n) (d : Vec ℝ n) :
    w.halfForm d = Vec.dot (w.mulVec d) d / 2 := by
  rw [halfForm_eq, Vec.dot_comm, Vec.dot_eq, fn_mulVec]

/-- A form without mixed terms is the sum of the forms of its blocks. -/
theorem halfForm_ofBlocks (a : Mat ℝ n n) (d : Mat ℝ m m) (v : Vec ℝ (n + m)) :
    (ofBlocks a (zero n m) (zero m n) d).halfForm v =
      a.halfForm (Vec.left v) + d.halfForm (Vec.right v) := by
  simp only [halfForm_eq_dot, ofBlocks, mulVec_above, mulVec_beside, Vec.dot_append, zero_mulVec]
  simp only [Vec.dot_eq, Vec.fn_add, Vec.fn_zero, add_zero, zero_add]
  ring

end Mat

end TrajOpt
