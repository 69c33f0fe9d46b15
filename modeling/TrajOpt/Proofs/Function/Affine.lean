import Mathlib
import TrajOpt.Function.Adapted
import TrajOpt.Proofs.Linear.Forms

/-!
# Derivatives of affine functions

A function of vectors that is affine has its matrix as its derivative everywhere. Central
differences find that matrix without an error, whatever their step is.

## Main definitions

* `Vec.HasDerivative` - a matrix is the derivative of a function of vectors at a point.
* `Vec.IsAffine` - a function of vectors is affine with the given matrix.
* `Adapted.TracesExactly` - tracing yields the derivative of a function where there is one.

## Main statements

* `Vec.IsAffine.hasDerivative` - the derivative of an affine function.
* `Vec.IsAffine.centralDifference_eq` - its central differences.
* `Adapted.jacobian_of_affine` - what is computed for an affine function, traced or not.
-/

namespace TrajOpt

open Matrix

variable {n r : Nat}

theorem differenceStep_ne_zero : (differenceStep : ℝ) ≠ 0 := by norm_num [differenceStep]

namespace Vec

/-- The matrix `J` is the derivative of the function at `x`. -/
def HasDerivative (f : Vec ℝ n → Vec ℝ r) (J : Mat ℝ r n) (x : Vec ℝ n) : Prop :=
  HasFDerivAt (fun z : Fin n → ℝ => (f (Vector.ofFn z)).fn) J.matrix.mulVecLin.toContinuousLinearMap
    x.fn

/-- The function is affine, and `F` is its matrix. -/
def IsAffine (f : Vec ℝ n → Vec ℝ r) (F : Mat ℝ r n) : Prop := ∃ b, ∀ x, f x = F.mulVec x + b

variable {f : Vec ℝ n → Vec ℝ r} {F : Mat ℝ r n}

theorem IsAffine.hasDerivative (hf : IsAffine f F) (x : Vec ℝ n) : HasDerivative f F x := by
  obtain ⟨b, hb⟩ := hf
  have heq : (fun z : Fin n → ℝ => (f (Vector.ofFn z)).fn) =
      fun z => F.matrix.mulVecLin.toContinuousLinearMap z + b.fn := by
    ext z i
    rw [hb, fn_add, Mat.fn_mulVec, fn_ofFn]
    rfl
  rw [HasDerivative, heq]
  exact (ContinuousLinearMap.hasFDerivAt _).add_const _

theorem HasDerivative.unique {J : Mat ℝ r n} {x : Vec ℝ n} (hF : HasDerivative f F x)
    (hJ : HasDerivative f J x) : F = J := by
  have hlinear := HasFDerivAt.unique hF hJ
  refine Mat.matrix_injective (Matrix.mulVec_injective (funext fun v => ?_))
  exact congrArg (fun l => l v) hlinear

theorem centralDifference_entry (eps : ℝ) (f : Vec ℝ n → Vec ℝ r) (x : Vec ℝ n) {i j : Nat}
    (hi : i < r) (hj : j < n) :
    (centralDifference eps f x)[i][j] =
      ((f (x + (Mat.diagonal n eps)[j]))[i] - (f (x + -(Mat.diagonal n eps)[j]))[i]) /
        (2.0 * eps) := by
  simp [centralDifference]

/-- A row of a diagonal matrix. -/
theorem fn_diagonal_row (a : ℝ) {j : Nat} (hj : j < n) :
    fn (Mat.diagonal n a)[j] = Pi.single ⟨j, hj⟩ a := by
  ext l
  simp [fn, get_eq, Mat.diagonal, Pi.single_apply, Fin.ext_iff, eq_comm]

/-- Central differences of an affine function are its matrix. -/
theorem IsAffine.centralDifference_eq (hf : IsAffine f F) {eps : ℝ} (heps : eps ≠ 0)
    (x : Vec ℝ n) : centralDifference eps f x = F := by
  obtain ⟨b, hb⟩ := hf
  ext i hi j hj
  set e : Vec ℝ n := (Mat.diagonal n eps)[j]
  have he : e.fn = Pi.single ⟨j, hj⟩ eps := fn_diagonal_row eps hj
  have hentry : ∀ d : Vec ℝ n, (f (x + d))[i] =
      (F.matrix *ᵥ (x.fn + d.fn)) ⟨i, hi⟩ + b[i] := by
    intro d
    rw [hb, ← fn_add, ← Mat.fn_mulVec]
    simp [fn, get_eq]
  have hproduct : (F.matrix *ᵥ e.fn) ⟨i, hi⟩ = F[i][j] * eps := by
    rw [he, Matrix.mulVec_single]
    rfl
  rw [centralDifference_entry, hentry, hentry, fn_neg, mulVec_add, mulVec_add, mulVec_neg,
    Pi.add_apply, Pi.add_apply, Pi.neg_apply, hproduct, show (2.0 : ℝ) = 2 by norm_num]
  field_simp
  ring

end Vec

section Adapted

variable {α : Type}

/-- A vector is the one of its entries. -/
theorem Vec.apply_ofList_toList {β : Type} (φ : ∀ k, Vec α k → β) (x : Vec α n) :
    φ _ (ofList x.toList) = φ n x := by
  obtain ⟨⟨l⟩, rfl⟩ := x
  rfl

/-- The rows of a matrix as the derivatives of the values. -/
theorem Mat.toArray_map_toLists [Zero α] (a : Mat α r n) :
    (a.toLists.map fun row => Vector.ofFn fun j : Fin n => row[j.val]?.getD 0).toArray =
      a.toArray := by
  have hrow : ∀ v : Vec α n, (Vector.ofFn fun j : Fin n => v.toList[j.val]?.getD 0) = v := by
    intro v
    ext j hj
    simp
  simp only [toLists, List.map_map, Function.comp_def, hrow, List.map_id']
  exact Array.toArray_toList

theorem Dual.jacobian_entry [Scalar α] (f : Vec (Dual α) n → Vec (Dual α) r) (x : Vec α n)
    {i j : Nat} (hi : i < r) (hj : j < n) :
    (jacobian f x)[i][j] = (f (along x j))[i].slopeOrZero := by
  simp [jacobian]

namespace Args

section Replaced

variable {args : Args α} {i : Int} {k : Nat}

theorem at?_of_place? (h : UserFunction.place? args.length i = some k) :
    args.at? i = args[k]? := by
  rw [at?, h, Option.bind_some]

/-- Except at `-1`, only the argument that the index denotes is another one. -/
theorem replaced_eq_set (h : UserFunction.place? args.length i = some k) (hi : i ≠ -1)
    (arg : Arg α) : args.replaced i arg = args.set k arg := by
  simp only [UserFunction.place?, Option.ite_none_right_eq_some, Option.some.injEq] at h
  obtain ⟨⟨hnonneg, hlt⟩, hk⟩ := h
  have hbefore : cut args.length i = k := hk
  have hafter : cut args.length (i + 1) = k + 1 := by
    unfold cut
    split at hk <;> split <;> omega
  have hlt : k < args.length := by omega
  rw [replaced, hbefore, hafter, List.set_eq_take_append_cons_drop, if_pos hlt,
    List.append_assoc, List.singleton_append]

/-- At `-1` all arguments follow once more. -/
theorem replaced_last (args : Args α) (arg : Arg α) :
    args.replaced (-1) arg = args.dropLast ++ [arg] ++ args := by
  have hbefore : cut args.length (-1) = args.length - 1 := by
    unfold cut
    split <;> omega
  rw [replaced, hbefore, List.dropLast_eq_take]
  rfl

theorem place?_natCast {size k : Nat} (h : k < size) :
    UserFunction.place? size (k : Int) = some k := by
  have hnonneg : ¬ (k : Int) < 0 := by omega
  simp [UserFunction.place?, hnonneg, h]

end Replaced

variable {args : Args ℝ} {k : Nat} {x : Vec ℝ n}

/-- The derivative along a vector, traced. -/
theorem jacobian_vector (hargs : args[k]? = some (.vector x.toList))
    (f : Args (Dual ℝ) → Vec (Dual ℝ) r) (varying : List Nat) :
    args.jacobian f varying k =
      (Dual.jacobian (fun z => f ((args.free varying).set k (.vector z.toList))) x).toLists := by
  rw [jacobian, hargs]
  exact Vec.apply_ofList_toList (fun _ z => (Dual.jacobian
    (fun z => f ((args.free varying).set k (.vector z.toList))) z).toLists) x

/-- The derivative along a vector by central differences. -/
theorem differences_vector {i : Int} (hplace : UserFunction.place? args.length i = some k)
    (hi : i ≠ -1) (hargs : args[k]? = some (.vector x.toList)) (eps : ℝ) (f : Args ℝ → Vec ℝ r) :
    args.differences eps f i =
      (centralDifference eps (fun z => f (args.set k (.vector z.toList))) x).toLists := by
  rw [differences, at?_of_place? hplace, hargs]
  simp only [replaced_eq_set hplace hi]
  exact Vec.apply_ofList_toList (fun _ z => (centralDifference eps
    (fun z => f (args.set k (.vector z.toList))) z).toLists) x

end Args

namespace Adapted

/-- The values where argument `k` is a vector and the other arguments are those given. -/
def along [Scalar α] (f : Adapted α) (args : Args α) (k : Nat) (z : Vec α n) : Vec α f.size :=
  f.value id (args.set k (.vector z.toList))

/-- Where the function has a derivative along argument `k`, tracing yields it. -/
def TracesExactly (f : Adapted ℝ) (args : Args ℝ) (varying : List Nat) (k n : Nat) : Prop :=
  ∀ (x : Vec ℝ n) (J : Mat ℝ f.size n), args[k]? = some (.vector x.toList) →
    Vec.HasDerivative (f.along args k) J x →
      args.jacobian (f.value Dual.constant) varying k = J.toLists

variable {f : Adapted ℝ} {args : Args ℝ} {varying : List Nat} {k : Nat} {x : Vec ℝ n}
  {F : Mat ℝ f.size n}

/-- The rows of the derivative of an affine function, be they traced or central differences. -/
theorem jacobian_of_affine (hargs : args[k]? = some (.vector x.toList))
    (htraced : f.traceable = true → f.TracesExactly args varying k n)
    (hf : Vec.IsAffine (f.along args k) F) : f.jacobian args varying k = F.toLists := by
  unfold jacobian
  split
  next htraceable => exact htraced htraceable x F hargs (hf.hasDerivative x)
  next =>
    have hk : k < args.length := (List.getElem?_eq_some_iff.1 hargs).1
    rw [Args.differences_vector (Args.place?_natCast hk) (by omega) hargs]
    exact congrArg Mat.toLists (hf.centralDifference_eq differenceStep_ne_zero x)

end Adapted

end Adapted

end TrajOpt
