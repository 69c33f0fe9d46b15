import Mathlib
import TrajOpt.Linear.Tensor

/-!
# Arrays of vectors and matrices

A vector or a matrix that is handed over as an array is read back as it was, and only with its own
dimensions.

## Main statements

* `Tensor.toVec?_ofVec`, `Tensor.toMat?_ofMat` - what is read back.
* `Tensor.ofVec_of_toVec?`, `Tensor.ofMat_of_toMat?` - the array of what was read.
-/

namespace TrajOpt

variable {α : Type} {n m : Nat}

namespace Vec

theorem ofList?_eq_some {k : Nat} {l : List α} {v : Vec α k} :
    ofList? k l = some v ↔ v.toList = l := by
  unfold ofList?
  constructor
  · intro h
    split at h
    next hlength =>
      subst hlength
      cases h
      simp [ofList]
    next => cases h
  · rintro rfl
    have hlength : v.toList.length = k := v.length_toList
    rw [dif_pos hlength]
    congr 1
    apply Vector.toList_inj.1
    obtain ⟨⟨l⟩, rfl⟩ := v
    rfl

theorem ofList?_toList (v : Vec α n) : ofList? n v.toList = some v := ofList?_eq_some.2 rfl

end Vec

namespace Mat

theorem ofLists?_toLists (a : Mat α n m) :
    ofLists? n m (a.toList.map Vector.toList) = some a := by
  have hrows : ∀ rows : List (Vec α m),
      (rows.map Vector.toList).mapM (Vec.ofList? m) = some rows := by
    intro rows
    induction rows with
    | nil => rfl
    | cons row rows ih => simp [List.mapM_cons, Vec.ofList?_toList, ih]
  rw [ofLists?, hrows]
  exact Vec.ofList?_toList a

end Mat

namespace Tensor

theorem toVec?_eq_some {t : Tensor α} {v : Vec α n} :
    t.toVec? n = some v ↔ t.shape = [n] ∧ v.toList = t.entries := by
  rw [toVec?, Option.ite_none_right_eq_some, Vec.ofList?_eq_some]

theorem shape_of_toMat? {t : Tensor α} {a : Mat α n m} (h : t.toMat? n m = some a) :
    t.shape = [n, m] :=
  (Option.ite_none_right_eq_some.1 h).1

@[simp] theorem toVec?_ofVec (v : Vec α n) : (ofVec v).toVec? n = some v :=
  toVec?_eq_some.2 ⟨rfl, rfl⟩

theorem ofVec_injective : Function.Injective (ofVec : Vec α n → Tensor α) := by
  intro v w h
  have hread : (ofVec v).toVec? n = (ofVec w).toVec? n := by rw [h]
  rwa [toVec?_ofVec, toVec?_ofVec, Option.some.injEq] at hread

/-- Rows of equal length are found again in the list of all their entries. -/
theorem rowsOf_flatten {k : Nat} {rows : List (List α)} (h : ∀ row ∈ rows, row.length = k) :
    rowsOf k rows.length rows.flatten = rows := by
  induction rows with
  | nil => rfl
  | cons row rows ih =>
    have hrow : row.length = k := h row List.mem_cons_self
    rw [List.length_cons, List.flatten_cons, rowsOf, List.take_left' hrow, List.drop_left' hrow,
      ih fun r hr => h r (List.mem_cons_of_mem _ hr)]

@[simp] theorem toMat?_ofMat (a : Mat α n m) : (ofMat a).toMat? n m = some a := by
  have hrows : rowsOf m n (a.toList.flatMap Vector.toList) = a.toList.map Vector.toList := by
    have hlength : ∀ row ∈ a.toList.map Vector.toList, row.length = m := by simp
    have hflatten := rowsOf_flatten hlength
    rwa [List.length_map, Vector.length_toList, ← List.flatMap_def] at hflatten
  show (if [n, m] = [n, m] then
    Mat.ofLists? n m (rowsOf m n (a.toList.flatMap Vector.toList)) else none) = some a
  rw [if_pos rfl, hrows, Mat.ofLists?_toLists]

/-- An array is read as a vector of its own dimension only. -/
theorem ofVec_of_toVec? {k : Nat} {v : Vec α n} {w : Vec α k}
    (h : (ofVec v).toVec? k = some w) : ofVec w = ofVec v := by
  obtain ⟨hshape, hentries⟩ := toVec?_eq_some.1 h
  rw [ofVec, hentries, ← hshape]

/-- An array is read as a matrix of its own dimensions only. -/
theorem ofMat_of_toMat? {r c : Nat} {a : Mat α n m} {b : Mat α r c}
    (h : (ofMat a).toMat? r c = some b) : ofMat b = ofMat a := by
  cases shape_of_toMat? h
  rw [toMat?_ofMat] at h
  rw [Option.some.inj h]

end Tensor

end TrajOpt
