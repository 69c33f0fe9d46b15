import Mathlib
import TrajOpt.Proofs.Path

/-!
# The rows of a path

The states and the controls of a path are often kept as two arrays, the states with one row more.
Arrays with these numbers of rows and paths are the same thing.

## Main definitions

* `Path.ofRows`, `Path.gainRows` - paths and gains whose parts are the rows of arrays.

## Main statements

* `Path.ofRows_succ` - the first rows and the remaining ones.
* `Path.exists_ofRows`, `Path.ofRows_inj` - every path has rows, and only one choice of them.
* `Path.ofLists?_toList` - the rows of two arrays are read as their path.
-/

namespace TrajOpt

variable {α : Type} {n m N : Nat}

@[simp] theorem Vec.get_rest (v : Vec α (n + 1)) (k : Fin n) : (rest v).get k = v.get k.succ := by
  simp [get_eq]

theorem Vec.toList_eq_cons (v : Vec α (n + 1)) : v.toList = v.get 0 :: (rest v).toList := by
  refine List.ext_getElem (by simp) fun k h₁ h₂ => ?_
  cases k <;> simp [get_eq]

namespace Path

/-- The path whose states are the rows of `X` and whose controls are the rows of `U`. -/
def ofRows (X : Mat α (N + 1) n) (U : Mat α N m) : Path α n m where
  knots := List.ofFn fun k => ⟨X.get k.castSucc, U.get k⟩
  final := X.get (Fin.last N)

/-- The gains whose matrices and changes are the rows of `K` and `d`. -/
def gainRows (K : Vec (Mat α m n) N) (d : Mat α N m) : List (Gain α n m) :=
  List.ofFn fun k => ⟨K.get k, d.get k⟩

theorem ofRows_succ (X : Mat α (N + 2) n) (U : Mat α (N + 1) m) :
    ofRows X U = cons ⟨X.get 0, U.get 0⟩ (ofRows (Vec.rest X) (Vec.rest U)) := by
  simp [ofRows, cons, List.ofFn_succ]

section Rows

variable {X : Mat α (N + 1) n} {U : Mat α N m}

@[simp] theorem states_ofRows : (ofRows X U).states = X.toList := by
  refine List.ext_getElem (by simp [ofRows]) fun k h₁ h₂ => ?_
  have hk : k ≤ N := by simpa [Nat.lt_succ_iff] using h₂
  obtain hlt | rfl := Nat.lt_or_eq_of_le hk
  · simp [states, ofRows, Vec.get_eq, hlt]
  · simp [states, ofRows, Vec.get_eq]

@[simp] theorem controls_ofRows : (ofRows X U).controls = U.toList := by
  refine List.ext_getElem (by simp [ofRows]) fun k h₁ h₂ => ?_
  simp [controls, ofRows, Vec.get_eq]

@[simp] theorem length_knots_ofRows : (ofRows X U).knots.length = N := by
  simp [ofRows]

@[simp] theorem first_ofRows : (ofRows X U).first = X.get 0 := by
  cases N <;> simp [first, ofRows]

theorem ofRows_inj {X' : Mat α (N + 1) n} {U' : Mat α N m} :
    ofRows X U = ofRows X' U' ↔ X = X' ∧ U = U' := by
  constructor
  · intro h
    have hstates := congrArg states h
    have hcontrols := congrArg controls h
    simp only [states_ofRows, controls_ofRows] at hstates hcontrols
    exact ⟨Vector.toList_inj.1 hstates, Vector.toList_inj.1 hcontrols⟩
  · rintro ⟨rfl, rfl⟩
    rfl

/-- Every path has rows. -/
theorem exists_ofRows {path : Path α n m} (h : path.knots.length = N) :
    ∃ (X : Mat α (N + 1) n) (U : Mat α N m), path = ofRows X U := by
  have hX : path.states.length = N + 1 := by simp [h]
  have hU : path.controls.length = N := by simp [h]
  refine ⟨⟨path.states.toArray, by simpa using hX⟩, ⟨path.controls.toArray, by simpa using hU⟩, ?_⟩
  apply eq_of_states <;> simp

theorem ofLists?_states (path : Path α n m) : ofLists? path.states path.controls = some path := by
  obtain ⟨knots, final⟩ := path
  induction knots with
  | nil => rfl
  | cons knot knots ih =>
    change ofLists? (knot.state :: states ⟨knots, final⟩)
      (knot.control :: controls ⟨knots, final⟩) = _
    rw [ofLists?, ih]
    rfl

/-- The rows of two arrays are read as the path that has them. -/
theorem ofLists?_toList (X : Mat α (N + 1) n) (U : Mat α N m) :
    ofLists? X.toList U.toList = some (ofRows X U) := by
  rw [← states_ofRows (U := U), ← controls_ofRows (X := X), ofLists?_states]

end Rows

end Path

end TrajOpt
