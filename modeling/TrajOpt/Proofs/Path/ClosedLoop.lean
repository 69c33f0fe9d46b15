import Mathlib
import TrajOpt.Proofs.Linear.Forms
import TrajOpt.Proofs.Path.Rows

/-!
# Paths under feedback

In terms of its rows a path of the dynamics is given by equations: the first state is the initial
one, each control is what a policy makes of the state that it is applied in, and each further state
is what the dynamics make of the state and the control before it. The equations have one solution,
because each row is determined by the rows before it. A rollout is the case of a policy that does
not look at the state, and a closed loop that of the affine reaction to a deviation.

## Main definitions

* `Path.underPolicy` - the path under controls that may depend on the state.
* `Path.Reacts` - the equations of a closed loop.

## Main statements

* `Path.underPolicy_eq_ofRows_iff` - a path under a policy in terms of its rows.
* `Path.closedLoop_eq_ofRows_iff`, `Path.rollout_eq_ofRows_iff` - the two cases of it.
* `Path.closedLoop_unique` - a closed loop is the only solution of its equations.
-/

namespace TrajOpt

namespace Path

variable {α β : Type} {n m N : Nat}

/-- The path from `x` along a list of data, where each control is what the policy makes of the state
and the datum. -/
def underPolicy (step : Vec α n → Vec α m → Vec α n) (policy : Vec α n → β → Vec α m)
    (x : Vec α n) : List β → Path α n m
  | [] => ⟨[], x⟩
  | b :: bs =>
    let u := policy x b
    cons ⟨x, u⟩ (underPolicy step policy (step x u) bs)

section Policy

variable {step : Vec α n → Vec α m → Vec α n} {x : Vec α n} {X : Mat α (N + 1) n} {U : Mat α N m}

theorem rollout_eq_underPolicy (x : Vec α n) (us : List (Vec α m)) :
    rollout step x us = underPolicy step (fun _ u => u) x us := by
  induction us generalizing x with
  | nil => rfl
  | cons u us ih => rw [rollout, underPolicy, ih]

theorem closedLoopFrom_eq_underPolicy [Arith α] (size : α) (x : Vec α n)
    (l : List (Knot α n m × Gain α n m)) : closedLoopFrom step size x l =
      underPolicy step (fun x pair => reaction size x pair.1 pair.2) x l := by
  induction l generalizing x with
  | nil => rfl
  | cons pair l ih => rw [closedLoopFrom, underPolicy, ih]

theorem cons_eq_cons_iff {knot knot' : Knot α n m} {path path' : Path α n m} :
    cons knot path = cons knot' path' ↔ knot = knot' ∧ path = path' := by
  obtain ⟨knots, final⟩ := path
  obtain ⟨knots', final'⟩ := path'
  simp [cons, and_assoc]

/-- The rows of a path under a policy: the first state is the initial one, each control follows from
the state of the same row, and each further state from the row before it. -/
theorem underPolicy_eq_ofRows_iff {policy : Vec α n → β → Vec α m} {data : Vec β N} :
    underPolicy step policy x data.toList = ofRows X U ↔
      X.get 0 = x ∧ (∀ k, U.get k = policy (X.get k.castSucc) (data.get k)) ∧
        ∀ k, X.get k.succ = step (X.get k.castSucc) (U.get k) := by
  induction N generalizing x with
  | zero =>
    obtain rfl := data.eq_empty
    simp [underPolicy, ofRows, eq_comm]
  | succ N ih =>
    -- The first row follows from `x`, and the path of the others starts in the state after it.
    rw [Vec.toList_eq_cons data, underPolicy, ofRows_succ, cons_eq_cons_iff, ih, Knot.mk.injEq,
      Fin.forall_fin_succ, Fin.forall_fin_succ]
    simp only [Vec.get_rest, Fin.castSucc_zero, Fin.castSucc_succ, Fin.succ_zero_eq_one]
    constructor
    · rintro ⟨⟨rfl, hu⟩, hfirst, hcontrol, hstate⟩
      exact ⟨rfl, ⟨hu.symm, hcontrol⟩, hu ▸ hfirst, hstate⟩
    · rintro ⟨rfl, ⟨hu, hcontrol⟩, hfirst, hstate⟩
      exact ⟨⟨rfl, hu.symm⟩, hu ▸ hfirst, hcontrol, hstate⟩

/-- The rows of the path of given controls. -/
theorem rollout_eq_ofRows_iff : rollout step x U.toList = ofRows X U ↔
    X.get 0 = x ∧ ∀ k, X.get k.succ = step (X.get k.castSucc) (U.get k) := by
  rw [rollout_eq_underPolicy, underPolicy_eq_ofRows_iff]
  simp

end Policy

section ClosedLoop

variable [Arith α]

/-- The equations of a closed loop around the states `X` and controls `U`, for the states `X'` and
controls `U'`. -/
structure Reacts (step : Vec α n → Vec α m → Vec α n) (size : α) (X : Mat α (N + 1) n)
    (U : Mat α N m) (K : Vec (Mat α m n) N) (d : Mat α N m) (X' : Mat α (N + 1) n)
    (U' : Mat α N m) : Prop where
  first : X'.get 0 = X.get 0
  control : ∀ k, U'.get k = U.get k + Vec.scale size (d.get k) +
    Mat.mulVec (K.get k) (X'.get k.castSucc - X.get k.castSucc)
  state : ∀ k, X'.get k.succ = step (X'.get k.castSucc) (U'.get k)

variable {step : Vec α n → Vec α m → Vec α n} {size : α} {X X' : Mat α (N + 1) n}
  {U U' : Mat α N m} {K : Vec (Mat α m n) N} {d : Mat α N m}

/-- The rows of a closed loop are the solution of its equations. -/
theorem closedLoop_eq_ofRows_iff :
    closedLoop step size (ofRows X U) (gainRows K d) = ofRows X' U' ↔
      Reacts step size X U K d X' U' := by
  let data : Vec (Knot α n m × Gain α n m) N :=
    Vector.ofFn fun k => (⟨X.get k.castSucc, U.get k⟩, ⟨K.get k, d.get k⟩)
  have hdata : (ofRows X U).knots.zip (gainRows K d) = data.toList := by
    refine List.ext_getElem (by simp [gainRows, data]) fun k h₁ h₂ => ?_
    simp [ofRows, gainRows, data]
  rw [closedLoop, first_ofRows, hdata, closedLoopFrom_eq_underPolicy, underPolicy_eq_ofRows_iff]
  simp only [data, Vec.get_eq, Vector.getElem_ofFn, reaction]
  constructor
  · rintro ⟨hfirst, hcontrol, hstate⟩
    exact ⟨hfirst, hcontrol, hstate⟩
  · rintro ⟨hfirst, hcontrol, hstate⟩
    exact ⟨hfirst, hcontrol, hstate⟩

/-- Around a path of the dynamics nothing changes in exact arithmetic unless a gain has a change of
its own and the step size is not zero, whatever the feedback. -/
theorem closedLoop_of_still {step : Vec ℝ n → Vec ℝ m → Vec ℝ n} {size : ℝ}
    {X : Mat ℝ (N + 1) n} {U : Mat ℝ N m} {K : Vec (Mat ℝ m n) N} {d : Mat ℝ N m}
    (h : rollout step (X.get 0) U.toList = ofRows X U)
    (hstill : ∀ k, Vec.scale size (d.get k) = Vec.zero m) :
    closedLoop step size (ofRows X U) (gainRows K d) = ofRows X U := by
  refine closedLoop_eq_ofRows_iff.2 ⟨rfl, fun k => ?_, (rollout_eq_ofRows_iff.1 h).2⟩
  apply Vec.fn_injective
  rw [hstill, Vec.sub_self]
  simp

/-- The closed loop has as many knots as there are rows, its rows are the only solution of the
equations, and it is the path of its own controls from the same state. Without a change of its own,
or with the step size zero, it is the path it started from, if that is one of the dynamics; the last
statement is about exact arithmetic. -/
theorem closedLoop_unique (n m : Nat) :
    (∀ (α : Type) [Arith α] (N : Nat) (step : Vec α n → Vec α m → Vec α n)
        (X : Mat α (N + 1) n) (U : Mat α N m) (K : Vec (Mat α m n) N) (d : Mat α N m) (size : α),
      ∃ (X' : Mat α (N + 1) n) (U' : Mat α N m),
        closedLoop step size (ofRows X U) (gainRows K d) = ofRows X' U' ∧
        (∀ X'' U'', Reacts step size X U K d X'' U'' ↔ X'' = X' ∧ U'' = U') ∧
        rollout step (X.get 0) U'.toList = ofRows X' U') ∧
    ∀ (N : Nat) (step : Vec ℝ n → Vec ℝ m → Vec ℝ n) (X : Mat ℝ (N + 1) n) (U : Mat ℝ N m)
        (K : Vec (Mat ℝ m n) N) (d : Mat ℝ N m) (size : ℝ),
      rollout step (X.get 0) U.toList = ofRows X U → size = 0 ∨ d = Mat.zero N m →
        closedLoop step size (ofRows X U) (gainRows K d) = ofRows X U := by
  constructor
  · intro α _ N step X U K d size
    have hlength : (gainRows K d).length = (ofRows X U).knots.length := by simp [gainRows]
    obtain ⟨X', U', hloop⟩ := exists_ofRows
      ((length_knots_closedLoop step size _ hlength).trans length_knots_ofRows)
    refine ⟨X', U', hloop, fun X'' U'' => ?_, ?_⟩
    · rw [← closedLoop_eq_ofRows_iff, hloop, ofRows_inj, eq_comm, eq_comm (a := U')]
    · have hequations := closedLoop_eq_ofRows_iff.1 hloop
      exact rollout_eq_ofRows_iff.2 ⟨hequations.first, hequations.state⟩
  · intro N step X U K d size hrollout hstill
    refine closedLoop_of_still hrollout fun k => ?_
    apply Vec.fn_injective
    obtain rfl | rfl := hstill
    · simp
    · simp [Mat.zero, Vec.get_eq]

/-- The dynamics `x² + u` around two intervals: with the step size zero, and with a full step. -/
theorem closedLoop_square :
    let step : Vec ℝ 1 → Vec ℝ 1 → Vec ℝ 1 := fun x u => #v[x.get 0 * x.get 0 + u.get 0]
    let X : Mat ℝ 3 1 := #v[#v[1], #v[3], #v[2]]
    let U : Mat ℝ 2 1 := #v[#v[2], #v[-7]]
    let gains := gainRows #v[#v[#v[5]], #v[#v[-1]]] #v[#v[4], #v[1]]
    rollout step (X.get 0) U.toList = ofRows X U ∧
    closedLoop step 0 (ofRows X U) gains = ofRows X U ∧
    closedLoop step 1 (ofRows X U) gains = ofRows #v[#v[1], #v[7], #v[39]] #v[#v[6], #v[-10]] := by
  intro step X U gains
  have hrollout : rollout step (X.get 0) U.toList = ofRows X U := by
    refine rollout_eq_ofRows_iff.2 ⟨rfl, fun k => ?_⟩
    fin_cases k <;> norm_num [step, X, U, Vec.get_eq]
  refine ⟨hrollout, (closedLoop_unique 1 1).2 2 step X U _ _ 0 hrollout (.inl rfl), ?_⟩
  obtain ⟨X', U', hloop, hiff, -⟩ := (closedLoop_unique 1 1).1 ℝ 2 step X U
    #v[#v[#v[5]], #v[#v[-1]]] #v[#v[4], #v[1]] 1
  have hreacts : Reacts step 1 X U #v[#v[#v[5]], #v[#v[-1]]] #v[#v[4], #v[1]]
      #v[#v[1], #v[7], #v[39]] #v[#v[6], #v[-10]] := by
    refine ⟨rfl, fun k => ?_, fun k => ?_⟩
    · fin_cases k <;> apply Vec.fn_injective <;> funext i <;> fin_cases i <;>
        norm_num [X, U, Vec.fn, Vec.get_eq, Mat.mulVec, Vec.dot_eq, dotProduct]
    · fin_cases k <;> norm_num [step, Vec.get_eq]
  obtain ⟨rfl, rfl⟩ := (hiff _ _).1 hreacts
  exact hloop

end ClosedLoop

end Path

end TrajOpt
