import Mathlib
import TrajOpt.Dynamics.Systems
import TrajOpt.Function.Derivative
import TrajOpt.Proofs.Function.Affine

/-!
# Central differences of quadratic functions

Along one coordinate a quadratic function is a polynomial of degree two in the step. The even part
of it cancels in a central difference, so that nothing but the derivative is left, whatever the step
is. The matrix has a row for each value and a column for each entry of the argument; the other
arguments stay as they are.

## Main definitions

* `Vec.IsQuadratic` - the values are polynomials of degree at most two in every entry.
* `Vec.HasPartials` - a matrix consists of the partial derivatives at a point.
* `Args.IsJacobian` - rows of numbers are the partial derivatives along the argument that an index
  denotes.

## Main statements

* `Vec.IsQuadratic.hasPartials` - central differences of a quadratic function are exact.
* `Callable.areJacobians_differencesAlong` - the same for any selection of arguments without the
  index `-1`.
* `UserFunction.isTypeError_differences_last` - at the index `-1` a function with named parameters
  is not called in the right way.
-/

namespace TrajOpt

open Polynomial

variable {n r : Nat}

section Polynomial

/-- The even part of a polynomial of degree two cancels in a central difference. -/
theorem centralDifference_eval {q : ℝ[X]} (hq : q.natDegree ≤ 2) {eps : ℝ} (heps : eps ≠ 0) :
    (q.eval eps - q.eval (-eps)) / (2 * eps) = q.derivative.eval 0 := by
  have heval : ∀ t, q.eval t = q.coeff 0 + q.coeff 1 * t + q.coeff 2 * t ^ 2 := by
    intro t
    rw [eval_eq_sum_range' (Nat.lt_succ_of_le hq) t, Finset.sum_range_succ, Finset.sum_range_succ,
      Finset.sum_range_one, pow_zero, mul_one, pow_one]
  rw [heval, heval, ← coeff_zero_eq_eval_zero, coeff_derivative]
  field_simp
  push_cast
  ring

/-- Only the entry that varies contributes to the degree. -/
theorem natDegree_aeval_le {σ : Type} [DecidableEq σ] (P : MvPolynomial σ ℝ) {g : σ → ℝ[X]} {j : σ}
    (hj : (g j).natDegree ≤ 1) (hother : ∀ l, l ≠ j → (g l).natDegree = 0) :
    (MvPolynomial.aeval g P).natDegree ≤ P.degreeOf j := by
  rw [MvPolynomial.aeval_def, MvPolynomial.eval₂_eq]
  refine natDegree_sum_le_of_forall_le _ _ fun d hd => ?_
  have hfactor : ∀ l ∈ d.support, (g l ^ d l).natDegree ≤ if l = j then d j else 0 := by
    intro l _
    refine natDegree_pow_le.trans ?_
    split
    next h =>
      subst h
      simpa using Nat.mul_le_mul_left (d l) hj
    next h => rw [hother l h, mul_zero]
  calc _ ≤ (∏ l ∈ d.support, g l ^ d l).natDegree := natDegree_C_mul_le _ _
    _ ≤ ∑ l ∈ d.support, (g l ^ d l).natDegree := natDegree_prod_le _ _
    _ ≤ ∑ l ∈ d.support, if l = j then d j else 0 := Finset.sum_le_sum hfactor
    _ ≤ d j := by
      rw [Finset.sum_ite_eq']
      split <;> omega
    _ ≤ P.degreeOf j := MvPolynomial.monomial_le_degreeOf j hd

theorem degreeOf_term_le {σ : Type} [DecidableEq σ] (a : ℝ) (k j : σ) {e : Nat} (he : e ≤ 2) :
    (.C a * .X k ^ e : MvPolynomial σ ℝ).degreeOf j ≤ 2 := by
  refine (MvPolynomial.degreeOf_C_mul_le _ _ _).trans
    ((MvPolynomial.degreeOf_pow_le _ _ _).trans ?_)
  rw [MvPolynomial.degreeOf_X]
  split <;> omega

end Polynomial

namespace Vec

/-- The values of the function are polynomials of degree at most two in every entry, as they are
where the degree altogether is at most two. -/
def IsQuadratic (f : Vec ℝ n → Vec ℝ r) : Prop :=
  ∀ i, ∃ P : MvPolynomial (Fin n) ℝ, (∀ j, P.degreeOf j ≤ 2) ∧ ∀ x, (f x).get i = P.eval x.fn

theorem IsAffine.isQuadratic {f : Vec ℝ n → Vec ℝ r} {F : Mat ℝ r n} (hf : IsAffine f F) :
    IsQuadratic f := by
  obtain ⟨b, hf⟩ := hf
  intro i
  refine ⟨∑ j, .C (F.matrix i j) * .X j ^ 1 + .C (b.fn i), fun j => ?_, fun x => ?_⟩
  · refine (MvPolynomial.degreeOf_add_le _ _ _).trans (max_le ?_ (by simp))
    refine (MvPolynomial.degreeOf_sum_le _ _ _).trans (Finset.sup_le fun l _ => ?_)
    exact degreeOf_term_le _ _ _ (by omega)
  · calc (f x).get i = (F.mulVec x + b).fn i := by rw [hf]; rfl
      _ = _ := by simp [Matrix.mulVec, dotProduct]

/-- Entry `i`, `j` of the matrix is the derivative of value `i` along entry `j` of `x`. -/
structure HasPartials (f : Vec ℝ n → Vec ℝ r) (J : Mat ℝ r n) (x : Vec ℝ n) : Prop where
  hasDerivAt (i : Fin r) (j : Fin n) :
    HasDerivAt (fun t => (f (x.set j t j.isLt)).get i) ((J.get i).get j) (x.get j)

/-- The values as the entry `j` moves are those of a polynomial in its deviation. -/
theorem IsQuadratic.exists_along {f : Vec ℝ n → Vec ℝ r} (hf : IsQuadratic f) (x : Vec ℝ n)
    (i : Fin r) (j : Fin n) :
    ∃ q : ℝ[X], q.natDegree ≤ 2 ∧
      ∀ (z : Vec ℝ n) (t : ℝ), z.fn = x.fn + Pi.single j t → (f z).get i = q.eval t := by
  obtain ⟨P, hP, hf⟩ := hf i
  let g : Fin n → ℝ[X] := fun l => C (x.fn l) + if l = j then X else 0
  refine ⟨MvPolynomial.aeval g P, (natDegree_aeval_le P (j := j) ?_ ?_).trans (hP j), ?_⟩
  · simp [g]
  · intro l hl
    simp [g, hl]
  · intro z t hz
    have hg : (fun l => (g l).eval t) = z.fn := by
      ext l
      rw [hz, Pi.add_apply, Pi.single_apply]
      by_cases hl : l = j <;> simp [g, hl]
    rw [hf, ← hg, MvPolynomial.aeval_def, MvPolynomial.polynomial_eval_eval₂, algebraMap_eq,
      show (evalRingHom t).comp C = RingHom.id ℝ from RingHom.ext fun _ => eval_C]
    rfl

theorem fn_set (x : Vec ℝ n) (j : Fin n) (t : ℝ) :
    fn (x.set j t j.isLt) = x.fn + Pi.single j (t - x.get j) := by
  ext l
  by_cases hl : l = j
  · subst hl
    simp [fn, get_eq]
  · simp [fn, get_eq, hl, Fin.val_ne_of_ne (Ne.symm hl)]

/-- Central differences of a quadratic function are its partial derivatives. -/
theorem IsQuadratic.hasPartials {f : Vec ℝ n → Vec ℝ r} (hf : IsQuadratic f) {eps : ℝ}
    (heps : eps ≠ 0) (x : Vec ℝ n) : HasPartials f (centralDifference eps f x) x := by
  refine ⟨fun i j => ?_⟩
  obtain ⟨q, hq, hf⟩ := hf.exists_along x i j
  have hmove : (fun t => (f (x.set j t j.isLt)).get i) = fun t => q.eval (t - x.get j) :=
    funext fun t => hf _ _ (fn_set x j t)
  have hplus := hf (x + (Mat.diagonal n eps)[j.val]) eps (by rw [fn_add, fn_diagonal_row])
  have hminus := hf (x + -(Mat.diagonal n eps)[j.val]) (-eps) (by
    rw [fn_add, fn_neg, fn_diagonal_row, Pi.single_neg])
  have hentry : ((centralDifference eps f x).get i).get j = q.derivative.eval 0 := by
    rw [← centralDifference_eval hq heps, ← hplus, ← hminus, show (2 : ℝ) = 2.0 by norm_num]
    exact centralDifference_entry eps f x i.isLt j.isLt
  have hderiv : HasDerivAt (fun t => q.eval t) (q.derivative.eval 0) (x.get j - x.get j) := by
    simpa using q.hasDerivAt 0
  rw [hmove, hentry]
  exact hderiv.comp_sub_const (x.get j) (x.get j)

end Vec

/-- Two selections of the same kind whose parts are related in order. -/
def Selection.Forall₂ {ι κ : Type} (R : ι → κ → Prop) : Selection ι → Selection κ → Prop
  | .one i, .one k => R i k
  | .several l, .several l' => List.Forall₂ R l l'
  | _, _ => False

section MapM

variable {ι κ η : Type} {R : ι → κ → Prop} {f : ι → Except η κ}

theorem exists_forall₂_of_mapM : ∀ {l : List ι}, (∀ i ∈ l, ∃ k, f i = .ok k ∧ R i k) →
    ∃ l', l.mapM f = .ok l' ∧ List.Forall₂ R l l'
  | [], _ => ⟨[], rfl, .nil⟩
  | i :: l, h => by
    obtain ⟨k, hk, hR⟩ := h i List.mem_cons_self
    obtain ⟨l', hl', hrest⟩ := exists_forall₂_of_mapM fun i hi => h i (List.mem_cons_of_mem _ hi)
    exact ⟨k :: l', by rw [List.mapM_cons, hk, hl']; rfl, .cons hR hrest⟩

/-- Where each part has a result, so has the selection. -/
theorem Selection.exists_forall₂ {selection : Selection ι}
    (h : ∀ i ∈ selection.toList, ∃ k, f i = .ok k ∧ R i k) :
    ∃ results, selection.mapM f = .ok results ∧ selection.Forall₂ R results := by
  cases selection with
  | one i =>
    obtain ⟨k, hk, hR⟩ := h i List.mem_cons_self
    exact ⟨.one k, by rw [mapM, hk]; rfl, hR⟩
  | several l =>
    obtain ⟨l', hl', hR⟩ := exists_forall₂_of_mapM (l := l) h
    exact ⟨.several l', by rw [mapM, hl']; rfl, hR⟩

end MapM

namespace Args

/-- The index denotes argument `k`, which is the vector `x`. -/
structure Denotes (args : Args ℝ) (i : Int) (k : Nat) (x : Vec ℝ n) : Prop where
  place : UserFunction.place? args.length i = some k
  entries : args[k]? = some (.vector x.toList)

/-- Another argument that is equal to the one there changes nothing. -/
theorem Denotes.replaced_self {args : Args ℝ} {i : Int} {k : Nat} {x : Vec ℝ n}
    (h : args.Denotes i k x) (hi : i ≠ -1) : args.replaced i (.vector x.toList) = args := by
  obtain ⟨hk, hx⟩ := List.getElem?_eq_some_iff.1 h.entries
  rw [replaced_eq_set h.place hi, ← hx, List.set_getElem_self]

/-- The function of argument `k` alone, a vector of `n` entries, where the other arguments are as
given. -/
def restrict (f : Args ℝ → Vec ℝ r) (args : Args ℝ) (k : Nat) (z : Vec ℝ n) : Vec ℝ r :=
  f (args.set k (.vector z.toList))

/-- The index denotes a vector in which the function is quadratic. -/
def IsQuadraticIn (f : Args ℝ → Vec ℝ r) (args : Args ℝ) (i : Int) : Prop :=
  ∃ (k n : Nat) (x : Vec ℝ n), args.Denotes i k x ∧
    Vec.IsQuadratic (restrict f args k : Vec ℝ n → Vec ℝ r)

/-- The rows are the partial derivatives of the function along the argument that the index denotes,
which is a vector: one row for each value, and one column for each entry of the argument. -/
def IsJacobian (f : Args ℝ → Vec ℝ r) (args : Args ℝ) (i : Int) (rows : List (List ℝ)) : Prop :=
  ∃ (k n : Nat) (x : Vec ℝ n) (J : Mat ℝ r n), args.Denotes i k x ∧ rows = J.toLists ∧
    Vec.HasPartials (restrict f args k) J x

end Args

namespace Callable

variable {ν : Type} {f : Callable ℝ r} {args : Args ℝ} {eps : ℝ}

theorem isJacobian_differences {i : Int} (hcall : f.fault? (args.map Arg.length?) = none)
    (h : Args.IsQuadraticIn f.value args i) (hi : i ≠ -1) (heps : eps ≠ 0) :
    ∃ rows, (f.differences eps args i : Except (Error ν) _) = .ok rows ∧
      Args.IsJacobian f.value args i rows := by
  obtain ⟨k, n, x, hx, hf⟩ := h
  refine ⟨args.differences eps f.value i, ?_, k, n, x, _, hx,
    Args.differences_vector hx.place hi hx.entries eps f.value, hf.hasPartials heps x⟩
  simp only [differences, Args.at?_of_place? hx.place, hx.entries, hx.replaced_self hi, hcall]

/-- Along every selection of arguments in which a function is quadratic, central differences are its
partial derivatives: one matrix for each of the arguments, in the order in which they are selected.
An argument can be denoted by its distance from the end, except for the last one. -/
theorem areJacobians_differencesAlong {selection : Selection Int}
    (hcall : f.fault? (args.map Arg.length?) = none)
    (h : ∀ i ∈ selection.toList, Args.IsQuadraticIn f.value args i)
    (hlast : ∀ i ∈ selection.toList, i ≠ -1) (heps : eps ≠ 0) :
    ∃ jacobians, (f.differencesAlong eps args selection : Except (Error ν) _) = .ok jacobians ∧
      selection.Forall₂ (Args.IsJacobian f.value args) jacobians :=
  Selection.exists_forall₂ fun i hi => isJacobian_differences hcall (h i hi) (hlast i hi) heps

section Mixed

/-- The values `x₀ u₀ + t x₁²` and `u₀²`, of which the first is of degree three altogether. -/
def mixed {α : Type} : UserFunction α where
  name := "mixed"
  parameters := .names ["x", "u", "t"]
  inspectable := true
  traced := true
  failure := none
  body := .returns .vector
    [.add (.mul (.entry 0 0) (.entry 1 0)) (.mul (.number 2) (.mul (.entry 0 1) (.entry 0 1))),
      .mul (.entry 1 0) (.entry 1 0)]

theorem value_mixed (args : Args ℝ) : mixed.callable.value args =
    (#v[args.entry 0 0 * args.entry 1 0 + args.number 2 * (args.entry 0 1 * args.entry 0 1),
      args.entry 1 0 * args.entry 1 0] : Vec ℝ 2) := by
  rfl

/-- At a state, a control and a time step, along the control, the state and the control again, of
which two are counted from the end. -/
theorem areJacobians_mixed :
    let f : Callable ℝ 2 := mixed.callable
    let args : Args ℝ := [.vector [1, 2], .vector [3], .number (1 / 2)]
    f.fault? (args.map Arg.length?) = none ∧
    (∀ i ∈ (Selection.several [1, -3, -2]).toList, Args.IsQuadraticIn f.value args i) ∧
    (∀ i ∈ (Selection.several [1, -3, -2]).toList, i ≠ -1) ∧ (1 / 10 : ℝ) ≠ 0 ∧
    ∃ jacobians,
      (f.differencesAlong (1 / 10) args (.several [1, -3, -2]) : Except (Error Unit) _) =
        .ok jacobians ∧
      (Selection.several [1, -3, -2]).Forall₂ (Args.IsJacobian f.value args) jacobians := by
  intro f args
  have hstate : Args.IsQuadraticIn f.value args (-3) := by
    refine ⟨0, 2, #v[1, 2], ⟨rfl, rfl⟩, fun i => ?_⟩
    fin_cases i
    · refine ⟨.C 3 * .X 0 ^ 1 + .C (1 / 2) * .X 1 ^ 2, fun j => ?_, fun x => ?_⟩
      · exact (MvPolynomial.degreeOf_add_le _ _ _).trans
          (max_le (degreeOf_term_le _ _ _ (by omega)) (degreeOf_term_le _ _ _ le_rfl))
      · simp [f, args, value_mixed, Args.restrict, Args.entry, Args.number, Vec.fn, Vec.get_eq]
        ring
    · refine ⟨.C 9, fun j => by simp, fun x => ?_⟩
      simp [f, args, value_mixed, Args.restrict, Args.entry]
      norm_num
  have hcontrol : ∀ i, UserFunction.place? args.length i = some 1 →
      Args.IsQuadraticIn f.value args i := by
    intro i hi
    refine ⟨1, 1, #v[3], ⟨hi, rfl⟩, fun i => ?_⟩
    fin_cases i
    · refine ⟨.C 1 * .X 0 ^ 1 + .C 2, fun j => ?_, fun x => ?_⟩
      · refine (MvPolynomial.degreeOf_add_le _ _ _).trans
          (max_le (degreeOf_term_le _ _ _ (by omega)) ?_)
        simp
      · simp [f, args, value_mixed, Args.restrict, Args.entry, Args.number, Vec.fn, Vec.get_eq]
    · refine ⟨.C 1 * .X 0 ^ 2, fun j => ?_, fun x => ?_⟩
      · exact degreeOf_term_le _ _ _ le_rfl
      · simp [f, args, value_mixed, Args.restrict, Args.entry, Vec.fn, Vec.get_eq, pow_two]
  have hcall : f.fault? (args.map Arg.length?) = none := rfl
  have hall : ∀ i ∈ (Selection.several [1, -3, -2]).toList, Args.IsQuadraticIn f.value args i := by
    simpa [Selection.toList] using ⟨hcontrol 1 rfl, hstate, hcontrol (-2) rfl⟩
  have hlast : ∀ i ∈ (Selection.several [1, -3, -2]).toList, i ≠ -1 := by decide
  have heps : (1 / 10 : ℝ) ≠ 0 := by norm_num
  exact ⟨hcall, hall, hlast, heps, areJacobians_differencesAlong hcall hall hlast heps⟩

end Mixed

end Callable

namespace UserFunction

variable {α ν : Type}

theorem exists_misfit {names : List String} {count : Nat} (h : names.length < count)
    (name : String) : ∃ reason,
      (Parameters.names names).misfit? name count = some (Fault.misfit name reason) := by
  rw [Parameters.misfit?, if_pos h]
  exact ⟨_, rfl⟩

theorem tracingFault?_of_callFault? {f : UserFunction α} {lengths : List (Option Nat)}
    {fault : Fault} (h : f.callFault? lengths.length = some fault) :
    f.tracingFault? lengths = some fault := by
  unfold tracingFault? fault?
  split <;> simp [h]

/-- At the index `-1` a function that names its parameters is called with more arguments than it
has, although it can be called with the arguments that are given. -/
theorem isTypeError_differences_last [Scalar α] {f : UserFunction α} {names : List String}
    (hf : f.parameters = .names names) {args : Args α} {l : List α}
    (hargs : names.length = args.length) (hlast : args.at? (-1) = some (.vector l)) (eps : α) :
    ∃ fault, (f.callable.differences eps args (-1) : Except (Error ν) _) = .error (.raised fault) ∧
      fault.isTypeError = true := by
  have hpos : args ≠ [] := by
    rintro rfl
    cases hlast
  have hlonger : names.length < ((args.replaced (-1) (.vector l)).map Arg.length?).length := by
    have := List.length_pos_iff.2 hpos
    simp only [Args.replaced_last, List.length_map, List.length_append]
    simp
    omega
  obtain ⟨reason, hreason⟩ := exists_misfit hlonger f.name
  have hcall : f.callFault? ((args.replaced (-1) (.vector l)).map Arg.length?).length =
      some (Fault.misfit f.name reason) := by
    rw [callFault?, hf, hreason, Option.some_or]
  refine ⟨Fault.misfit f.name reason, ?_, Fault.isTypeError_misfit _ _⟩
  simp only [Callable.differences, hlast, callable, tracingFault?_of_callFault? hcall]

end UserFunction

namespace Systems

/-- The vector field of the point mass at the state `(2, 3)` as a function of the control alone. -/
theorem restrict_doubleIntegrator (z : Vec ℝ 1) :
    Args.restrict (doubleIntegrator.callable : Callable ℝ 2).value [.vector [2, 3], .vector [1]] 1
      z = (#v[3, z[0]] : Vec ℝ 2) := by
  have hcontrol : Args.entry [.vector [2, 3], .vector z.toList] 1 0 = z[0] := by simp [Args.entry]
  rw [← hcontrol]
  rfl

theorem isAffine_pair (a : ℝ) :
    Vec.IsAffine (fun z : Vec ℝ 1 => (#v[a, z[0]] : Vec ℝ 2)) #v[#v[0], #v[1]] := by
  refine ⟨#v[a, 0], fun z => Vec.fn_injective (funext fun i => ?_)⟩
  rw [Vec.fn_add, Mat.fn_mulVec]
  fin_cases i <;> simp [Vec.fn, Vec.get_eq, Mat.matrix, Matrix.mulVec, dotProduct]

/-- The vector field of the point mass is linear in the control, which is its last argument. Central
differences are exact at the index `1`, but at the index `-1`, which denotes the same argument, the
call does not fit the parameters. -/
theorem differences_last_doubleIntegrator :
    let f : Callable ℝ 2 := doubleIntegrator.callable
    let args : Args ℝ := [.vector [2, 3], .vector [1]]
    f.fault? (args.map Arg.length?) = none ∧ Args.IsQuadraticIn f.value args (-1) ∧
    Args.IsJacobian f.value args (-1) [[0], [1]] ∧
    (f.differences (1 / 2) args 1 : Except (Error Unit) _) = .ok [[0], [1]] ∧
    ∃ fault, (f.differencesAlong (1 / 2) args (.one (-1)) : Except (Error Unit) _) =
      .error (.raised fault) ∧ fault.isTypeError = true := by
  intro f args
  have hrestrict : Args.restrict f.value args 1 = fun z : Vec ℝ 1 => (#v[3, z[0]] : Vec ℝ 2) := by
    funext z
    exact restrict_doubleIntegrator z
  have hquadratic : Vec.IsQuadratic (Args.restrict f.value args 1 : Vec ℝ 1 → Vec ℝ 2) :=
    hrestrict ▸ (isAffine_pair 3).isQuadratic
  have hhalf : (1 / 2 : ℝ) ≠ 0 := by norm_num
  have hdifference : centralDifference (1 / 2) (Args.restrict f.value args 1) #v[1] =
      (#v[#v[0], #v[1]] : Mat ℝ 2 1) :=
    hrestrict ▸ (isAffine_pair 3).centralDifference_eq hhalf _
  have hrows : args.differences (1 / 2) f.value 1 = [[0], [1]] :=
    (Args.differences_vector (x := (#v[1] : Vec ℝ 1)) (k := 1) rfl (by omega) rfl (1 / 2)
      f.value).trans (congrArg Mat.toLists hdifference)
  have hdenotes : args.Denotes (-1) 1 (#v[1] : Vec ℝ 1) := ⟨rfl, rfl⟩
  have hjacobian : Args.IsJacobian f.value args (-1) [[0], [1]] := by
    have hpartials := hquadratic.hasPartials hhalf #v[1]
    rw [hdifference] at hpartials
    exact ⟨1, 1, #v[1], _, hdenotes, rfl, hpartials⟩
  refine ⟨rfl, ⟨1, 1, #v[1], hdenotes, hquadratic⟩, hjacobian, congrArg Except.ok hrows, ?_⟩
  have hparameters : (doubleIntegrator : UserFunction ℝ).parameters = .names ["x", "u"] := rfl
  have hcount : ["x", "u"].length = args.length := rfl
  obtain ⟨fault, hfault, htype⟩ :=
    UserFunction.isTypeError_differences_last hparameters hcount rfl (1 / 2)
  exact ⟨fault, congrArg (Except.map Selection.one) hfault, htype⟩

end Systems

end TrajOpt
