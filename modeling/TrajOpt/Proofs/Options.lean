import TrajOpt.Proofs.Outcome
import TrajOpt.Solver

/-!
# Accepted options

Options are accepted when every one of the checks comes out as stated. A solver works with options
that were accepted, whether they were given as they are or changed first.

## Main definitions

* `Options.Accepted` - the conditions that the checks stand for.
* `Options.Interrupts` - the errors that end a solve.

## Main statements

* `Options.check_eq_ok_iff` - the checks pass exactly for accepted options.
* `Solver.create_eq_ok` - what a solver is built from.
-/

namespace TrajOpt

namespace Options

variable {ν : Type} [Arith ν] {o : Options ν}

/-- The conditions on options. A value that is not a number misses those that ask for a comparison
and meets those that exclude one. -/
structure Accepted (o : Options ν) : Prop where
  budget : ∀ b, o.checkBudget b = .ok ()
  positive : ∀ entry ∈ o.positives, ¬ entry.2 ≤ 0
  lineSearch : 0 < o.c1 ∧ o.c1 < o.c2
  penaltyFactor : ¬ o.penaltyFactor ≤ 1
  penaltyMax : ¬ o.penaltyMax < o.penaltyInitial
  decreaseFraction : 0 < o.decreaseFraction ∧ o.decreaseFraction < 1
  regFactor : ¬ o.regFactor ≤ 1
  regularization : ¬ (o.regInitial < 0 ∨ o.regMax ≤ o.regMin)

theorem check_eq_ok_iff : o.check = .ok () ↔ o.Accepted := by
  unfold check
  simp only [bind_eq_ok, throw_bind, refuse_eq_ok, require_eq_ok]
  constructor
  · rintro ⟨⟨⟩, hinner, ⟨⟩, houter, ⟨⟩, hsearch, ⟨⟩, hpositive, hlineSearch, hpenaltyFactor,
      hpenaltyMax, hdecreaseFraction, hregFactor, hregularization, -⟩
    refine ⟨?_, forIn_refuse_eq_ok.1 hpositive, hlineSearch, hpenaltyFactor, hpenaltyMax,
      hdecreaseFraction, hregFactor, hregularization⟩
    intro b
    cases b with
    | iterations => exact hinner
    | outer => exact houter
    | lineSearch => exact hsearch
  · intro h
    exact ⟨(), h.budget .iterations, (), h.budget .outer, (), h.budget .lineSearch, (),
      forIn_refuse_eq_ok.2 h.positive, h.lineSearch, h.penaltyFactor, h.penaltyMax,
      h.decreaseFraction, h.regFactor, h.regularization, rfl⟩

omit [Arith ν] in
theorem checkBudget_eq_ok {b : Budget} {k : Int} (hk : (o.budget b).truncate = .ok k)
    (hvalue : ((o.budget b).toFloat == Float.ofInt k && decide (1 ≤ k)) = true) :
    o.checkBudget b = .ok () := by
  simp only [checkBudget, hk]
  exact if_pos hvalue

omit [Arith ν] in
/-- A budget that is given as an integer can be counted. -/
theorem counted_of_isInt {b : Budget} (h : (o.budget b).int?.isSome) :
    o.counted b = .ok (o.budgetNat b) := by
  unfold counted budgetNat
  cases hvalue : o.budget b with
  | int k => rfl
  | truth a => rfl
  | double x => simp [hvalue, Numeral.int?] at h

omit [Arith ν] in
theorem eq_budgetNat_of_counted {b : Budget} {k : Nat} (h : o.counted b = .ok k) :
    k = o.budgetNat b := by
  have hint : (o.budget b).int?.isSome := by
    unfold counted at h
    split at h
    next hvalue => simp [hvalue]
    next => cases h
  exact (Except.ok.inj ((counted_of_isInt hint).symm.trans h)).symm

/-- The errors that end a solve: a search for the regularization that counts as endless, and a
budget of a loop that counts which is no integer. -/
def Interrupts (o : Options ν) : Error ν → Prop
  | .endless => True
  | .notCountable => (o.budget .outer).int? = none ∨ (o.budget .lineSearch).int? = none
  | _ => False

omit [Arith ν] in
theorem counted_eq_error {b : Budget} {e : Error ν} (h : o.counted b = .error e) :
    e = .notCountable ∧ (o.budget b).int? = none := by
  unfold counted at h
  split at h
  next => cases h
  next hvalue =>
    cases h
    exact ⟨rfl, hvalue⟩

namespace Accepted

theorem budgetNat_pos (h : o.Accepted) (b : Budget) : 0 < o.budgetNat b := by
  have hcheck := h.budget b
  unfold checkBudget at hcheck
  unfold budgetNat
  cases htruncate : (o.budget b).truncate with
  | error reason => simp [htruncate] at hcheck
  | ok k =>
    simp only [htruncate] at hcheck
    show 0 < k.toNat
    split at hcheck
    next hvalid =>
      have hk : 1 ≤ k := of_decide_eq_true (Bool.and_eq_true_iff.1 hvalid).2
      omega
    next => cases hcheck

theorem not_gradientTolerance_le (h : o.Accepted) : ¬ o.gradientTolerance ≤ 0 :=
  h.positive ("gradient_tolerance", o.gradientTolerance) (by simp [positives])

/-- The budget of the line search is checked apart from all other options. -/
theorem withLineSearch (h : o.Accepted) {value : Numeral}
    (hvalue : ({ o with iterationsLineSearch := value } : Options ν).checkBudget .lineSearch =
      .ok ()) : ({ o with iterationsLineSearch := value } : Options ν).Accepted where
  budget b := by
    cases b with
    | iterations => exact h.budget .iterations
    | outer => exact h.budget .outer
    | lineSearch => exact hvalue
  positive := h.positive
  lineSearch := h.lineSearch
  penaltyFactor := h.penaltyFactor
  penaltyMax := h.penaltyMax
  decreaseFraction := h.decreaseFraction
  regFactor := h.regFactor
  regularization := h.regularization

/-- Accepted options keep their bounds when they are taken over as doubles. -/
theorem map_toFloat {o : Options Numeral} (h : o.Accepted) :
    0 < (o.map Numeral.toFloat).c1 ∧ ∀ b, 0 < (o.map Numeral.toFloat).budgetNat b := by
  refine ⟨?_, fun b => ?_⟩
  · have hc1 : Numeral.below (.double 0.0) o.c1 = true := h.lineSearch.1
    exact of_decide_eq_true hc1
  · have hbudget := h.budgetNat_pos b
    cases b <;> exact hbudget

/-- Doubles that are accepted as settings keep the same conditions among doubles. -/
theorem of_map_double {o : Options Float} (h : (o.map Numeral.double).Accepted) : o.Accepted where
  budget b := by
    have hbudget := h.budget b
    have hsame : (o.map Numeral.double).budget b = o.budget b := by cases b <;> rfl
    simp only [checkBudget, hsame] at hbudget ⊢
    split at hbudget
    · cases hbudget
    · split at hbudget
      next hvalue => exact if_pos hvalue
      next => cases hbudget
  positive entry hentry hle := by
    refine h.positive (entry.1, .double entry.2) ?_ (decide_eq_true hle)
    have hpositives : (o.map Numeral.double).positives =
        o.positives.map fun entry => (entry.1, .double entry.2) := rfl
    rw [hpositives]
    exact List.mem_map_of_mem hentry
  lineSearch := ⟨of_decide_eq_true h.lineSearch.1, of_decide_eq_true h.lineSearch.2⟩
  penaltyFactor hle := h.penaltyFactor (decide_eq_true hle)
  penaltyMax hlt := h.penaltyMax (decide_eq_true hlt)
  decreaseFraction :=
    ⟨of_decide_eq_true h.decreaseFraction.1, of_decide_eq_true h.decreaseFraction.2⟩
  regFactor hle := h.regFactor (decide_eq_true hle)
  regularization := fun hbad => h.regularization
    (hbad.imp (fun hlt => decide_eq_true hlt) fun hle => decide_eq_true hle)

end Accepted

theorem accepted_of_replace {o o' : Options Numeral} {changes : List (String × Numeral)}
    (h : o.replace changes = .ok o') : o'.Accepted := by
  simp only [replace] at h
  split at h
  · obtain ⟨⟨⟩, hcheck, h⟩ := bind_eq_ok.1 h
    cases h
    exact check_eq_ok_iff.1 hcheck
  · cases h

theorem accepted_of_create {o : Options Numeral} {changes : List (String × Numeral)}
    (h : create changes = .ok o) : o.Accepted := by
  simp only [create] at h
  split at h
  · cases h
  · obtain ⟨⟨⟩, hcheck, h⟩ := bind_eq_ok.1 h
    cases h
    exact check_eq_ok_iff.1 hcheck

end Options

namespace Solver

variable {n m : Nat}

theorem accepted_of_settings {options used : Options Numeral} {changes : List (String × Numeral)}
    (hoptions : options.Accepted) (h : settings options changes = .ok used) : used.Accepted := by
  unfold settings at h
  split at h
  · cases h
    exact hoptions
  · exact Options.accepted_of_replace h

/-- A solver that is built from accepted options works with accepted options, and with the problem
of its model and its objective. -/
theorem create_eq_ok {model : Model Float n m} {objective : Sized (Objective Float)}
    {dt : Numeral} {given : Option Numeral} {options used : Options Numeral}
    {changes : List (String × Numeral)} {s : Solver Float n m} (hoptions : options.Accepted)
    (h : create model objective dt given options changes = .ok (s, used)) :
    settings options changes = .ok used ∧ used.Accepted ∧ s.options = used.map Numeral.toFloat ∧
      ∃ intervals, BoundProblem.create model objective dt.toFloat intervals =
        (.ok s.bound : Except (Error Numeral) _) := by
  unfold create at h
  simp only [bind_eq_ok, throw_bind, refuse_eq_ok] at h
  obtain ⟨-, used', hsettings, intervals, -, bound, hbound, h⟩ := h
  cases h
  exact ⟨hsettings, accepted_of_settings hoptions hsettings, rfl, intervals, hbound⟩

end Solver

end TrajOpt
