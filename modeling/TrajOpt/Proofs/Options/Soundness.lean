import TrajOpt.Proofs.Number.Numeral
import TrajOpt.Proofs.Options

/-!
# What accepted options satisfy

The checks are there for relations between the options and their bounds. Two of them ask for their
relation: the bounds of the line search and the fraction by which the violation has to decrease. The
others refuse the opposite one, which is the same for numbers; but what is not a number is in no
relation to anything and passes. So what every accepted set of options satisfies, built in one go or
changed over and over, are these relations as far as they are between numbers.

## Main definitions

* `Options.IsBuilt` - options as they come out of their checks, in whatever way.
* `Options.Relates` - the relations that the checks are there for, for any kind of comparison.
* `Options.Sound`, `Options.SoundOnNumbers` - the relations come out true, or do so between numbers.
* `Options.unguarded` - the options that no check asks to be a number.

## Main statements

* `Options.isBuilt_iff_accepted` - the conditions on options are all that there is to building them.
* `Options.isBuilt_iff_soundOnNumbers` - which options are accepted, and which of them are sound.
* `Options.not_sound_of_undefinedTolerance` - options that are accepted and not sound.
-/

namespace TrajOpt

open Arith (isNumber)

namespace Options

/-- The options came out of their checks: they were created, or changed from such options. -/
inductive IsBuilt : Options Numeral → Prop where
  | created {o : Options Numeral} {changes : List (String × Numeral)} :
    create changes = .ok o → IsBuilt o
  | replaced {o o' : Options Numeral} {changes : List (String × Numeral)} :
    IsBuilt o → o.replace changes = .ok o' → IsBuilt o'

section Relations

variable {ν : Type} [Arith ν]

/-- The relations that the checks are there for, with `lt` and `le` for the comparisons. -/
structure Relates (lt le : ν → ν → Prop) (o : Options ν) : Prop where
  positive : ∀ entry ∈ o.positives, lt 0 entry.2
  lineSearch : lt 0 o.c1 ∧ lt o.c1 o.c2
  penaltyFactor : lt 1 o.penaltyFactor
  penaltyMax : le o.penaltyInitial o.penaltyMax
  decreaseFraction : lt 0 o.decreaseFraction ∧ lt o.decreaseFraction 1
  regFactor : lt 1 o.regFactor
  regularization : le 0 o.regInitial ∧ lt o.regMin o.regMax

/-- All relations hold, as comparisons that come out true. -/
def Sound (o : Options ν) : Prop := o.Relates (· < ·) (· ≤ ·)

/-- All relations hold that are between numbers. -/
def SoundOnNumbers (o : Options ν) : Prop :=
  o.Relates (fun a b => isNumber a = true → isNumber b = true → a < b)
    fun a b => isNumber a = true → isNumber b = true → a ≤ b

/-- The options that no check asks to be a number. -/
def unguarded (o : Options ν) : List (String × ν) :=
  o.positives ++ [("mu_al_update", o.penaltyFactor), ("penalty_max", o.penaltyMax),
    ("bp_reg_initial", o.regInitial), ("bp_reg_increase_factor", o.regFactor),
    ("bp_reg_max", o.regMax)]

theorem SoundOnNumbers.sound {o : Options ν} (h : o.SoundOnNumbers)
    (hzero : isNumber (0 : ν) = true) (hone : isNumber (1 : ν) = true)
    (hlineSearch : 0 < o.c1 ∧ o.c1 < o.c2)
    (hfraction : 0 < o.decreaseFraction ∧ o.decreaseFraction < 1)
    (hnumber : ∀ entry ∈ o.unguarded, isNumber entry.2 = true) : o.Sound where
  positive entry hentry := h.positive entry hentry hzero
    (hnumber entry (List.mem_append_left _ hentry))
  lineSearch := hlineSearch
  penaltyFactor := h.penaltyFactor hone (hnumber ("mu_al_update", _) (by simp [unguarded]))
  penaltyMax := h.penaltyMax
    (hnumber ("penalty_initial", _) (by simp [unguarded, positives]))
    (hnumber ("penalty_max", _) (by simp [unguarded]))
  decreaseFraction := hfraction
  regFactor := h.regFactor hone
    (hnumber ("bp_reg_increase_factor", _) (by simp [unguarded]))
  regularization := ⟨h.regularization.1 hzero
      (hnumber ("bp_reg_initial", _) (by simp [unguarded])),
    h.regularization.2 (hnumber ("bp_reg_min", _) (by simp [unguarded, positives]))
      (hnumber ("bp_reg_max", _) (by simp [unguarded]))⟩

end Relations

variable {o : Options Numeral}

/-- The names of the options lead back to them. -/
theorem setAll_toList (o' o : Options Numeral) : o'.setAll o.toList = (o, []) := by
  simp [setAll, toList, set?]

/-- Options that meet the conditions can be created, and no others come out of any change. -/
theorem isBuilt_iff_accepted : o.IsBuilt ↔ o.Accepted := by
  constructor
  · rintro (hcreate | ⟨-, hreplace⟩)
    · exact accepted_of_create hcreate
    · exact accepted_of_replace hreplace
  · intro h
    have hcreate : create o.toList = .ok o := by
      simp only [create, setAll_toList]
      exact bind_eq_ok.2 ⟨(), check_eq_ok_iff.2 h, rfl⟩
    exact .created hcreate

/-- The checks ask for two of the relations, and for the others as far as they are between
numbers. -/
theorem accepted_iff_soundOnNumbers : o.Accepted ↔ (∀ b, o.checkBudget b = .ok ()) ∧
    (0 < o.c1 ∧ o.c1 < o.c2) ∧ (0 < o.decreaseFraction ∧ o.decreaseFraction < 1) ∧
    o.SoundOnNumbers := by
  constructor
  · intro h
    exact ⟨h.budget, h.lineSearch, h.decreaseFraction,
      { positive := fun entry hentry => Numeral.not_le_iff.1 (h.positive entry hentry)
        lineSearch := ⟨fun _ _ => h.lineSearch.1, fun _ _ => h.lineSearch.2⟩
        penaltyFactor := Numeral.not_le_iff.1 h.penaltyFactor
        penaltyMax := Numeral.not_lt_iff.1 h.penaltyMax
        decreaseFraction := ⟨fun _ _ => h.decreaseFraction.1, fun _ _ => h.decreaseFraction.2⟩
        regFactor := Numeral.not_le_iff.1 h.regFactor
        regularization :=
          ⟨Numeral.not_lt_iff.1 fun hlt => h.regularization (.inl hlt),
            Numeral.not_le_iff.1 fun hle => h.regularization (.inr hle)⟩ }⟩
  · rintro ⟨hbudget, hlineSearch, hfraction, h⟩
    exact
      { budget := hbudget
        positive := fun entry hentry => Numeral.not_le_iff.2 (h.positive entry hentry)
        lineSearch := hlineSearch
        penaltyFactor := Numeral.not_le_iff.2 h.penaltyFactor
        penaltyMax := Numeral.not_lt_iff.2 h.penaltyMax
        decreaseFraction := hfraction
        regFactor := Numeral.not_le_iff.2 h.regFactor
        regularization := fun hbad => hbad.elim (Numeral.not_lt_iff.2 h.regularization.1)
          (Numeral.not_le_iff.2 h.regularization.2) }

/-- A relation that comes out true is between numbers. -/
theorem Sound.isNumber (h : o.Sound) : ∀ entry ∈ o.unguarded, Arith.isNumber entry.2 = true := by
  intro entry hentry
  obtain hpositive | hother := List.mem_append.1 hentry
  · exact (Numeral.isNumber_of_lt (h.positive entry hpositive)).2
  · simp only [List.mem_cons, List.not_mem_nil, or_false] at hother
    obtain rfl | rfl | rfl | rfl | rfl := hother
    · exact (Numeral.isNumber_of_lt h.penaltyFactor).2
    · exact (Numeral.isNumber_of_le h.penaltyMax).2
    · exact (Numeral.isNumber_of_le h.regularization.1).2
    · exact (Numeral.isNumber_of_lt h.regFactor).2
    · exact (Numeral.isNumber_of_lt h.regularization.2).2

/-- Whatever options are created with and however often they are changed, they come out of their
checks exactly if the budgets are positive integers, the bounds of the line search and the fraction
of the decrease are in their relations, and all other relations hold that are between numbers. Such
options are sound exactly if every option that no check asks to be a number is one. -/
theorem isBuilt_iff_soundOnNumbers (o : Options Numeral) :
    (o.IsBuilt ↔ (∀ b, o.checkBudget b = .ok ()) ∧ (0 < o.c1 ∧ o.c1 < o.c2) ∧
      (0 < o.decreaseFraction ∧ o.decreaseFraction < 1) ∧ o.SoundOnNumbers) ∧
    (o.IsBuilt → (o.Sound ↔ ∀ entry ∈ o.unguarded, isNumber entry.2 = true)) := by
  have hbuilt := isBuilt_iff_accepted.trans (accepted_iff_soundOnNumbers (o := o))
  refine ⟨hbuilt, fun h => ⟨Sound.isNumber, fun hnumber => ?_⟩⟩
  obtain ⟨-, hlineSearch, hfraction, hsound⟩ := hbuilt.1 h
  exact hsound.sound (by decide) (by decide) hlineSearch hfraction hnumber

/-- A tolerance that is not a number is accepted although it is not positive. -/
theorem not_sound_of_undefinedTolerance : ∃ o : Options Numeral,
    create [("eps", .double (0 / 0))] = .ok o ∧ ¬ 0 < o.eps ∧ ¬ o.Sound := by
  have hrun : (create [("eps", .double (0 / 0))]).toOption.any
      (fun o => !decide (0 < o.eps)) = true := by decide +kernel
  obtain ⟨o, ho, heps⟩ := exists_ok_of_any hrun
  have hnot : ¬ 0 < o.eps := by simpa using heps
  exact ⟨o, ho, hnot, fun h => hnot (h.positive ("eps", o.eps) (by simp [positives]))⟩

end Options

end TrajOpt
