import TrajOpt.Proofs.Function.Counting
import TrajOpt.Proofs.Function.Failures

/-!
# Calling forms

The values of a function are given by expressions in its arguments. A pure function returns them as
an array or as a list; an in-place function assigns them to the entries of a buffer, in any order,
through indices from either end, and perhaps after it has assigned something else to the same
entries. It does not matter which of the forms a function has: it is adapted, and the adapted
function has the values of the expressions, since every call starts with a buffer of its own and the
last assignment to an entry decides.

## Main definitions

* `UserFunction.Returns`, `UserFunction.Assigns` - functions of either form with given values.
* `UserFunction.Renders` - a function of one of the two forms.

## Main statements

* `UserFunction.Renders.exists_adapt` - a function of either form is adapted, and its values are
  those of the expressions.
-/

namespace TrajOpt

namespace UserFunction

variable {α : Type} {f : UserFunction α} {lengths : List (Option Nat)} {es : List (Expr α)}

/-- A call with `count` arguments returns the values of the expressions, as an array or as a
list. -/
structure Returns (f : UserFunction α) (count : Nat) (es : List (Expr α)) : Prop where
  accepts : f.parameters.accepts count = true
  failure : f.failure = none
  body : f.body = .returns .vector es ∨ f.body = .returns .list es

/-- A call with a buffer and arguments of these lengths leaves the values of the expressions in the
buffer. All that it assigns on the way is in range. -/
structure Assigns (f : UserFunction α) (lengths : List (Option Nat)) (es : List (Expr α)) :
    Prop where
  takesBuffer : f.TakesBuffer lengths.length
  failure : f.failure = none
  body : f.body = .assigns f.assignments
  reads : ∀ a ∈ f.assignments, a.2.outOfRange? lengths = none
  places : ∀ a ∈ f.assignments, (place? es.length a.1).isSome = true
  leaves : ∀ i (hi : i < es.length), f.lastWrite? es.length i = some es[i]

/-- A function of one of the two forms whose values are those of the expressions. -/
inductive Renders (f : UserFunction α) (lengths : List (Option Nat)) (es : List (Expr α)) :
    Prop where
  | pure : f.Returns lengths.length es → Renders f lengths es
  | inPlace : f.Assigns lengths es → Renders f lengths es

theorem misfit?_eq_none {p : Parameters} {count : Nat} (h : p.accepts count = true)
    (name : String) : p.misfit? name count = none := by
  cases p with
  | any => rfl
  | names l =>
    have hlength : l.length = count := by simpa [Parameters.accepts] using h
    simp [Parameters.misfit?, hlength]

theorem expressionFault?_eq_none {e : Expr α} (h : e.outOfRange? lengths = none) :
    expressionFault? lengths e = none := by
  rw [expressionFault?, h]
  rfl

namespace Returns

theorem values_eq {count : Nat} (h : f.Returns count es) : f.values = es := by
  obtain hbody | hbody := h.body <;> simp [values, hbody]

theorem shape_eq {count : Nat} (h : f.Returns count es) : f.shape = [es.length] := by
  obtain hbody | hbody := h.body <;> simp [shape, hbody]

theorem callFault?_eq_none {count : Nat} (h : f.Returns count es) : f.callFault? count = none := by
  rw [callFault?, misfit?_eq_none h.accepts, h.failure]
  rfl

/-- What reads its arguments in range raises nothing. -/
theorem fault?_eq_none (h : f.Returns lengths.length es)
    (hreads : ∀ e ∈ es, e.outOfRange? lengths = none) : f.fault? lengths = none := by
  have hvalues : es.findSome? (expressionFault? lengths) = none :=
    List.findSome?_eq_none_iff.2 fun e he => expressionFault?_eq_none (hreads e he)
  obtain hbody | hbody := h.body <;> simp [fault?, h.callFault?_eq_none, hbody, hvalues]

theorem tracingFault?_eq_none (h : f.Returns lengths.length es)
    (hreads : ∀ e ∈ es, e.outOfRange? lengths = none) : f.tracingFault? lengths = none := by
  unfold tracingFault?
  split
  · exact h.callFault?_eq_none
  · exact h.fault?_eq_none hreads

theorem callForm_eq {ν : Type} (h : f.Returns lengths.length es)
    (hreads : ∀ e ∈ es, e.outOfRange? lengths = none) (name : String) :
    (callForm f name lengths : Except (Error ν) CallForm) = .ok .pure := by
  unfold callForm
  split
  · simp [h.accepts]
  · simp [h.fault?_eq_none hreads]

end Returns

/-- What stays within its buffer and its arguments raises nothing. -/
theorem Assigns.fault?_eq_none (h : f.Assigns lengths es) :
    f.fault? (some es.length :: lengths) = none := by
  have hcall : f.callFault? (lengths.length + 1) = none := by
    rw [callFault?, misfit?_eq_none h.takesBuffer.2, h.failure]
    rfl
  unfold fault?
  rw [h.body]
  simp only [List.length_cons, hcall, Option.none_or, List.head?_cons, Option.join_some,
    Option.getD_some, List.tail_cons, List.findSome?_eq_none_iff]
  intro a ha
  simp [expressionFault?_eq_none (h.reads a ha), h.places a ha]

section Adapt

variable {ν β : Type} [Scalar α] {probe : Args α}

/-- A function of either form is adapted. Its values at any arguments are those of the
expressions. -/
theorem Renders.exists_adapt (h : f.Renders (probe.map Arg.length?) es)
    (hreads : ∀ e ∈ es, e.outOfRange? (probe.map Arg.length?) = none) (name : String) :
    ∃ g : Adapted α, (adapt f probe name (some es.length) :
        Run (Event α) (Error ν) (Adapted α)).outcome = .ok g ∧ g.size = es.length ∧
      ∀ (β : Type) [Scalar β] (embed : α → β) (args : Args β) (i : Nat)
        (hg : i < g.size) (hi : i < es.length),
        (g.value embed args)[i] = es[i].eval embed args := by
  cases h with
  | pure h =>
    have hmeasure : (measure f .pure name probe (some es.length) : Except (Error ν) Nat) =
        .ok es.length := by
      simp [measure, h.tracingFault?_eq_none hreads, h.shape_eq]
    refine ⟨⟨name, .pure, f.traceable, es.length, f⟩, ?_, rfl, fun β _ embed args i _ _ => ?_⟩
    · simp [outcome_adapt, h.callForm_eq hreads, hmeasure]
    · simp [Adapted.value, returned, h.values_eq]
  | inPlace h =>
    have hmeasure : (measure f .inplace name probe (some es.length) : Except (Error ν) Nat) =
        .ok es.length := by
      simp [measure, h.fault?_eq_none]
    refine ⟨⟨name, .inplace, false, es.length, f⟩, ?_, rfl, fun β _ embed args i _ hi => ?_⟩
    · simp [outcome_adapt, h.takesBuffer.callForm_eq, hmeasure]
    · have hentry : (f.written embed (Array.replicate es.length 0) args)[i]? = _ :=
        getElem?_written_eq f _ (by simpa using hi)
      simp only [Array.size_replicate, h.leaves i hi, Option.map_some, Option.getD_some] at hentry
      simp [Adapted.value, hentry]

end Adapt

end UserFunction

end TrajOpt
