import Mathlib
import TrajOpt.Proofs.Scalar.Laws

/-!
# Exact arithmetic with infinities

The real numbers have no infinite bounds. The extended real numbers have, and what their operations
leave without a meaning, such as the difference of two infinities, is undefined. Nothing is rounded.
A quotient by zero is undefined too, since zero has no sign.

## Main definitions

* `Extended` - an extended real number or the result of an undefined operation.

## Main statements

* The instance of `ExactScalar` - the operations on extended real numbers are exact.
-/

namespace TrajOpt

/-- A real number, an infinite one, or the result of an undefined operation. -/
inductive Extended where
  | finite (a : ℝ)
  | bot
  | top
  | undefined

namespace Extended

/-- The number as an extended real one. -/
noncomputable def value : Extended → EReal
  | finite a => a
  | bot => ⊥
  | top => ⊤
  | undefined => 0

/-- Whether the number is the result of a defined operation. -/
def IsDefined : Extended → Prop
  | undefined => False
  | _ => True

/-- The sign of a number, zero for an undefined one. -/
noncomputable def sign : Extended → SignType
  | finite a => SignType.sign a
  | bot => -1
  | top => 1
  | undefined => 0

/-- The infinite number of the given sign, undefined without a sign. -/
def infinite : SignType → Extended
  | 1 => top
  | -1 => bot
  | 0 => undefined

/-- A function on the real numbers with its values at both infinities. -/
def lift (f : ℝ → Extended) (atBot atTop : Extended) : Extended → Extended
  | finite a => f a
  | bot => atBot
  | top => atTop
  | undefined => undefined

/-- The opposite number. -/
def opposite : Extended → Extended := lift (fun a => finite (-a)) top bot

/-- The sum, undefined for infinities of different sign. -/
noncomputable def sum : Extended → Extended → Extended
  | finite a, finite b => finite (a + b)
  | undefined, _ | _, undefined | top, bot | bot, top => undefined
  | top, _ | _, top => top
  | bot, _ | _, bot => bot

/-- The product, undefined for zero and an infinity. -/
noncomputable def product : Extended → Extended → Extended
  | finite a, finite b => finite (a * b)
  | undefined, _ | _, undefined => undefined
  | a, b => infinite (a.sign * b.sign)

open Classical in
/-- The quotient, undefined for a divisor of zero and for two infinities. -/
noncomputable def quotient : Extended → Extended → Extended
  | finite a, finite b => if b = 0 then undefined else finite (a / b)
  | finite _, top | finite _, bot => finite 0
  | top, finite b => infinite (SignType.sign b)
  | bot, finite b => infinite (-SignType.sign b)
  | _, _ => undefined

open Classical in
noncomputable instance : Arith Extended where
  add := sum
  sub a b := sum a b.opposite
  mul := product
  div := quotient
  neg := opposite
  zero := finite 0
  one := finite 1
  lt a b := a.IsDefined ∧ b.IsDefined ∧ a.value < b.value
  le a b := a.IsDefined ∧ b.IsDefined ∧ a.value ≤ b.value
  decideLT _ _ := inferInstance
  decideLE _ _ := inferInstance

open Classical in
noncomputable instance : Scalar Extended where
  ofScientific m s e := finite (OfScientific.ofScientific m s e)
  sqrt := lift (fun a => if a < 0 then undefined else finite (Real.sqrt a)) undefined top
  sin := lift (fun a => finite (Real.sin a)) undefined undefined
  cos := lift (fun a => finite (Real.cos a)) undefined undefined
  tan := lift (fun a => finite (Real.tan a)) undefined undefined
  exp := lift (fun a => finite (Real.exp a)) (finite 0) top
  log := lift (fun a => if a < 0 then undefined else if a = 0 then bot else finite (Real.log a))
    undefined top
  tanh := lift (fun a => finite (Real.tanh a)) (finite (-1)) (finite 1)
  abs := lift (fun a => finite |a|) top top
  isFinite
    | finite _ => true
    | _ => false

variable {a b c : Extended}

theorem isNumber_iff : Arith.isNumber a = true ↔ a.IsDefined := by
  have hle : a ≤ a ↔ a.IsDefined := ⟨fun h => h.1, fun h => ⟨h, h, le_rfl⟩⟩
  rw [Arith.isNumber, decide_eq_true_iff, hle]

@[simp] theorem isDefined_finite (a : ℝ) : (finite a).IsDefined := trivial

@[simp] theorem isDefined_bot : bot.IsDefined := trivial

@[simp] theorem isDefined_top : top.IsDefined := trivial

@[simp] theorem not_isDefined_undefined : ¬ undefined.IsDefined := id

theorem lt_iff : a < b ↔ a.IsDefined ∧ b.IsDefined ∧ a.value < b.value := Iff.rfl

theorem sub_eq : a - b = sum a b.opposite := rfl

theorem neg_eq : -a = a.opposite := rfl

theorem zero_eq : (0 : Extended) = finite 0 := rfl

theorem div_eq : a / b = quotient a b := rfl

theorem abs_eq : Scalar.abs a = lift (fun a => finite |a|) top top a := rfl

theorem isDefined_sub (h : (a - b).IsDefined) : a.IsDefined ∧ b.IsDefined := by
  cases a <;> cases b <;> simp_all [sub_eq, sum, opposite, lift]

theorem value_sub (h : (a - b).IsDefined) : (a - b).value = a.value - b.value := by
  cases a <;> cases b <;> simp_all [sub_eq, sum, opposite, lift, value, sub_eq_add_neg]

noncomputable instance : ExactScalar Extended where
  value := value
  lt_iff := by
    simp only [isNumber_iff]
    exact Iff.rfl
  le_iff := by
    simp only [isNumber_iff]
    exact Iff.rfl
  isNumber_zero := isNumber_iff.2 trivial
  value_zero := rfl
  isFinite_iff := by
    intro a
    rw [isNumber_iff]
    cases a <;> simp [Scalar.isFinite, value]
  isNumber_neg {a} := by
    rw [Bool.eq_iff_iff, isNumber_iff, isNumber_iff]
    cases a <;> simp [neg_eq, opposite, lift]
  value_neg {a} _ := by
    cases a <;> simp [neg_eq, opposite, lift, value]
  isNumber_abs {a} := by
    rw [Bool.eq_iff_iff, isNumber_iff, isNumber_iff]
    cases a <;> simp [abs_eq, lift]
  value_abs {a} _ := by
    cases a with
    | finite a =>
      rw [value, ← EReal.coe_neg]
      exact EReal.coe_strictMono.monotone.map_max
    | _ => simp [abs_eq, lift, value]
  isNumber_of_sub h := by
    simpa only [isNumber_iff] using isDefined_sub (isNumber_iff.1 h)
  isFinite_of_sub {a b} h := by
    cases a <;> cases b <;> simp_all [sub_eq, sum, opposite, lift, Scalar.isFinite]
  sub_lt {a b c} h := by
    obtain ⟨hsub, hc, hlt⟩ := lt_iff.1 h
    rw [value_sub hsub] at hlt
    cases a <;> cases b <;> cases c <;>
      simp_all [sub_eq, sum, opposite, lift, value, ← EReal.coe_add, ← EReal.coe_sub,
        sub_lt_iff_lt_add']
  lt_sub {a b c} h := by
    obtain ⟨hc, hsub, hlt⟩ := lt_iff.1 h
    rw [value_sub hsub] at hlt
    cases a <;> cases b <;> cases c <;>
      simp_all [sub_eq, sum, opposite, lift, value, ← EReal.coe_add, ← EReal.coe_sub,
        lt_sub_iff_add_lt']
  isNumber_of_div {a b} h := by
    simp only [isNumber_iff] at h ⊢
    cases a <;> cases b <;> simp_all [div_eq, quotient]
  pos_of_div_pos {a b} hb h := by
    rw [lt_iff] at hb h ⊢
    cases a <;> cases b <;> simp_all [div_eq, quotient, value, zero_eq, infinite]
    next a b =>
      rw [if_neg hb.ne'] at h
      exact (div_pos_iff_of_pos_right hb).1 (EReal.coe_pos.1 h.2)
  isFinite_of_div_lt {a b c} ha hb h := by
    rw [lt_iff] at ha hb h
    cases a <;> cases b <;> simp_all [div_eq, quotient, value, zero_eq, infinite, Scalar.isFinite]
  isNumber_sub {a b} ha hb h := by
    simp only [isNumber_iff] at ha hb ⊢
    cases a <;> cases b <;> simp_all [sub_eq, sum, opposite, lift, Scalar.isFinite]
  value_sub h := value_sub (isNumber_iff.1 h)

@[simp] theorem finite_le_finite {a b : ℝ} : finite a ≤ finite b ↔ a ≤ b :=
  ⟨fun h => EReal.coe_le_coe_iff.1 h.2.2, fun h => ⟨trivial, trivial, EReal.coe_le_coe_iff.2 h⟩⟩

@[simp] theorem leAdd_finite {a b c : ℝ} :
    Arith.LeAdd (finite a) (finite b) (finite c) ↔ a ≤ b + c := by
  rw [Arith.LeAdd, isNumber_iff, isNumber_iff, ← EReal.coe_le_coe_iff, EReal.coe_add]
  exact ⟨fun h => h.2.2, fun h => ⟨trivial, trivial, h⟩⟩

/-- Plus infinity is an upper bound up to every tolerance. -/
theorem leAdd_top (a c : ℝ) : Arith.LeAdd (finite a) top (finite c) := by
  rw [Arith.LeAdd, isNumber_iff, isNumber_iff]
  exact ⟨trivial, trivial, le_top.trans_eq (EReal.top_add_coe c).symm⟩

end Extended

end TrajOpt
