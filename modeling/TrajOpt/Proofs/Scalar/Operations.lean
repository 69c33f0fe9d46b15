import TrajOpt.Proofs.Scalar.Product

/-!
# Operations on doubles

What the operations do to doubles, in terms of the extended real numbers that these stand for. An
operation whose result is finite was applied to finite doubles. A factor of at least one does not
make a positive number smaller, and a factor above one makes a number of at least one larger; as
there are only finitely many doubles, numbers cannot grow like this for ever.

## Main statements

* `Double.isFinite_of_mul`, `Double.isFinite_of_add`, `Double.isFinite_of_sqrt` - what is finite
  comes from finite numbers.
* `Double.isNumber_of_mul`, `Double.isNumber_of_add`, `Double.isNumber_of_sum` - what is a number
  comes from numbers.
* `Double.value_le_mul`, `Double.value_lt_mul`, `Double.value_mul_le` - products with a factor above
  or below one.
* `Double.value_div_nonneg`, `Double.value_div_le_one` - quotients.
* `Double.wellFounded_above` - doubles do not grow for ever.
-/

namespace TrajOpt

namespace Binary64

open Float.Model Float.Model.UnpackedFloat

section Special

variable {f g : UnpackedFloat}

theorem not_isFinite_packed (h : f = .notANumber ∨ ∃ s, f = .infinity s) :
    ¬ (packed f).isFinite = true := by
  obtain rfl | ⟨s, rfl⟩ := h
  · rw [packed_notANumber]
    simp [UnpackedFloat.isFinite]
  · rw [packed_infinity]
    simp [UnpackedFloat.isFinite]

theorem isFinite_of_mul (h : (packed (UnpackedFloat.mul Format.binary64 f g)).isFinite = true) :
    f.isFinite = true ∧ g.isFinite = true := by
  by_contra hfinite
  refine not_isFinite_packed ?_ h
  cases f <;> cases g <;> simp_all [UnpackedFloat.mul, UnpackedFloat.isFinite]

theorem isFinite_of_add (h : (packed (UnpackedFloat.add Format.binary64 f g)).isFinite = true) :
    f.isFinite = true ∧ g.isFinite = true := by
  by_contra hfinite
  refine not_isFinite_packed ?_ h
  rcases not_and_or.1 hfinite with hf | hg
  · obtain rfl | ⟨s, rfl⟩ := cases_of_not_isFinite hf
    · exact .inl (by cases g <;> rfl)
    · cases g with
      | infinity s' => cases s <;> cases s' <;> simp [UnpackedFloat.add]
      | notANumber => exact .inl rfl
      | zero s' => exact .inr ⟨s, rfl⟩
      | finite s' m' e' hm' => exact .inr ⟨s, rfl⟩
  · obtain rfl | ⟨s', rfl⟩ := cases_of_not_isFinite hg
    · exact .inl (by cases f <;> rfl)
    · cases f with
      | infinity s => cases s <;> cases s' <;> simp [UnpackedFloat.add]
      | notANumber => exact .inl rfl
      | zero s => exact .inr ⟨s', rfl⟩
      | finite s m e hm => exact .inr ⟨s', rfl⟩

theorem isFinite_of_sqrt (h : (packed (UnpackedFloat.sqrt Format.binary64 f)).isFinite = true) :
    f.isFinite = true := by
  by_contra hfinite
  refine not_isFinite_packed ?_ h
  obtain rfl | ⟨s, rfl⟩ := cases_of_not_isFinite hfinite
  · exact .inl rfl
  · cases s <;> simp [UnpackedFloat.sqrt]

theorem mul_notANumber (f : UnpackedFloat) :
    UnpackedFloat.mul Format.binary64 f .notANumber = .notANumber := by
  cases f <;> rfl

theorem notANumber_mul (f : UnpackedFloat) :
    UnpackedFloat.mul Format.binary64 .notANumber f = .notANumber := by
  cases f <;> rfl

theorem add_notANumber (f : UnpackedFloat) :
    UnpackedFloat.add Format.binary64 f .notANumber = .notANumber := by
  cases f <;> rfl

theorem notANumber_add (f : UnpackedFloat) :
    UnpackedFloat.add Format.binary64 .notANumber f = .notANumber := by
  cases f <;> rfl

/-- Zero times a finite number is zero, and times any other it is not a number. -/
theorem zero_mul_cases (s : Sign) (f : UnpackedFloat) :
    ¬ f.isFinite = true ∧ UnpackedFloat.mul Format.binary64 (.zero s) f = .notANumber ∨
      f.isFinite = true ∧ ∃ s', UnpackedFloat.mul Format.binary64 (.zero s) f = .zero s' := by
  cases f with
  | notANumber => exact .inl ⟨by simp [UnpackedFloat.isFinite], rfl⟩
  | infinity s' => exact .inl ⟨by simp [UnpackedFloat.isFinite], rfl⟩
  | zero s' => exact .inr ⟨rfl, s * s', rfl⟩
  | finite s' m e hm => exact .inr ⟨rfl, s * s', rfl⟩

theorem value_eq_zero (hf : value f = 0) : f = .notANumber ∨ ∃ s, f = .zero s := by
  cases f with
  | notANumber => exact .inl rfl
  | infinity s => cases s <;> simp [value] at hf
  | zero s => exact .inr ⟨s, rfl⟩
  | finite s m e hm =>
    have hmantissa : ((s.apply m : Int) : ℝ) ≠ 0 := by cases s <;> simp [Sign.apply, hm.ne']
    have hscale : (2 : ℝ) ^ e ≠ 0 := (zpow_pos two_pos _).ne'
    rw [value, EReal.coe_eq_zero] at hf
    exact absurd hf (mul_ne_zero hmantissa hscale)

/-- A product of positive numbers is infinite if one of them is. -/
theorem mul_infinity (hf : 0 < value f) (hg : 0 < value g)
    (h : ¬ (f.isFinite = true ∧ g.isFinite = true)) :
    packed (UnpackedFloat.mul Format.binary64 f g) = .infinity .positive := by
  obtain rfl | ⟨m, e, hm, rfl⟩ := pos_iff.1 hf
  · obtain rfl | ⟨m', e', hm', rfl⟩ := pos_iff.1 hg
    · exact packed_infinity _
    · exact packed_infinity _
  · obtain rfl | ⟨m', e', hm', rfl⟩ := pos_iff.1 hg
    · exact packed_infinity _
    · exact absurd ⟨rfl, rfl⟩ h

end Special

end Binary64

namespace Double

open Float.Model Binary64 LawfulScalar

variable {a b : Float}

theorem rawDouble_mul (a b : Float) :
    rawDouble (a * b) = packed (UnpackedFloat.mul Format.binary64 (rawDouble a) (rawDouble b)) :=
  rfl

theorem rawDouble_add (a b : Float) :
    rawDouble (a + b) = packed (UnpackedFloat.add Format.binary64 (rawDouble a) (rawDouble b)) :=
  rfl

theorem rawDouble_sqrt (a : Float) :
    rawDouble (Scalar.sqrt a) = packed (UnpackedFloat.sqrt Format.binary64 (rawDouble a)) :=
  rfl

theorem value_one : value (One.one : Float) = 1 := by
  have hraw : rawDouble (One.one : Float) = .finite .positive (2 ^ 52) (-52) (by norm_num) := rfl
  have hvalue : value (One.one : Float) = Binary64.value (rawDouble (One.one : Float)) := rfl
  have hreal : ((UnpackedFloat.Sign.positive.apply ((2 ^ 52 : Nat) : Int) : Int) : ℝ) *
      2 ^ (-52 : Int) = 1 := by
    norm_num [UnpackedFloat.Sign.apply]
  rw [hvalue, hraw, Binary64.value, hreal, EReal.coe_one]

theorem isFinite_zero : Scalar.isFinite (Zero.zero : Float) = true := rfl

theorem isFinite_one : Scalar.isFinite (One.one : Float) = true := rfl

theorem isFinite_of_mul (h : Scalar.isFinite (a * b) = true) :
    Scalar.isFinite a = true ∧ Scalar.isFinite b = true := by
  rw [isFinite_iff_raw, rawDouble_mul] at h
  exact Binary64.isFinite_of_mul h

theorem isFinite_of_add (h : Scalar.isFinite (a + b) = true) :
    Scalar.isFinite a = true ∧ Scalar.isFinite b = true := by
  rw [isFinite_iff_raw, rawDouble_add] at h
  exact Binary64.isFinite_of_add h

theorem isFinite_of_sqrt (h : Scalar.isFinite (Scalar.sqrt a) = true) :
    Scalar.isFinite a = true := by
  rw [isFinite_iff_raw, rawDouble_sqrt] at h
  exact Binary64.isFinite_of_sqrt h

theorem isNumber_of_mul (h : Arith.isNumber (a * b) = true) :
    Arith.isNumber a = true ∧ Arith.isNumber b = true := by
  rw [isNumber_iff_raw, rawDouble_mul] at h
  rw [isNumber_iff_raw, isNumber_iff_raw]
  refine ⟨fun ha => h ?_, fun hb => h ?_⟩
  · rw [ha, notANumber_mul, packed_notANumber]
  · rw [hb, mul_notANumber, packed_notANumber]

theorem isNumber_of_add (h : Arith.isNumber (a + b) = true) :
    Arith.isNumber a = true ∧ Arith.isNumber b = true := by
  rw [isNumber_iff_raw, rawDouble_add] at h
  rw [isNumber_iff_raw, isNumber_iff_raw]
  refine ⟨fun ha => h ?_, fun hb => h ?_⟩
  · rw [ha, notANumber_add, packed_notANumber]
  · rw [hb, add_notANumber, packed_notANumber]

/-- A sum counts what is not a number. -/
theorem isNumber_of_sum {l : List Float} (h : Arith.isNumber l.sum = true) :
    ∀ a ∈ l, Arith.isNumber a = true := by
  induction l with
  | nil => simp
  | cons a l ih =>
    rw [List.sum_cons] at h
    obtain ⟨ha, hl⟩ := isNumber_of_add h
    exact List.forall_mem_cons.2 ⟨ha, ih hl⟩

instance finiteFloat : Finite Float :=
  Finite.of_injective (fun a : Float => a.toModel.toBits.toFin) fun a b h => by
    obtain ⟨⟨a, ha⟩⟩ := a
    obtain ⟨⟨b, hb⟩⟩ := b
    cases UInt64.toFin_inj.1 h
    rfl

/-- There are only finitely many doubles, so they cannot grow for ever. -/
theorem wellFounded_above : WellFounded fun a b : Float => value b < value a :=
  have : IsTrans Float fun a b => value b < value a := ⟨fun _ _ _ hab hbc => hbc.trans hab⟩
  have : Std.Irrefl fun a b : Float => value b < value a := ⟨fun _ => lt_irrefl _⟩
  Finite.wellFounded_of_trans_of_irrefl _

theorem isNumber_of_pos (ha : 0 < value a) : Arith.isNumber a = true := by
  rw [isNumber_iff_raw]
  intro h
  have hzero : value a = 0 := congrArg Binary64.value h
  exact ha.ne' hzero

theorem isFinite_of_le (ha : Arith.isNumber a = true) (ha0 : 0 ≤ value a)
    (hb : Scalar.isFinite b = true) (hle : value a ≤ value b) : Scalar.isFinite a = true :=
  isFinite_iff.2 ⟨ha, (EReal.bot_lt_zero.trans_le ha0).ne',
    (hle.trans_lt (isFinite_iff.1 hb).2.2.lt_top).ne⟩

/-- Infinite numbers are beyond all finite ones. -/
theorem value_eq_top_of_pos (ha : 0 < value a) (hinf : ¬ Scalar.isFinite a = true) :
    value a = ⊤ := by
  obtain h | ⟨m, e, hm, h⟩ := pos_iff.1 ha
  · exact value_eq_top.2 h
  · rw [isFinite_iff_raw, h] at hinf
    exact absurd rfl hinf

section Mul

theorem isNumber_mul (ha : Scalar.isFinite a = true) (hb : Scalar.isFinite b = true) :
    Arith.isNumber (a * b) = true := by
  rw [isNumber_iff_raw, rawDouble_mul]
  exact (isRoundingOf_mul (isCanonical_rawDouble a) (isCanonical_rawDouble b) ha hb).ne_notANumber

/-- The product of finite doubles is on the right side of every finite double. -/
theorem value_mul_side {c : Float} (ha : Scalar.isFinite a = true)
    (hb : Scalar.isFinite b = true) (hc : Scalar.isFinite c = true) :
    (value c ≤ value a * value b → value c ≤ value (a * b)) ∧
      (value a * value b ≤ value c → value (a * b) ≤ value c) :=
  mul_side (isCanonical_rawDouble a) (isCanonical_rawDouble b) (isCanonical_rawDouble c) ha hb hc

theorem value_mul_nonneg (ha : Scalar.isFinite a = true) (hb : Scalar.isFinite b = true)
    (ha0 : 0 ≤ value a) (hb0 : 0 ≤ value b) : 0 ≤ value (a * b) := by
  have hzero : value (Zero.zero : Float) = 0 := value_zero
  have hside := (value_mul_side ha hb isFinite_zero).1
  rw [hzero] at hside
  exact hside (mul_nonneg ha0 hb0)

/-- Positive numbers do not become smaller by a factor of at least one. -/
theorem value_le_mul (ha : 0 < value a) (hb : 1 ≤ value b) : value a ≤ value (a * b) := by
  by_cases hfinite : Scalar.isFinite a = true ∧ Scalar.isFinite b = true
  · exact (value_mul_side hfinite.1 hfinite.2 hfinite.1).1 (le_mul_of_one_le_right ha.le hb)
  · have htop : value (a * b) = ⊤ :=
      value_eq_top.2 (mul_infinity ha (zero_lt_one.trans_le hb) hfinite)
    rw [htop]
    exact le_top

/-- Finite numbers of at least one become larger by a factor above one. -/
theorem value_lt_mul (ha : 1 ≤ value a) (hfinite : Scalar.isFinite a = true)
    (hb : 1 < value b) : value a < value (a * b) := by
  by_cases hb' : Scalar.isFinite b = true
  · have hcanonical := isCanonical_rawDouble a
    have hrounding := isRoundingOf_mul hcanonical (isCanonical_rawDouble b) hfinite hb'
    rw [← not_le]
    intro hle
    obtain ⟨-, hside⟩ := packed_side hrounding.isNormalized hrounding.isFinite hcanonical hfinite
    exact absurd (signedUnits_lt_mul hcanonical (isCanonical_rawDouble b) hfinite hb' ha hb)
      (not_lt.2 (hside.1 hle))
  · have htop : value (a * b) = ⊤ := value_eq_top.2
      (mul_infinity (zero_lt_one.trans_le ha) (zero_lt_one.trans hb) fun h => hb' h.2)
    rw [htop]
    exact (value_ne_top hfinite).lt_top

/-- Zero times an infinite number is not a number. -/
theorem isFinite_of_zero_mul (h : Arith.isNumber (Zero.zero * b) = true) :
    Scalar.isFinite b = true := by
  rw [isNumber_iff_raw, rawDouble_mul, rawDouble_zero] at h
  obtain ⟨-, hzero⟩ | ⟨hfinite, -⟩ := zero_mul_cases .positive (rawDouble b)
  · rw [hzero, packed_notANumber] at h
    exact absurd rfl h
  · exact hfinite

/-- Zero times any number is zero or not a number. -/
theorem value_zero_mul (ha : value a = 0) : value (a * b) = 0 := by
  have hvalue : value (a * b) =
      Binary64.value (packed (UnpackedFloat.mul Format.binary64 (rawDouble a) (rawDouble b))) := rfl
  rw [hvalue]
  obtain hraw | ⟨s, hraw⟩ := value_eq_zero (f := rawDouble a) ha
  · rw [hraw, notANumber_mul, packed_notANumber, Binary64.value]
  · rw [hraw]
    obtain ⟨-, hmul⟩ | ⟨-, s', hmul⟩ := zero_mul_cases s (rawDouble b)
    · rw [hmul, packed_notANumber, Binary64.value]
    · rw [hmul, packed_zero, Binary64.value]

/-- A number does not become larger by a factor between zero and one. -/
theorem value_mul_le (ha : Scalar.isFinite a = true) (hb : Scalar.isFinite b = true)
    (ha1 : value a ≤ 1) (hb0 : 0 ≤ value b) : value (a * b) ≤ value b :=
  (value_mul_side ha hb hb).2 (mul_le_of_le_one_left hb0 ha1)

end Mul

section Div

/-- The quotient of finite doubles is on the right side of every finite double. -/
theorem value_div_side {c : Float} (ha : Scalar.isFinite a = true)
    (hb : Scalar.isFinite b = true) (hc : Scalar.isFinite c = true) (hb0 : value b ≠ 0) :
    (value c ≤ value a / value b → value c ≤ value (a / b)) ∧
      (value a / value b ≤ value c → value (a / b) ≤ value c) :=
  div_side (isCanonical_rawDouble a) (isCanonical_rawDouble b) (isCanonical_rawDouble c) ha hb hc
    hb0

theorem isNumber_div (ha : Scalar.isFinite a = true) (hb : Scalar.isFinite b = true)
    (hb0 : value b ≠ 0) : Arith.isNumber (a / b) = true := by
  have hunits : signedUnits (rawDouble b) ≠ 0 := fun hzero => hb0 (by
    have hvalue := value_eq_ofUnits (isCanonical_rawDouble b) hb
    rw [hzero] at hvalue
    exact hvalue.trans (by simp [ofUnits]))
  rw [isNumber_iff_raw, rawDouble_div]
  exact (isRoundingOf_div (isCanonical_rawDouble a) (isCanonical_rawDouble b) ha hb
    hunits).ne_notANumber

/-- The quotient of a nonnegative number by a positive finite one is a nonnegative number. -/
theorem value_div_nonneg (ha : Arith.isNumber a = true) (ha0 : 0 ≤ value a)
    (hb : Scalar.isFinite b = true) (hb0 : 0 < value b) :
    Arith.isNumber (a / b) = true ∧ 0 ≤ value (a / b) := by
  by_cases hfinite : Scalar.isFinite a = true
  · have hzero : value (Zero.zero : Float) = 0 := value_zero
    have hside := (value_div_side hfinite hb isFinite_zero hb0.ne').1
    rw [hzero] at hside
    exact ⟨isNumber_div hfinite hb hb0.ne', hside (EReal.div_nonneg ha0 hb0.le)⟩
  · have htop : value a = ⊤ := by
      by_contra htop
      exact hfinite (isFinite_iff.2 ⟨ha, (EReal.bot_lt_zero.trans_le ha0).ne', htop⟩)
    obtain hinf | ⟨m, e, hm, hraw⟩ := pos_iff.1 hb0
    · rw [isFinite_iff_raw, hinf] at hb
      cases hb
    · have hquotient : rawDouble (a / b) = .infinity .positive := by
        rw [rawDouble_div, value_eq_top.1 htop, hraw]
        exact packed_infinity _
      have hvalue : value (a / b) = ⊤ := value_eq_top.2 hquotient
      rw [isNumber_iff_raw, hquotient, hvalue]
      exact ⟨by simp, le_top⟩

/-- The quotient of a finite number by a larger positive one is at most one. -/
theorem value_div_le_one (ha : Scalar.isFinite a = true) (hb : Scalar.isFinite b = true)
    (hb0 : 0 < value b) (hle : value a ≤ value b) : value (a / b) ≤ 1 := by
  rw [← value_one]
  refine (value_div_side ha hb isFinite_one hb0.ne').2 ?_
  rw [value_one, EReal.div_le_iff_le_mul hb0 (isFinite_iff.1 hb).2.2, mul_one]
  exact hle

end Div

end Double

end TrajOpt
