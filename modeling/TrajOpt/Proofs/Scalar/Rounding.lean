import TrajOpt.Proofs.Scalar.Binary64

/-!
# Rounding to doubles

A result of arithmetic is cut to 53 bits and rounded up or down. Where it is cut, the mantissa has
all its bits, so no double lies strictly between the result and what it is rounded to. This is all
that later proofs use of rounding: the rounded number is on the same side of every double as the
exact one. The exact number may be any real number, as quotients are no whole number of units.

## Main definitions

* `Binary64.IsDouble` - a number of units that a mantissa of 53 bits can represent.
* `Binary64.IsRoundedReal` - no double lies between a real and a whole number of units.
* `Binary64.Encloses` - what the bits that are cut off tell about a real number.

## Main statements

* `Binary64.isRoundedReal_of_close` - a full mantissa that is rounded up or down.
* `Binary64.roundWithAccuracy_spec` - what the model rounds a real number to.
* `Binary64.round_eq` - what the model rounds a whole number of units to.
-/

namespace TrajOpt

namespace Binary64

open Float.Model Float.Model.UnpackedFloat

/-- A number of units that a mantissa of 53 bits can represent. -/
def IsDouble (c : Nat) : Prop := ∃ a j, a < 2 ^ 53 ∧ c = a * 2 ^ j

/-- The number `w` is on the same side of every double as `u`, or equal to it. -/
def IsRounded (u w : Nat) : Prop := ∀ c, IsDouble c → (c ≤ u → c ≤ w) ∧ (u ≤ c → w ≤ c)

/-- The number `w` is on the same side of every double as the real number `x`, or equal to it. -/
def IsRoundedReal (x : ℝ) (w : Int) : Prop :=
  ∀ c : Int, IsDouble c.natAbs → ((c : ℝ) ≤ x → c ≤ w) ∧ (x ≤ c → w ≤ c)

theorem IsRoundedReal.isRounded {u w : Nat} (h : IsRoundedReal u w) : IsRounded u w := by
  intro c hc
  obtain ⟨hlow, hhigh⟩ := h c hc
  exact ⟨fun hle => by exact_mod_cast hlow (by exact_mod_cast hle),
    fun hle => by exact_mod_cast hhigh (by exact_mod_cast hle)⟩

theorem isDouble_units {m : Nat} {e : Int} (h : IsNormal m e) : IsDouble (units m e) :=
  ⟨m, _, h.lt, rfl⟩

/-- A large double is a multiple of the unit in the last place. -/
theorem IsDouble.dvd {c k : Nat} (hc : IsDouble c) (hlarge : 2 ^ 52 * 2 ^ k ≤ c) : 2 ^ k ∣ c := by
  obtain ⟨a, j, ha, rfl⟩ := hc
  suffices hkj : k ≤ j from (Nat.pow_dvd_pow 2 hkj).mul_left a
  by_contra hkj
  have hpow : 2 ^ 53 * 2 ^ j ≤ 2 ^ 52 * 2 ^ k := by
    calc 2 ^ 53 * 2 ^ j
      _ = 2 ^ 52 * 2 ^ (j + 1) := by ring
      _ ≤ 2 ^ 52 * 2 ^ k := Nat.mul_le_mul_left _ (Nat.pow_le_pow_right (by omega) (by omega))
  have hlt : a * 2 ^ j < 2 ^ 53 * 2 ^ j := Nat.mul_lt_mul_of_pos_right ha (by positivity)
  omega

/-- A whole number of units in the last place is on the right side of every double if it is less
than one of them away. -/
theorem isRoundedReal_of_close {x : ℝ} {r k : Nat} (hx : 0 ≤ x)
    (hfull : k = 0 ∨ 2 ^ 52 * 2 ^ k ≤ x) (hlow : x < (r + 1) * 2 ^ k)
    (hhigh : r * 2 ^ k < x + 2 ^ k) : IsRoundedReal x (r * 2 ^ k : Nat) := by
  have hpos : (0 : ℝ) < 2 ^ k := by positivity
  have hdvd : ∀ c : Nat, IsDouble c → (k ≠ 0 → 2 ^ 52 * 2 ^ k ≤ c) → 2 ^ k ∣ c := by
    intro c hc hlarge
    by_cases hk : k = 0
    · simp [hk]
    · exact hc.dvd (hlarge hk)
  intro c hc
  constructor
  · intro hcx
    by_contra hlt
    lift c to Nat using by omega
    have hlt' : r * 2 ^ k < c := by omega
    obtain ⟨d, rfl⟩ : 2 ^ k ∣ c := by
      refine hdvd c hc fun hk => ?_
      have hr : (2 : ℝ) ^ 52 < r + 1 :=
        lt_of_mul_lt_mul_right ((hfull.resolve_left hk).trans_lt hlow) hpos.le
      have hr' : 2 ^ 52 ≤ r := by
        have hnat : 2 ^ 52 < r + 1 := by exact_mod_cast hr
        omega
      exact (Nat.mul_le_mul_right _ hr').trans hlt'.le
    have hd : r + 1 ≤ d := by
      by_contra hd
      have hle : 2 ^ k * d ≤ 2 ^ k * r := Nat.mul_le_mul_left _ (by omega)
      rw [mul_comm (2 ^ k) r] at hle
      omega
    have hnext : ((r : ℝ) + 1) * 2 ^ k ≤ ((2 ^ k * d : Nat) : ℤ) := by
      rw [mul_comm]
      exact_mod_cast Nat.mul_le_mul_left (2 ^ k) hd
    exact absurd (hnext.trans hcx) (not_le.2 hlow)
  · intro hxc
    by_contra hlt
    have hc0 : (0 : ℝ) ≤ c := hx.trans hxc
    lift c to Nat using by exact_mod_cast hc0
    have hlt' : c < r * 2 ^ k := by omega
    obtain ⟨d, rfl⟩ : 2 ^ k ∣ c := by
      refine hdvd c hc fun hk => ?_
      have hlarge : (2 : ℝ) ^ 52 * 2 ^ k ≤ (c : ℤ) := (hfull.resolve_left hk).trans hxc
      exact_mod_cast hlarge
    have hd : d + 1 ≤ r := by
      by_contra hd
      have hle : 2 ^ k * r ≤ 2 ^ k * d := Nat.mul_le_mul_left _ (by omega)
      rw [mul_comm (2 ^ k) r] at hle
      omega
    have hnext : ((2 ^ k * d : Nat) : ℝ) + 2 ^ k ≤ r * 2 ^ k := by
      have hnat : 2 ^ k * (d + 1) ≤ 2 ^ k * r := Nat.mul_le_mul_left _ hd
      rw [Nat.mul_add_one, mul_comm (2 ^ k) r] at hnat
      exact_mod_cast hnat
    have hxc' : x ≤ ((2 ^ k * d : Nat) : ℝ) := by exact_mod_cast hxc
    linarith

section Shift

open ExtendedMantissa

/-- The mantissa is the integral part of `y`, and not all of `y` if one of the bits is set. -/
structure Encloses (em : ExtendedMantissa) (y : ℝ) : Prop where
  le : em.mantissa ≤ y
  lt : y < em.mantissa + 1
  lost : (em.roundBit || em.stickyBit) = true → em.mantissa < y

variable {em : ExtendedMantissa} {y : ℝ}

theorem encloses_ofMantissaAndAccuracy {m : Nat} {a : Accuracy} (hle : m ≤ y) (hlt : y < m + 1)
    (ha : a ≠ .exact → m < y) : Encloses (ofMantissaAndAccuracy m a) y := by
  cases a with
  | exact => exact ⟨hle, hlt, by simp [ofMantissaAndAccuracy]⟩
  | inexact o => cases o <;> exact ⟨hle, hlt, fun _ => ha (by simp)⟩

/-- Cutting off one bit keeps what is known about the number. -/
theorem Encloses.shiftRightOne (h : Encloses em y) : Encloses em.shiftRightOne (y / 2) := by
  obtain ⟨hle, hlt, hlost⟩ := h
  have hdiv : (em.mantissa : ℝ) = 2 * (em.mantissa / 2 : Nat) + (em.mantissa % 2 : Nat) := by
    exact_mod_cast (Nat.div_add_mod em.mantissa 2).symm
  rcases Nat.mod_two_eq_zero_or_one em.mantissa with hbit | hbit
  · rw [hbit, Nat.cast_zero, add_zero] at hdiv
    refine ⟨?_, ?_, fun hset => ?_⟩
    · simp only [ExtendedMantissa.shiftRightOne]
      linarith
    · simp only [ExtendedMantissa.shiftRightOne]
      linarith
    · simp only [ExtendedMantissa.shiftRightOne, hbit, bne_self_eq_false, Bool.false_or] at hset ⊢
      have := hlost hset
      linarith
  · rw [hbit, Nat.cast_one] at hdiv
    refine ⟨?_, ?_, fun _ => ?_⟩
    all_goals
      simp only [ExtendedMantissa.shiftRightOne]
      linarith

theorem Encloses.shiftRight (h : Encloses em y) (k : Nat) : Encloses (em >>> k) (y / 2 ^ k) := by
  induction k with
  | zero => simpa [HShiftRight.hShiftRight, Nat.repeat] using h
  | succ k ih =>
    rw [pow_succ, ← div_div]
    exact ih.shiftRightOne

theorem mantissa_shiftRight (em : ExtendedMantissa) (k : Nat) :
    (em >>> k).mantissa = em.mantissa / 2 ^ k := by
  induction k with
  | zero => simp [HShiftRight.hShiftRight, Nat.repeat]
  | succ k ih =>
    have hnext : (em >>> (k + 1)).mantissa = (em >>> k).mantissa / 2 := rfl
    rw [hnext, ih, Nat.div_div_eq_div_mul, pow_succ]

/-- A mantissa is rounded up by at most one, and only if something was lost. -/
theorem roundedMantissa_mem (em : ExtendedMantissa) :
    em.roundedMantissa = em.mantissa ∨
      em.roundedMantissa = em.mantissa + 1 ∧ (em.roundBit || em.stickyBit) = true := by
  obtain ⟨m, r, s⟩ := em
  cases r <;> cases s <;> simp [roundedMantissa, accuracy, Accuracy.roundToNearestEven]
  omega

/-- A mantissa is rounded to less than one away from the number. -/
theorem Encloses.roundedMantissa (h : Encloses em y) :
    y < em.roundedMantissa + 1 ∧ (em.roundedMantissa : ℝ) < y + 1 := by
  obtain ⟨hle, hlt, hlost⟩ := h
  rcases roundedMantissa_mem em with hr | ⟨hr, hset⟩
  · rw [hr]
    exact ⟨hlt, by linarith⟩
  · rw [hr, Nat.cast_add_one]
    exact ⟨by linarith, add_lt_add_left (hlost hset) 1⟩

end Shift

/-- The exponent that the format gives to a number. -/
def targetExponent (m : Nat) (e : Int) : Int := max (m.log2 + 1 + e - 53) unitExponent

theorem targetExponent_eq (m : Nat) (e : Int) :
    Format.binary64.targetExponent (totalExponent m e) = targetExponent m e := rfl

/-- What a cut mantissa is rounded to, before it is known whether it fits. -/
theorem rounded_of_shift {m : Nat} {e t : Int} {y : ℝ} (ht : t = targetExponent m e) (he : e ≤ t)
    (hle : m ≤ y) (hlt : y < m + 1) {r : Nat} (hlow : y / 2 ^ (t - e).toNat < r + 1)
    (hhigh : r < y / 2 ^ (t - e).toNat + 1) :
    IsRoundedReal (y * 2 ^ (e - unitExponent)) (units r t) ∧ r ≤ 2 ^ 53 ∧
      (2 ^ 52 ≤ r ∨ t = unitExponent) := by
  obtain ⟨k, hk⟩ : ∃ k, k = (t - e).toNat := ⟨_, rfl⟩
  obtain ⟨j, hj⟩ : ∃ j, j = (t - unitExponent).toNat := ⟨_, rfl⟩
  have htarget : t = max (m.log2 + 1 + e - 53) unitExponent := ht
  have hunit : unitExponent ≤ t := by omega
  have hpos : (0 : ℝ) < 2 ^ k := by positivity
  have hscale : (0 : ℝ) < 2 ^ (e - unitExponent) := by positivity
  have hkj : (2 : ℝ) ^ k * 2 ^ (e - unitExponent) = 2 ^ j := by
    rw [← zpow_natCast, ← zpow_natCast, ← zpow_add₀ two_ne_zero]
    congr 1
    omega
  rw [← hk, div_lt_iff₀ hpos] at hlow
  rw [← hk, ← sub_lt_iff_lt_add, lt_div_iff₀ hpos, sub_mul, one_mul, sub_lt_iff_lt_add] at hhigh
  have hfull : t = unitExponent ∨ (2 : ℝ) ^ 52 * 2 ^ k ≤ y := by
    by_cases hunit' : t = unitExponent
    · exact .inl hunit'
    · have hm : m ≠ 0 := by
        rintro rfl
        rw [Nat.log2_zero] at htarget
        omega
      have hexponent : 52 + k = m.log2 := by omega
      have hlog : 2 ^ 52 * 2 ^ k ≤ m := by
        rw [← pow_add, hexponent]
        exact Nat.log2_self_le hm
      exact .inr (le_trans (by exact_mod_cast hlog) hle)
  refine ⟨?_, ?_, ?_⟩
  · rw [units, ← hj]
    have hy : 0 ≤ y := (Nat.cast_nonneg m).trans hle
    refine isRoundedReal_of_close (mul_nonneg hy hscale.le) ?_ ?_ ?_
    · refine hfull.imp (fun hfull => by omega) fun hfull => ?_
      rw [← hkj, ← mul_assoc]
      exact mul_le_mul_of_nonneg_right hfull hscale.le
    · rw [← hkj, ← mul_assoc]
      exact mul_lt_mul_of_pos_right hlow hscale
    · rw [← hkj, ← mul_assoc, ← add_mul]
      exact mul_lt_mul_of_pos_right hhigh hscale
  · have hbits : m + 1 ≤ 2 ^ 53 * 2 ^ k := by
      rw [← pow_add]
      exact Nat.lt_log2_self.trans_le (Nat.pow_le_pow_right (by omega) (by omega))
    have hbits' : (m : ℝ) + 1 ≤ 2 ^ 53 * 2 ^ k := by exact_mod_cast hbits
    have hr : (r : ℝ) * 2 ^ k < (2 ^ 53 + 1) * 2 ^ k := by linarith
    have hr' : r < 2 ^ 53 + 1 := by exact_mod_cast lt_of_mul_lt_mul_right hr hpos.le
    omega
  · refine hfull.symm.imp_left fun hfull => ?_
    have hr : (2 : ℝ) ^ 52 < r + 1 := lt_of_mul_lt_mul_right (hfull.trans_lt hlow) hpos.le
    have hr' : 2 ^ 52 < r + 1 := by exact_mod_cast hr
    omega

/-- A number of which the mantissa and the accuracy are known is rounded to zero, to a double, or to
one with too large an exponent. -/
theorem roundWithAccuracy_spec {s : Sign} {m : Nat} {e : Int} {a : Accuracy} {y : ℝ}
    (he : e ≤ targetExponent m e) (hle : m ≤ y) (hlt : y < m + 1) (ha : a ≠ .exact → m < y) :
    ∃ r t, IsRoundedReal (y * 2 ^ (e - unitExponent)) (units r t) ∧
      (r = 0 ∧ roundWithAccuracy Format.binary64 s m e a = .zero s ∨
        ∃ h, roundWithAccuracy Format.binary64 s m e a = .finite s r t h ∧ IsNormal r t) := by
  obtain ⟨t, ht⟩ : ∃ t, t = targetExponent m e := ⟨_, rfl⟩
  have hshift : shiftToTargetExponent Format.binary64 m e a =
      (ExtendedMantissa.ofMantissaAndAccuracy m a >>> (t - e).toNat, t) := by
    simp only [shiftToTargetExponent, shiftToExponent, targetExponent_eq, ← ht, Prod.mk.injEq,
      true_and]
    omega
  obtain ⟨hlow, hhigh⟩ := ((encloses_ofMantissaAndAccuracy hle hlt ha).shiftRight
    (t - e).toNat).roundedMantissa
  obtain ⟨r, hr⟩ : ∃ r, r = (ExtendedMantissa.ofMantissaAndAccuracy m a >>>
    (t - e).toNat).roundedMantissa := ⟨_, rfl⟩
  rw [← hr] at hlow hhigh
  obtain ⟨hrounded, hmax, hfull⟩ := rounded_of_shift ht (ht ▸ he) hle hlt hlow hhigh
  have hsecond : (shiftToTargetExponent Format.binary64 r t .exact).1.mantissa =
      r / 2 ^ (targetExponent r t - t).toNat ∧
      (shiftToTargetExponent Format.binary64 r t .exact).2 = max t (targetExponent r t) := by
    simp only [shiftToTargetExponent, shiftToExponent, targetExponent_eq]
    exact ⟨mantissa_shiftRight _ _, by omega⟩
  simp only [roundWithAccuracy, hshift, ← hr, hsecond]
  have htu : unitExponent ≤ t := ht ▸ le_max_right _ _
  rcases hmax.lt_or_eq with hlt | rfl
  · have hstays : targetExponent r t ≤ t := by
      refine max_le ?_ htu
      by_cases hzero : r = 0
      · rw [hzero, Nat.log2_zero]
        omega
      · have hlog : r.log2 < 53 := (Nat.log2_lt hzero).2 hlt
        omega
    have hzero : (targetExponent r t - t).toNat = 0 := by omega
    refine ⟨r, t, hrounded, ?_⟩
    rcases r.eq_zero_or_pos with hr0 | hpos
    · exact .inl ⟨hr0, by simp [hr0]⟩
    · exact .inr ⟨hpos, by simp [hzero, hpos.ne', max_eq_left hstays], hpos, hlt, htu, hfull⟩
  · have hgrows : targetExponent (2 ^ 53) t = t + 1 := by
      rw [targetExponent, Nat.log2_two_pow]
      omega
    have hunits : units (2 ^ 52) (t + 1) = units (2 ^ 53) t := by
      have hnat : (t + 1 - unitExponent).toNat = (t - unitExponent).toNat + 1 := by omega
      rw [units, units, hnat, pow_succ 2 (t - unitExponent).toNat]
      ring
    refine ⟨2 ^ 52, t + 1, by rwa [hunits], .inr ⟨by positivity, ?_, by positivity, by omega,
      by omega, .inl le_rfl⟩⟩
    have hone : (t + 1 - t).toNat = 1 := by omega
    simp only [hgrows, hone]
    simp

/-- A number whose exponent is not too large is rounded to a double, or to one with too large an
exponent. -/
theorem roundWithAccuracy_eq {s : Sign} {m : Nat} {e : Int} (hm : 0 < m) (hunit : unitExponent ≤ e)
    (he : e ≤ targetExponent m e) :
    ∃ r t h, roundWithAccuracy Format.binary64 s m e .exact = .finite s r t h ∧
      IsNormal r t ∧ IsRounded (units m e) (units r t) := by
  obtain ⟨r, t, hrounded, hresult⟩ := roundWithAccuracy_spec (s := s) (a := .exact) (y := m) he
    le_rfl (lt_add_one _) (fun h => absurd rfl h)
  have hscale : (m : ℝ) * 2 ^ (e - unitExponent) = (units m e : Nat) := by
    have hnat : (e - unitExponent) = ((e - unitExponent).toNat : Int) := by omega
    rw [units, Nat.cast_mul, Nat.cast_pow, Nat.cast_ofNat, ← zpow_natCast, ← hnat]
  rw [hscale] at hrounded
  rcases hresult with ⟨rfl, -⟩ | ⟨h, heq, hnormal⟩
  · have hone : units m e ≥ 1 := units_pos hm
    have hzero := (hrounded.isRounded 1 ⟨1, 0, by omega, rfl⟩).1 hone
    simp [units] at hzero
  · exact ⟨r, t, h, heq, hnormal, hrounded.isRounded⟩

/-- A number of at least one unit is rounded to a double, or to one with too large an exponent. -/
theorem round_eq {s : Sign} {m : Nat} {e : Int} (hm : 0 < m) (hunit : unitExponent ≤ e) :
    ∃ r t h, UnpackedFloat.round Format.binary64 s m e = .finite s r t h ∧
      IsNormal r t ∧ IsRounded (units m e) (units r t) := by
  obtain ⟨t, ht⟩ : ∃ t, t = targetExponent m e := ⟨_, rfl⟩
  obtain ⟨k, hk⟩ : ∃ k, k = (e - t).toNat := ⟨_, rfl⟩
  have htu : unitExponent ≤ t := by rw [ht]; exact le_max_right _ _
  have hpos : 0 < m * 2 ^ k := by positivity
  have hlog : (m * 2 ^ k).log2 = m.log2 + k := by
    refine (Nat.log2_eq_iff hpos.ne').2 ⟨?_, ?_⟩
    · rw [pow_add]
      exact Nat.mul_le_mul_right _ (Nat.log2_self_le hm.ne')
    · rw [Nat.add_right_comm, pow_add]
      exact Nat.mul_lt_mul_of_pos_right Nat.lt_log2_self (by positivity)
  have hsame : targetExponent (m * 2 ^ k) (e - k) = t := by
    rw [ht, targetExponent, targetExponent, hlog]
    congr 1
    push_cast
    ring
  have hround : UnpackedFloat.round Format.binary64 s m e =
      roundWithAccuracy Format.binary64 s (m * 2 ^ k) (e - k) .exact := by
    simp only [UnpackedFloat.round, decreaseExponent, targetExponent_eq, ← ht, ← hk,
      Nat.shiftLeft_eq]
  have hunits : units (m * 2 ^ k) (e - k) = units m e := by
    have hnat : (e - unitExponent).toNat = k + (e - k - unitExponent).toNat := by omega
    rw [units, units, hnat, pow_add, mul_assoc]
  rw [hround, ← hunits]
  exact roundWithAccuracy_eq hpos (by omega) (by omega)

end Binary64

end TrajOpt
