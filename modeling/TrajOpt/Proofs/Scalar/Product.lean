import TrajOpt.Proofs.Scalar.Double

/-!
# Products and quotients of doubles

The product of two finite doubles is a multiple of the square of the unit, and their quotient is in
general no multiple of anything, so both are rounded as real numbers. Rounding leads to the right
side of every double. A factor above one leads even to the following double or beyond, provided that
the mantissa has all its bits.

## Main definitions

* `Binary64.IsRoundingOf` - a real number of units and what it is rounded to.

## Main statements

* `Binary64.mul_side`, `Binary64.div_side` - products and quotients are rounded to the right side
  of every double.
* `Binary64.signedUnits_lt_mul` - a factor above one makes a double of at least one larger.
-/

namespace TrajOpt

namespace Binary64

open Float.Model Float.Model.UnpackedFloat

section Rounding

variable {f g h : UnpackedFloat} {x : ℝ}

/-- Rounding does not depend on the sign. -/
theorem IsRoundedReal.signed {w : Nat} (hw : IsRoundedReal x w) (s : Sign) :
    IsRoundedReal ((s.apply 1 : Int) * x) (s.apply w) := by
  cases s with
  | positive => simpa [Sign.apply] using hw
  | negative =>
    intro c hc
    obtain ⟨hlow, hhigh⟩ := hw (-c) (by rwa [Int.natAbs_neg])
    simp only [Sign.apply, Int.cast_neg, Int.cast_one, neg_mul, one_mul] at hlow hhigh ⊢
    refine ⟨fun hle => ?_, fun hle => ?_⟩
    · have hw' := hhigh (by linarith)
      omega
    · have hw' := hlow (by linarith)
      omega

/-- What `x` units are rounded to, before it is known whether the exponent is too large. -/
structure IsRoundingOf (x : ℝ) (f : UnpackedFloat) : Prop where
  isNormalized : IsNormalized f
  isFinite : f.isFinite = true
  isRounded : IsRoundedReal x (signedUnits f)

/-- What is rounded and packed is on the right side of every finite double. -/
theorem IsRoundingOf.side (hf : IsRoundingOf x f) (hh : IsCanonical h) (hh' : h.isFinite = true) :
    (value h ≤ (x * 2 ^ unitExponent : ℝ) → value h ≤ value (packed f)) ∧
      ((x * 2 ^ unitExponent : ℝ) ≤ value h → value (packed f) ≤ value h) := by
  have hunit : (0 : ℝ) < 2 ^ unitExponent := zpow_pos two_pos _
  obtain ⟨hlow, hhigh⟩ := hf.isRounded _ (isDouble_signedUnits hh)
  obtain ⟨hlow', hhigh'⟩ := packed_side hf.isNormalized hf.isFinite hh hh'
  rw [value_eq_ofUnits hh hh'] at hlow' hhigh' ⊢
  rw [ofUnits, EReal.coe_le_coe_iff, EReal.coe_le_coe_iff, mul_le_mul_iff_left₀ hunit,
    mul_le_mul_iff_left₀ hunit]
  exact ⟨fun hle => hlow'.2 (hlow hle), fun hle => hhigh'.2 (hhigh hle)⟩

theorem IsRoundingOf.ne_notANumber (hf : IsRoundingOf x f) : packed f ≠ .notANumber := by
  have hfinite := hf.isFinite
  obtain ⟨-, hpacked⟩ | ⟨s, m, e, hm, -, -, -, hpacked⟩ :=
    packed_cases hf.isNormalized hf.isFinite
  · rw [hpacked]
    rintro rfl
    cases hfinite
  · simp [hpacked]

theorem isRoundingOf_zero (s : Sign) : IsRoundingOf 0 (.zero s) :=
  ⟨trivial, rfl, fun c _ => by simp [signedUnits]⟩

/-- A number of which the mantissa and the accuracy are known is rounded with its sign. -/
theorem isRoundingOf_roundWithAccuracy {s : Sign} {m : Nat} {e : Int} {a : Accuracy} {y : ℝ}
    (he : e ≤ targetExponent m e) (hle : m ≤ y) (hlt : y < m + 1) (ha : a ≠ .exact → m < y) :
    IsRoundingOf ((s.apply 1 : Int) * (y * 2 ^ (e - unitExponent)))
      (roundWithAccuracy Format.binary64 s m e a) := by
  obtain ⟨r, t, hrounded, hresult⟩ := roundWithAccuracy_spec (s := s) he hle hlt ha
  have hsigned := hrounded.signed s
  rcases hresult with ⟨rfl, hzero⟩ | ⟨h, heq, hnormal⟩
  · rw [hzero]
    refine ⟨trivial, rfl, ?_⟩
    have hunits : s.apply (units 0 t) = 0 := by cases s <;> simp [units, Sign.apply]
    rwa [hunits] at hsigned
  · rw [heq]
    exact ⟨hnormal, rfl, hsigned⟩

end Rounding

section Units

/-- The units of a finite double as a real number. -/
theorem cast_signedUnits {s : Sign} {m : Nat} {e : Int} {hm : 0 < m} (he : unitExponent ≤ e) :
    (signedUnits (.finite s m e hm) : ℝ) = (s.apply 1 : Int) * (m * 2 ^ (e - unitExponent)) := by
  have hnat : e - unitExponent = ((e - unitExponent).toNat : Int) := by omega
  rw [hnat, zpow_natCast]
  cases s <;> simp [signedUnits, units, Sign.apply]

theorem apply_mul (s t : Sign) : (s * t).apply 1 = s.apply 1 * t.apply 1 := by
  cases s <;> cases t <;> rfl

theorem apply_div (s t : Sign) :
    (((s / t).apply 1 : Int) : ℝ) = (s.apply 1 : Int) / (t.apply 1 : Int) := by
  have hdiv : (s / t).apply 1 = s.apply 1 * t.apply 1 := by cases s <;> cases t <;> rfl
  rw [hdiv]
  cases s <;> cases t <;> simp [Sign.apply]

end Units

section Mul

variable {f g h : UnpackedFloat}

/-- A product of mantissas has all its bits, or its exponent is below that of the unit. -/
theorem le_targetExponent_mul {m m' : Nat} {e e' : Int} (hm : IsNormal m e)
    (hm' : IsNormal m' e') : e + e' ≤ targetExponent (m * m') (e + e') := by
  have hunit : unitExponent = -1074 := rfl
  have hpos : 0 < m * m' := Nat.mul_pos hm.pos hm'.pos
  by_cases hfull : 2 ^ 52 ≤ m * m'
  · have hlog : 52 ≤ (m * m').log2 := (Nat.le_log2 hpos.ne').2 hfull
    exact le_max_of_le_left (by omega)
  · have he : e = unitExponent :=
      hm.full.resolve_left fun h => hfull (h.trans (Nat.le_mul_of_pos_right m hm'.pos))
    have he' : e' = unitExponent :=
      hm'.full.resolve_left fun h => hfull (h.trans (Nat.le_mul_of_pos_left m' hm.pos))
    exact le_max_of_le_right (by omega)

/-- The product of finite doubles is the rounded product of their units. -/
theorem isRoundingOf_mul (hf : IsCanonical f) (hg : IsCanonical g) (hf' : f.isFinite = true)
    (hg' : g.isFinite = true) :
    IsRoundingOf (signedUnits f * signedUnits g * 2 ^ unitExponent)
      (UnpackedFloat.mul Format.binary64 f g) := by
  cases f with
  | notANumber => cases hf'
  | infinity s => cases hf'
  | zero s =>
    cases g with
    | notANumber => cases hg'
    | infinity s' => cases hg'
    | zero s' => simpa [signedUnits, UnpackedFloat.mul] using isRoundingOf_zero (s * s')
    | finite s' m' e' hm' => simpa [signedUnits, UnpackedFloat.mul] using isRoundingOf_zero (s * s')
  | finite s m e hm =>
    cases g with
    | notANumber => cases hg'
    | infinity s' => cases hg'
    | zero s' => simpa [signedUnits, UnpackedFloat.mul] using isRoundingOf_zero (s * s')
    | finite s' m' e' hm' =>
      have hrounding := isRoundingOf_roundWithAccuracy (s := s * s') (a := .exact)
        (y := (m * m' : Nat)) (le_targetExponent_mul hf.1 hg.1) le_rfl (lt_add_one _)
        (fun h => absurd rfl h)
      have hunits : (signedUnits (.finite s m e hm) : ℝ) * signedUnits (.finite s' m' e' hm') *
          2 ^ unitExponent =
            ((s * s').apply 1 : Int) * ((m * m' : Nat) * 2 ^ (e + e' - unitExponent)) := by
        have hscale : e + e' - unitExponent =
            (e - unitExponent) + (e' - unitExponent) + unitExponent := by ring
        rw [cast_signedUnits hf.1.le_exponent, cast_signedUnits hg.1.le_exponent, apply_mul,
          hscale, zpow_add₀ two_ne_zero, zpow_add₀ two_ne_zero]
        push_cast
        ring
      rw [hunits]
      exact hrounding

/-- The product of finite doubles is on the right side of every finite double. -/
theorem mul_side (hf : IsCanonical f) (hg : IsCanonical g) (hh : IsCanonical h)
    (hf' : f.isFinite = true) (hg' : g.isFinite = true) (hh' : h.isFinite = true) :
    (value h ≤ value f * value g →
        value h ≤ value (packed (UnpackedFloat.mul Format.binary64 f g))) ∧
      (value f * value g ≤ value h →
        value (packed (UnpackedFloat.mul Format.binary64 f g)) ≤ value h) := by
  have hproduct : value f * value g =
      ((signedUnits f * signedUnits g * 2 ^ unitExponent * 2 ^ unitExponent : ℝ) : EReal) := by
    rw [value_eq_ofUnits hf hf', value_eq_ofUnits hg hg', ofUnits, ofUnits, ← EReal.coe_mul]
    congr 1
    ring
  rw [hproduct]
  exact (isRoundingOf_mul hf hg hf' hg').side hh hh'

/-- The units of the number one. -/
theorem ofUnits_two_pow {k : Nat} (hk : (k : Int) = -unitExponent) : ofUnits (2 ^ k) = 1 := by
  have hreal : (((2 : Int) ^ k : Int) : ℝ) * 2 ^ unitExponent = 1 := by
    rw [Int.cast_pow, Int.cast_ofNat, ← zpow_natCast, ← zpow_add₀ two_ne_zero, hk,
      neg_add_cancel, zpow_zero]
  rw [ofUnits, hreal, EReal.coe_one]

/-- A double that is not too small has all its bits. -/
theorem full_of_le_units {m : Nat} {e : Int} (hm : IsNormal m e) (hle : 2 ^ 52 ≤ units m e) :
    2 ^ 52 ≤ m := by
  rcases hm.full with hfull | rfl
  · exact hfull
  · simpa [units] using hle

/-- A double above a power of two is above it by the last place at least. -/
theorem IsDouble.two_pow_add_le {c k : Nat} (hc : IsDouble c) (hlt : 2 ^ (52 + k) < c) :
    2 ^ (52 + k) + 2 ^ k ≤ c := by
  rw [pow_add] at hlt ⊢
  obtain ⟨d, rfl⟩ := hc.dvd hlt.le
  rw [mul_comm] at hlt ⊢
  rw [← Nat.mul_add_one]
  exact Nat.mul_le_mul_left _ (Nat.lt_of_mul_lt_mul_left hlt)

/-- What follows a double is a double. -/
theorem isDouble_next {m : Nat} {e : Int} (hm : IsNormal m e) :
    IsDouble ((m + 1) * 2 ^ (e - unitExponent).toNat) := by
  rcases Nat.lt_or_ge (m + 1) (2 ^ 53) with hlt | hge
  · exact ⟨m + 1, _, hlt, rfl⟩
  · have hm' : m + 1 = 2 ^ 53 := le_antisymm hm.lt hge
    refine ⟨2 ^ 52, (e - unitExponent).toNat + 1, by omega, ?_⟩
    rw [hm', pow_succ 2 (e - unitExponent).toNat]
    ring

/-- A mantissa with all its bits grows by one at least if the factor is above one by the last
place. -/
theorem next_le_mul {m b j k : Nat} (hk : ((52 + k : Nat) : Int) = -unitExponent)
    (hm : 2 ^ 52 ≤ m) (hb : 2 ^ (52 + k) + 2 ^ k ≤ b) :
    (((m + 1) * 2 ^ j : Nat) : ℝ) ≤ (m * 2 ^ j : Nat) * b * 2 ^ unitExponent := by
  have hunit : (0 : ℝ) < 2 ^ unitExponent := zpow_pos two_pos _
  have hscale : (2 : ℝ) ^ (52 + k) * 2 ^ unitExponent = 1 := by
    rw [← zpow_natCast, ← zpow_add₀ two_ne_zero, hk, neg_add_cancel, zpow_zero]
  have hb' : (2 : ℝ) ^ (52 + k) + 2 ^ k ≤ b := by exact_mod_cast hb
  have hm' : (2 : ℝ) ^ 52 ≤ m := by exact_mod_cast hm
  push_cast
  calc ((m : ℝ) + 1) * 2 ^ j
    _ = (m * (2 ^ (52 + k) * 2 ^ unitExponent) +
          2 ^ 52 * (2 ^ k * 2 ^ unitExponent)) * 2 ^ j := by
      rw [← mul_assoc ((2 : ℝ) ^ 52), ← pow_add, hscale, mul_one]
    _ ≤ (m * (2 ^ (52 + k) * 2 ^ unitExponent) + m * (2 ^ k * 2 ^ unitExponent)) * 2 ^ j := by
      gcongr
    _ = m * 2 ^ j * (2 ^ (52 + k) + 2 ^ k) * 2 ^ unitExponent := by ring
    _ ≤ m * 2 ^ j * b * 2 ^ unitExponent := by gcongr

/-- A factor above one leads from a double of at least one to the following double or beyond. -/
theorem signedUnits_lt_mul (hf : IsCanonical f) (hg : IsCanonical g) (hf' : f.isFinite = true)
    (hg' : g.isFinite = true) (hf1 : 1 ≤ value f) (hg1 : 1 < value g) :
    signedUnits f < signedUnits (UnpackedFloat.mul Format.binary64 f g) := by
  obtain ⟨k, hk⟩ : ∃ k : Nat, ((52 + k : Nat) : Int) = -unitExponent := ⟨1022, rfl⟩
  have hrounded := (isRoundingOf_mul hf hg hf' hg').isRounded
  obtain rfl | ⟨m, e, hm, rfl⟩ := pos_iff.1 (zero_lt_one.trans_le hf1)
  · cases hf'
  have hunits : signedUnits (.finite .positive m e hm) = (units m e : Nat) := rfl
  rw [value_eq_ofUnits hf hf', ← ofUnits_two_pow hk, strictMono_ofUnits.le_iff_le, hunits] at hf1
  rw [value_eq_ofUnits hg hg', ← ofUnits_two_pow hk, strictMono_ofUnits.lt_iff_lt] at hg1
  have hm1 : 2 ^ 52 ≤ m := by
    have hle : 2 ^ (52 + k) ≤ units m e := by exact_mod_cast hf1
    exact full_of_le_units hf.1 ((Nat.pow_le_pow_right (by omega) (by omega)).trans hle)
  obtain ⟨b, hb⟩ : ∃ b : Nat, signedUnits g = b :=
    ⟨_, (Int.toNat_of_nonneg (le_trans (by positivity) hg1.le)).symm⟩
  have hb1 : 2 ^ (52 + k) + 2 ^ k ≤ b := by
    have hdouble : IsDouble b := by simpa [hb] using isDouble_signedUnits hg
    rw [hb] at hg1
    exact hdouble.two_pow_add_le (by exact_mod_cast hg1)
  rw [hunits, hb, units] at hrounded
  have hle := (hrounded _ (by rw [Int.natAbs_natCast]; exact isDouble_next hf.1)).1
    (next_le_mul hk hm1 hb1)
  have hlt : units m e < (m + 1) * 2 ^ (e - unitExponent).toNat :=
    Nat.mul_lt_mul_of_pos_right (by omega) (by positivity)
  rw [hunits]
  omega

end Mul

section Div

variable {f g h : UnpackedFloat}

theorem targetExponent_sub (m m' : Nat) (e e' : Int) :
    Format.binary64.targetExponent (totalExponent m e - totalExponent m' e') =
      max (m.log2 + 1 + e - (m'.log2 + 1 + e') - 53) unitExponent := rfl

/-- The mantissa of a quotient has all its bits, or its exponent is not above that of the unit. -/
theorem le_targetExponent_div {m m' : Nat} {d t : Int} (hm : 0 < m) (hm' : 0 < m')
    (ht : t = min d (max (m.log2 - m'.log2 + d - 53) unitExponent)) :
    t ≤ targetExponent (m * 2 ^ (d - t).toNat / m') t := by
  by_cases hunit : t ≤ unitExponent
  · exact le_max_of_le_right hunit
  · obtain ⟨k, hk⟩ : ∃ k, k = (d - t).toNat := ⟨_, rfl⟩
    have hshift : m'.log2 + 53 ≤ m.log2 + k := by omega
    have hfull : 2 ^ 52 ≤ m * 2 ^ k / m' := by
      rw [Nat.le_div_iff_mul_le hm']
      calc 2 ^ 52 * m'
        _ ≤ 2 ^ 52 * 2 ^ (m'.log2 + 1) := Nat.mul_le_mul_left _ Nat.lt_log2_self.le
        _ = 2 ^ (m'.log2 + 53) := by ring
        _ ≤ 2 ^ (m.log2 + k) := Nat.pow_le_pow_right (by omega) hshift
        _ = 2 ^ m.log2 * 2 ^ k := pow_add _ _ _
        _ ≤ m * 2 ^ k := Nat.mul_le_mul_right _ (Nat.log2_self_le hm.ne')
    have hlog : 52 ≤ (m * 2 ^ k / m').log2 :=
      (Nat.le_log2 (ne_of_gt ((by positivity : 0 < 2 ^ 52).trans_le hfull))).2 hfull
    rw [← hk]
    exact le_max_of_le_left (by omega)

/-- A quotient is known by its integral part and by whether there is a remainder. -/
theorem quotient_bounds {m m' : Nat} (hm' : 0 < m') :
    ((m / m' : Nat) : ℝ) ≤ m / m' ∧ (m / m' : ℝ) < (m / m' : Nat) + 1 ∧
      (accuracyOfFraction (m % m') m' ≠ .exact → ((m / m' : Nat) : ℝ) < m / m') := by
  have hpos : (0 : ℝ) < m' := Nat.cast_pos.2 hm'
  have hdiv : m / m' * m' + m % m' = m := Nat.div_add_mod' m m'
  have hmod : m % m' < m' := Nat.mod_lt m hm'
  rw [le_div_iff₀ hpos, div_lt_iff₀ hpos, lt_div_iff₀ hpos]
  refine ⟨by exact_mod_cast Nat.div_mul_le_self m m', ?_, fun ha => ?_⟩
  · have hlt : m < (m / m' + 1) * m' := by
      rw [Nat.add_mul, one_mul]
      omega
    exact_mod_cast hlt
  · have hrest : m % m' ≠ 0 := fun hzero => ha (by simp [accuracyOfFraction, hzero])
    have hlt : m / m' * m' < m := by omega
    exact_mod_cast hlt

/-- The quotient of finite doubles is the rounded quotient of their units. -/
theorem isRoundingOf_div (hf : IsCanonical f) (hg : IsCanonical g) (hf' : f.isFinite = true)
    (hg' : g.isFinite = true) (hg0 : signedUnits g ≠ 0) :
    IsRoundingOf (signedUnits f / signedUnits g / 2 ^ unitExponent)
      (UnpackedFloat.div Format.binary64 f g) := by
  cases g with
  | notANumber => cases hg'
  | infinity s' => cases hg'
  | zero s' => exact absurd rfl hg0
  | finite s' m' e' hm' =>
    cases f with
    | notANumber => cases hf'
    | infinity s => cases hf'
    | zero s => simpa [signedUnits, UnpackedFloat.div] using isRoundingOf_zero (s / s')
    | finite s m e hm =>
      obtain ⟨t, ht⟩ : ∃ t, t = min (e - e')
          (Format.binary64.targetExponent (totalExponent m e - totalExponent m' e')) := ⟨_, rfl⟩
      obtain ⟨k, hk⟩ : ∃ k, k = (e - e' - t).toNat := ⟨_, rfl⟩
      have hdiv : UnpackedFloat.div Format.binary64 (.finite s m e hm) (.finite s' m' e' hm') =
          roundWithAccuracy Format.binary64 (s / s') (m * 2 ^ k / m') t
            (accuracyOfFraction (m * 2 ^ k % m') m') := by
        simp only [UnpackedFloat.div, divCore, ← ht, ← hk, Nat.shiftLeft_eq]
      obtain ⟨hle, hlt, hrest⟩ := quotient_bounds (m := m * 2 ^ k) hm'
      have htarget : t ≤ targetExponent (m * 2 ^ k / m') t := by
        rw [hk]
        refine le_targetExponent_div hm hm' ?_
        rw [ht, targetExponent_sub]
        congr 2
        ring
      have hunits : (signedUnits (.finite s m e hm) : ℝ) / signedUnits (.finite s' m' e' hm') /
          2 ^ unitExponent =
            ((s / s').apply 1 : Int) * ((m * 2 ^ k : Nat) / m' * 2 ^ (t - unitExponent)) := by
        have hscale : e - unitExponent =
            k + (t - unitExponent) + (e' - unitExponent) + unitExponent := by omega
        have hmantissa : (m' : ℝ) ≠ 0 := by exact_mod_cast hm'.ne'
        have hsign : ((s'.apply 1 : Int) : ℝ) ≠ 0 := by cases s' <;> simp [Sign.apply]
        rw [cast_signedUnits hf.1.le_exponent, cast_signedUnits hg.1.le_exponent, apply_div,
          hscale, zpow_add₀ two_ne_zero, zpow_add₀ two_ne_zero, zpow_add₀ two_ne_zero,
          zpow_natCast]
        push_cast
        field_simp
      rw [hdiv, hunits]
      exact isRoundingOf_roundWithAccuracy htarget hle hlt hrest

/-- The quotient of finite doubles is on the right side of every finite double. -/
theorem div_side (hf : IsCanonical f) (hg : IsCanonical g) (hh : IsCanonical h)
    (hf' : f.isFinite = true) (hg' : g.isFinite = true) (hh' : h.isFinite = true)
    (hg0 : value g ≠ 0) :
    (value h ≤ value f / value g →
        value h ≤ value (packed (UnpackedFloat.div Format.binary64 f g))) ∧
      (value f / value g ≤ value h →
        value (packed (UnpackedFloat.div Format.binary64 f g)) ≤ value h) := by
  have hunit : (2 : ℝ) ^ unitExponent ≠ 0 := (zpow_pos two_pos _).ne'
  have hg0' : signedUnits g ≠ 0 := fun hzero => hg0 (by
    rw [value_eq_ofUnits hg hg', hzero]
    simp [ofUnits])
  have hquotient : value f / value g =
      ((signedUnits f / signedUnits g / 2 ^ unitExponent * 2 ^ unitExponent : ℝ) : EReal) := by
    rw [value_eq_ofUnits hf hf', value_eq_ofUnits hg hg', ofUnits, ofUnits, ← EReal.coe_div]
    congr 1
    have hreal : (signedUnits g : ℝ) ≠ 0 := by exact_mod_cast hg0'
    field_simp
  rw [hquotient]
  exact (isRoundingOf_div hf hg hf' hg' hg0').side hh hh'

end Div

end Binary64

end TrajOpt
