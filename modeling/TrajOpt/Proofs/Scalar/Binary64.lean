import Mathlib

/-!
# Doubles as numbers

A finite double is a mantissa times a power of two. Of the many ways to write a number like this,
the format has one: the mantissa fills its 53 bits, unless the exponent is the smallest one. Every
such number is a whole number of units, where the unit is the smallest positive double, and among
numbers written in that way the order by exponent and mantissa is the order by value.

## Main definitions

* `Binary64.IsCanonical` - the way in which the format writes a number.
* `Binary64.value` - the extended real number that an unpacked double stands for.

## Main statements

* `Binary64.isCanonical_unpack` - what is unpacked from a double is canonical.
* `Binary64.compare_eq` - canonical doubles compare like their values.
* `Binary64.unpack_pack` - a canonical double survives being packed.
-/

namespace TrajOpt

namespace Binary64

open Float.Model Float.Model.UnpackedFloat

/-- The exponent of the unit, which is the smallest exponent of a double. -/
def unitExponent : Int := -1074

/-- How many units a mantissa and an exponent make. -/
def units (m : Nat) (e : Int) : Nat := m * 2 ^ (e - unitExponent).toNat

/-- A mantissa of at most 53 bits, which are all in use unless the exponent is the smallest one. -/
structure IsNormal (m : Nat) (e : Int) : Prop where
  pos : 0 < m
  lt : m < 2 ^ 53
  le_exponent : unitExponent ≤ e
  full : 2 ^ 52 ≤ m ∨ e = unitExponent

/-- The largest exponent of a finite double. -/
def largestExponent : Int := 971

/-- An unpacked double in the way in which the format writes it. -/
def IsCanonical : UnpackedFloat → Prop
  | .finite _ m e _ => IsNormal m e ∧ e ≤ largestExponent
  | _ => True

/-- The extended real number of a whole number of units. -/
noncomputable def ofUnits (k : Int) : EReal := (k * (2 : ℝ) ^ unitExponent : ℝ)

/-- The extended real number that an unpacked double stands for. -/
noncomputable def value : UnpackedFloat → EReal
  | .infinity .negative => ⊥
  | .infinity .positive => ⊤
  | .finite s m e _ => ((s.apply m : ℤ) * (2 : ℝ) ^ e : ℝ)
  | .zero _ | .notANumber => 0

theorem compare_map {α β : Type} [LinearOrder α] [LinearOrder β] {f : α → β} (hf : StrictMono f)
    (a b : α) : compare (f a) (f b) = compare a b := by
  rcases lt_trichotomy a b with h | rfl | h
  · rw [compare_lt_iff_lt.2 h, compare_lt_iff_lt.2 (hf h)]
  · rw [compare_eq_iff_eq.2 rfl, compare_eq_iff_eq.2 rfl]
  · rw [compare_gt_iff_gt.2 h, compare_gt_iff_gt.2 (hf h)]

theorem compare_swap {α : Type} [LinearOrder α] (a b : α) :
    (compare a b).swap = compare b a := by
  rcases lt_trichotomy a b with h | rfl | h
  · rw [compare_lt_iff_lt.2 h, compare_gt_iff_gt.2 h]
    rfl
  · rw [compare_eq_iff_eq.2 rfl]
    rfl
  · rw [compare_gt_iff_gt.2 h, compare_lt_iff_lt.2 h]
    rfl

theorem compare_neg (a b : Int) : compare (-a) (-b) = compare b a := by
  rcases lt_trichotomy a b with h | rfl | h
  · rw [compare_gt_iff_gt.2 h, compare_gt_iff_gt.2 (show -b < -a by omega)]
  · rw [compare_eq_iff_eq.2 rfl, compare_eq_iff_eq.2 rfl]
  · rw [compare_lt_iff_lt.2 h, compare_lt_iff_lt.2 (show -a < -b by omega)]

theorem strictMono_ofUnits : StrictMono ofUnits := by
  intro a b h
  have hunit : (0 : ℝ) < 2 ^ unitExponent := zpow_pos two_pos _
  rw [ofUnits, ofUnits, EReal.coe_lt_coe_iff]
  exact mul_lt_mul_of_pos_right (Int.cast_lt.2 h) hunit

section Units

variable {m m' : Nat} {e e' : Int}

/-- A larger exponent outweighs every mantissa. -/
theorem units_lt_of_exponent_lt (h : IsNormal m e) (h' : IsNormal m' e') (he : e < e') :
    units m e < units m' e' := by
  obtain ⟨-, hm, hlow, -⟩ := h
  obtain ⟨k, hk⟩ : ∃ k, (e' - unitExponent).toNat = (e - unitExponent).toNat + 1 + k :=
    ⟨(e' - e).toNat - 1, by omega⟩
  have hfull : 2 ^ 52 ≤ m' := h'.full.resolve_right (by omega)
  calc units m e
    _ < 2 ^ 53 * 2 ^ (e - unitExponent).toNat := Nat.mul_lt_mul_of_pos_right hm (by positivity)
    _ = 2 ^ 52 * 2 ^ ((e - unitExponent).toNat + 1) := by ring
    _ ≤ m' * 2 ^ ((e - unitExponent).toNat + 1 + k) :=
      Nat.mul_le_mul hfull (Nat.pow_le_pow_right (by omega) (by omega))
    _ = units m' e' := by rw [units, hk]

/-- The order by exponent and mantissa is the order by units. -/
theorem compare_units (h : IsNormal m e) (h' : IsNormal m' e') :
    (compare e e').then (compare m m') = compare (units m e) (units m' e') := by
  rcases lt_trichotomy e e' with he | rfl | he
  · rw [compare_lt_iff_lt.2 he, compare_lt_iff_lt.2 (units_lt_of_exponent_lt h h' he)]
    rfl
  · have hmono : StrictMono fun m => units m e := fun a b hab =>
      Nat.mul_lt_mul_of_pos_right hab (by positivity)
    rw [compare_map hmono m m', compare_eq_iff_eq.2 rfl]
    rfl
  · rw [compare_gt_iff_gt.2 he, compare_gt_iff_gt.2 (units_lt_of_exponent_lt h' h he)]
    rfl

theorem units_pos (h : 0 < m) : 0 < units m e := Nat.mul_pos h (by positivity)

theorem value_finite {s : Sign} {h : 0 < m} (he : unitExponent ≤ e) :
    value (.finite s m e h) = ofUnits (s.apply (units m e)) := by
  have hmul : (m : ℝ) * 2 ^ e = units m e * 2 ^ unitExponent := by
    rw [units, Nat.cast_mul, Nat.cast_pow, Nat.cast_ofNat, mul_assoc, ← zpow_natCast,
      ← zpow_add₀ two_ne_zero, Int.toNat_of_nonneg (by omega)]
    congr 2
    omega
  cases s
  · simp [value, ofUnits, Sign.apply, hmul]
  · simp [value, ofUnits, Sign.apply, hmul]

end Units

section Order

variable {f g : UnpackedFloat}

theorem value_zero {s : Sign} : value (.zero s) = ofUnits 0 := by
  simp [value, ofUnits]

theorem ofUnits_lt_top (k : Int) : ofUnits k < ⊤ := EReal.coe_lt_top _

theorem bot_lt_ofUnits (k : Int) : ⊥ < ofUnits k := EReal.bot_lt_coe _

/-- The units of a finite double, zero for the others. -/
def signedUnits : UnpackedFloat → Int
  | .finite s m e _ => s.apply (units m e)
  | _ => 0

theorem value_eq_ofUnits (hf : IsCanonical f) (hfinite : f.isFinite = true) :
    value f = ofUnits (signedUnits f) := by
  cases f with
  | zero s => exact value_zero
  | finite s m e h => exact value_finite hf.1.le_exponent
  | notANumber => cases hfinite
  | infinity s => cases hfinite

theorem value_eq_bot : value f = ⊥ ↔ f = .infinity .negative := by
  cases f with
  | infinity s => cases s <;> simp [value]
  | notANumber => simp [value]
  | zero s => simp [value]
  | finite s m e h => simp only [value, EReal.coe_ne_bot, reduceCtorEq]

theorem value_eq_top : value f = ⊤ ↔ f = .infinity .positive := by
  cases f with
  | infinity s => cases s <;> simp [value]
  | notANumber => simp [value]
  | zero s => simp [value]
  | finite s m e h => simp only [value, EReal.coe_ne_top, reduceCtorEq]

theorem value_ne_bot (hf : f.isFinite = true) : value f ≠ ⊥ := by
  rw [Ne, value_eq_bot]
  rintro rfl
  cases hf

theorem value_ne_top (hf : f.isFinite = true) : value f ≠ ⊤ := by
  rw [Ne, value_eq_top]
  rintro rfl
  cases hf

/-- Finite doubles compare like their units. -/
theorem compare_finite (hf : IsCanonical f) (hg : IsCanonical g) (hf' : f.isFinite = true)
    (hg' : g.isFinite = true) :
    f.compare g = some (compare (signedUnits f) (signedUnits g)) := by
  cases f with
  | notANumber => cases hf'
  | infinity s => cases hf'
  | zero s =>
    cases g with
    | notANumber => cases hg'
    | infinity s' => cases hg'
    | zero s' => rfl
    | finite s' m' e' h' =>
      have hpos : 0 < units m' e' := units_pos h'
      cases s' with
      | negative =>
        have hgt : -(units m' e' : Int) < 0 := by omega
        simp only [UnpackedFloat.compare, signedUnits, Sign.apply, compare_gt_iff_gt.2 hgt]
      | positive =>
        have hlt : (0 : Int) < units m' e' := by omega
        simp only [UnpackedFloat.compare, signedUnits, Sign.apply, compare_lt_iff_lt.2 hlt]
  | finite s m e h =>
    have hpos : 0 < units m e := units_pos h
    cases g with
    | notANumber => cases hg'
    | infinity s' => cases hg'
    | zero s' =>
      cases s with
      | negative =>
        have hlt : -(units m e : Int) < 0 := by omega
        simp only [UnpackedFloat.compare, signedUnits, Sign.apply, compare_lt_iff_lt.2 hlt]
      | positive =>
        have hgt : (0 : Int) < units m e := by omega
        simp only [UnpackedFloat.compare, signedUnits, Sign.apply, compare_gt_iff_gt.2 hgt]
    | finite s' m' e' h' =>
      have hpos' : 0 < units m' e' := units_pos h'
      have hcast : compare (units m e : Int) (units m' e') = compare (units m e) (units m' e') :=
        compare_map (Nat.strictMono_cast (α := Int)) _ _
      cases s with
      | negative =>
        cases s' with
        | negative =>
          simp only [UnpackedFloat.compare, signedUnits, Sign.apply, compare_neg,
            compare_units hf.1 hg.1]
          rw [compare_swap, compare_map (Nat.strictMono_cast (α := Int))]
        | positive =>
          have hlt : -(units m e : Int) < units m' e' := by omega
          simp only [UnpackedFloat.compare, signedUnits, Sign.apply, compare_lt_iff_lt.2 hlt]
      | positive =>
        cases s' with
        | negative =>
          have hgt : -(units m' e' : Int) < units m e := by omega
          simp only [UnpackedFloat.compare, signedUnits, Sign.apply, compare_gt_iff_gt.2 hgt]
        | positive =>
          simp only [UnpackedFloat.compare, signedUnits, Sign.apply, compare_units hf.1 hg.1,
            hcast]

/-- An infinite double is beyond all finite ones. -/
theorem compare_infinity {s : Sign} (hg : IsCanonical g) (hg' : g.isFinite = true) :
    UnpackedFloat.compare (.infinity s) g = some (compare (value (.infinity s)) (value g)) ∧
      g.compare (.infinity s) = some (compare (value g) (value (.infinity s))) := by
  rw [value_eq_ofUnits hg hg']
  cases s with
  | negative =>
    have hbot := bot_lt_ofUnits (signedUnits g)
    rw [value, compare_lt_iff_lt.2 hbot, compare_gt_iff_gt.2 hbot]
    cases g <;> simp_all [UnpackedFloat.compare, UnpackedFloat.isFinite]
  | positive =>
    have htop := ofUnits_lt_top (signedUnits g)
    rw [value, compare_lt_iff_lt.2 htop, compare_gt_iff_gt.2 htop]
    cases g <;> simp_all [UnpackedFloat.compare, UnpackedFloat.isFinite]

theorem compare_eq (hf : IsCanonical f) (hg : IsCanonical g) (hf' : f ≠ .notANumber)
    (hg' : g ≠ .notANumber) : f.compare g = some (compare (value f) (value g)) := by
  by_cases hfinite : f.isFinite = true
  · by_cases hfinite' : g.isFinite = true
    · rw [value_eq_ofUnits hf hfinite, value_eq_ofUnits hg hfinite',
        compare_map strictMono_ofUnits]
      exact compare_finite hf hg hfinite hfinite'
    · obtain ⟨s, rfl⟩ : ∃ s, g = .infinity s := by
        cases g <;> simp_all [UnpackedFloat.isFinite]
      exact (compare_infinity hf hfinite).2
  · obtain ⟨s, rfl⟩ : ∃ s, f = .infinity s := by
      cases f <;> simp_all [UnpackedFloat.isFinite]
    by_cases hfinite' : g.isFinite = true
    · exact (compare_infinity hg hfinite').1
    · obtain ⟨s', rfl⟩ : ∃ s, g = .infinity s := by
        cases g <;> simp_all [UnpackedFloat.isFinite]
      have hlt : (⊥ : EReal) < ⊤ := bot_lt_top
      cases s <;> cases s' <;> rw [value]
      · rw [compare_eq_iff_eq.2 rfl]
        rfl
      · rw [value, compare_lt_iff_lt.2 hlt]
        rfl
      · rw [value, compare_gt_iff_gt.2 hlt]
        rfl
      · rw [compare_eq_iff_eq.2 rfl]
        rfl

theorem lt_iff (hf : IsCanonical f) (hg : IsCanonical g) :
    f.lt g = true ↔ f ≠ .notANumber ∧ g ≠ .notANumber ∧ value f < value g := by
  by_cases hf' : f = .notANumber
  · simp [hf', UnpackedFloat.lt, UnpackedFloat.compare]
  · by_cases hg' : g = .notANumber
    · cases f <;> simp [hg', UnpackedFloat.lt, UnpackedFloat.compare]
    · simp [UnpackedFloat.lt, compare_eq hf hg hf' hg', hf', hg', compare_lt_iff_lt]

theorem le_iff (hf : IsCanonical f) (hg : IsCanonical g) :
    f.le g = true ↔ f ≠ .notANumber ∧ g ≠ .notANumber ∧ value f ≤ value g := by
  by_cases hf' : f = .notANumber
  · simp [hf', UnpackedFloat.le, UnpackedFloat.compare]
  · by_cases hg' : g = .notANumber
    · cases f <;> simp [hg', UnpackedFloat.le, UnpackedFloat.compare]
    · simp [UnpackedFloat.le, compare_eq hf hg hf' hg', hf', hg', ← Ordering.ne_gt_iff_isLE,
        compare_le_iff_le]

end Order

section Pack

variable {s : Sign} {m : Nat} {e : Int}

theorem toNat_one_append (v : BitVec 52) : (1#1 ++ v).toNat = 2 ^ 52 + v.toNat := by
  rw [BitVec.toNat_append]
  exact (Nat.shiftLeft_add_eq_or_of_lt v.isLt 1).symm

theorem isCanonical_unpack (b : BitVec Format.binary64.numBits) :
    IsCanonical (UnpackedFloat.unpack Format.binary64 b) := by
  have hunit : unitExponent = -1074 := rfl
  have hlargest : largestExponent = 971 := rfl
  have hbias : Format.binary64.exponentBias = 1023 := rfl
  have hmantissa : (unpackMantissa b).toNat < 2 ^ 52 := (unpackMantissa b).isLt
  have hexponent : (unpackExponent b).toNat < 2 ^ 11 := (unpackExponent b).isLt
  simp only [UnpackedFloat.unpack]
  split
  · split <;> trivial
  · next hinf =>
    have hinf' : (unpackExponent b).toNat ≠ 2047 := fun h => hinf (BitVec.eq_of_toNat_eq h)
    split
    · next hzero =>
      split
      · trivial
      · next hm =>
        have hpos : 0 < (unpackMantissa b).toNat :=
          Nat.pos_of_ne_zero fun h => hm (BitVec.eq_of_toNat_eq h)
        have hexp : (unpackExponent b).toNat = 0 := by simp [hzero]
        simp only [IsCanonical, hexp, hbias]
        exact ⟨⟨hpos, by omega, by omega, by omega⟩, by omega⟩
    · next hzero =>
      have hzero' : (unpackExponent b).toNat ≠ 0 := fun h => hzero (BitVec.eq_of_toNat_eq h)
      have hnat := toNat_one_append (unpackMantissa b)
      simp only [IsCanonical, hbias]
      exact ⟨⟨by omega, by omega, by omega, by omega⟩, by omega⟩

@[simp] theorem unpackSign_packComponents {spec : Format} {e m} :
    unpackSign (packComponents spec s e m) = s.toBitVec := by
  ext i hi
  obtain rfl : i = 0 := by omega
  have hmantissa : ¬ spec.mantissaBitsWithoutImplicit + spec.exponentBits <
      spec.mantissaBitsWithoutImplicit := by omega
  have hexponent : spec.mantissaBitsWithoutImplicit + spec.exponentBits -
      spec.mantissaBitsWithoutImplicit = spec.exponentBits := by omega
  simp [unpackSign, packComponents, BitVec.getLsbD_append, BitVec.getElem_append, hmantissa,
    hexponent]

@[simp] theorem ofBitVec_toBitVec (s : Sign) : Sign.ofBitVec s.toBitVec = s := by
  cases s <;> rfl

/-- A mantissa with all its bits is packed without the first one. -/
theorem unpack_packComponents_normal {exponent : BitVec 11} {mantissa : BitVec 52} (hm : 0 < m)
    (hinf : exponent.toNat ≠ 2047) (hzero : exponent.toNat ≠ 0)
    (hmantissa : m = 2 ^ 52 + mantissa.toNat) (he : e = exponent.toNat - 1075) :
    UnpackedFloat.unpack Format.binary64 (packComponents Format.binary64 s exponent mantissa) =
      .finite s m e hm := by
  have hbias : Format.binary64.exponentBias = 1023 := rfl
  simp only [UnpackedFloat.unpack, unpackExponent_packComponents, unpackMantissa_packComponents,
    unpackSign_packComponents]
  rw [if_neg (fun h => hinf (by rw [h]; rfl)), if_neg (fun h => hzero (by rw [h]; rfl))]
  rw [UnpackedFloat.finite.injEq]
  exact ⟨ofBitVec_toBitVec s, (toNat_one_append mantissa).trans hmantissa.symm, by omega⟩

/-- A mantissa with fewer bits is packed with the exponent zero. -/
theorem unpack_packComponents_subnormal {mantissa : BitVec 52} (hm : 0 < m)
    (hmantissa : m = mantissa.toNat) (he : e = unitExponent) :
    UnpackedFloat.unpack Format.binary64 (packComponents Format.binary64 s 0#11 mantissa) =
      .finite s m e hm := by
  have hbias : Format.binary64.exponentBias = 1023 := rfl
  have hunit : unitExponent = -1074 := rfl
  simp only [UnpackedFloat.unpack, unpackExponent_packComponents, unpackMantissa_packComponents,
    unpackSign_packComponents]
  rw [if_neg (by decide), if_pos trivial, dif_neg (fun h => by simp [h] at hmantissa; omega)]
  rw [UnpackedFloat.finite.injEq]
  exact ⟨ofBitVec_toBitVec s, hmantissa.symm, by simp; omega⟩

theorem unpack_pack {f : UnpackedFloat} (hf : IsCanonical f) :
    UnpackedFloat.unpack Format.binary64 (UnpackedFloat.pack Format.binary64 f) = f := by
  cases f with
  | notANumber => rfl
  | infinity s => cases s <;> rfl
  | zero s => cases s <;> rfl
  | finite s m e hm =>
    obtain ⟨⟨-, hlt, hlow, hfull⟩, hhigh⟩ := hf
    have hunit : unitExponent = -1074 := rfl
    have hlargest : largestExponent = 971 := rfl
    have hbits : Format.binary64.mantissaBits = 53 := rfl
    have hbiased : (e + Format.binary64.exponentBias + (52 : Nat)).toNat = (e + 1075).toNat := by
      have hbias : Format.binary64.exponentBias = 1023 := rfl
      omega
    simp only [UnpackedFloat.pack, hbiased, hbits]
    rw [if_neg (by omega)]
    by_cases hm' : 2 ^ 52 ≤ m
    · have hlog : m.log2 = 52 := (Nat.log2_eq_iff hm.ne').2 ⟨hm', hlt⟩
      rw [if_pos (by omega)]
      refine unpack_packComponents_normal hm ?_ ?_ ?_ ?_
      all_goals simp only [BitVec.toNat_ofNat]
      all_goals omega
    · have hlog : m.log2 < 52 := (Nat.log2_lt hm.ne').2 (by omega)
      rw [if_neg (by omega)]
      refine unpack_packComponents_subnormal hm ?_ (by omega)
      simp only [BitVec.toNat_ofNat]
      omega

/-- A double whose exponent is too large becomes infinite. -/
theorem unpack_pack_of_large {hm : 0 < m} (he : largestExponent < e) :
    UnpackedFloat.unpack Format.binary64
      (UnpackedFloat.pack Format.binary64 (.finite s m e hm)) = .infinity s := by
  have hlargest : largestExponent = 971 := rfl
  have hbiased : (e + Format.binary64.exponentBias + (52 : Nat)).toNat = (e + 1075).toNat := by
    have hbias : Format.binary64.exponentBias = 1023 := rfl
    omega
  simp only [UnpackedFloat.pack, hbiased]
  rw [if_pos (by omega)]
  cases s <;> rfl

/-- Whether a double has the given sign. -/
def HasSign (s : Sign) : UnpackedFloat → Prop
  | .infinity s' | .zero s' | .finite s' _ _ _ => s' = s
  | .notANumber => False

theorem hasSign_unpack_packComponents {exponent : BitVec 11} {mantissa : BitVec 52}
    (hinf : exponent.toNat ≠ 2047) :
    HasSign s (UnpackedFloat.unpack Format.binary64
      (packComponents Format.binary64 s exponent mantissa)) := by
  simp only [UnpackedFloat.unpack, unpackExponent_packComponents, unpackMantissa_packComponents,
    unpackSign_packComponents, ofBitVec_toBitVec]
  rw [if_neg (fun h => hinf (by rw [h]; rfl))]
  split
  · split <;> rfl
  · rfl

/-- Whatever becomes of a number when it is packed, it keeps its sign. -/
theorem hasSign_unpack_pack {f : UnpackedFloat} (hf : HasSign s f) :
    HasSign s (UnpackedFloat.unpack Format.binary64 (UnpackedFloat.pack Format.binary64 f)) := by
  cases f with
  | notANumber => cases hf
  | infinity s' => rwa [unpack_pack (f := .infinity s') trivial]
  | zero s' => rwa [unpack_pack (f := .zero s') trivial]
  | finite s' m e hm =>
    obtain rfl : s' = s := hf
    simp only [UnpackedFloat.pack]
    split
    · cases s' <;> rfl
    · next hbiased =>
      split
      · refine hasSign_unpack_packComponents ?_
        simp only [BitVec.toNat_ofNat]
        omega
      · exact hasSign_unpack_packComponents (by decide)

end Pack

end Binary64

end TrajOpt
