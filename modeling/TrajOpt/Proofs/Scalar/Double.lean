import TrajOpt.Proofs.Scalar.Laws
import TrajOpt.Proofs.Scalar.Rounding

/-!
# Doubles are lawful

The doubles keep the laws of scalars. Differences of finite doubles are whole numbers of units,
which are rounded; all other cases are about infinite numbers and about what is not a number.

## Main statements

* `Binary64.sub_side` - a difference is rounded to the right side of every double.
* The instance `LawfulScalar Float`.
-/

namespace TrajOpt

namespace Binary64

open Float.Model Float.Model.UnpackedFloat

section Signed

/-- The number `w` is on the same side of every double as `d`, or equal to it. -/
def IsRoundedInt (d w : Int) : Prop :=
  ∀ c : Int, IsDouble c.natAbs → (c ≤ d → c ≤ w) ∧ (d ≤ c → w ≤ c)

theorem isRoundedInt_refl (d : Int) : IsRoundedInt d d := fun _ _ => ⟨id, id⟩

/-- Rounding does not depend on the sign. -/
theorem IsRounded.signed {u w : Nat} (h : IsRounded u w) (s : Sign) :
    IsRoundedInt (s.apply u) (s.apply w) := by
  intro c hc
  obtain ⟨hlow, hhigh⟩ := h c.natAbs hc
  cases s with
  | negative =>
    simp only [Sign.apply]
    omega
  | positive =>
    simp only [Sign.apply]
    omega

end Signed

section Packed

variable {f g h : UnpackedFloat}

/-- What becomes of a double when it is packed. -/
def packed (f : UnpackedFloat) : UnpackedFloat :=
  UnpackedFloat.unpack Format.binary64 (UnpackedFloat.pack Format.binary64 f)

theorem isCanonical_packed (f : UnpackedFloat) : IsCanonical (packed f) := isCanonical_unpack _

theorem packed_infinity (s : Sign) : packed (.infinity s) = .infinity s :=
  unpack_pack (f := .infinity s) trivial

theorem packed_zero (s : Sign) : packed (.zero s) = .zero s :=
  unpack_pack (f := .zero s) trivial

theorem packed_notANumber : packed .notANumber = .notANumber := rfl

/-- A double with a mantissa of 53 bits and any exponent. -/
def IsNormalized : UnpackedFloat → Prop
  | .finite _ m e _ => IsNormal m e
  | _ => True

theorem natAbs_signedUnits {s : Sign} {m : Nat} {e : Int} {hm : 0 < m} :
    (signedUnits (.finite s m e hm)).natAbs = units m e := by
  cases s <;> simp [signedUnits, Sign.apply]

theorem isDouble_signedUnits (hf : IsCanonical f) : IsDouble (signedUnits f).natAbs := by
  cases f with
  | finite s m e hm =>
    rw [natAbs_signedUnits]
    exact isDouble_units hf.1
  | zero s => exact ⟨0, 0, by omega, rfl⟩
  | infinity s => exact ⟨0, 0, by omega, rfl⟩
  | notANumber => exact ⟨0, 0, by omega, rfl⟩

/-- A mantissa with too large an exponent is beyond all doubles. -/
theorem signedUnits_lt_of_large {m : Nat} {e : Int} (hm : IsNormal m e) (he : largestExponent < e)
    (hh : IsCanonical h) : (signedUnits h).natAbs < units m e := by
  cases h with
  | finite s' m' e' hm' =>
    rw [natAbs_signedUnits]
    exact units_lt_of_exponent_lt hh.1 hm (lt_of_le_of_lt hh.2 he)
  | zero s => exact units_pos hm.pos
  | infinity s => exact units_pos hm.pos
  | notANumber => exact units_pos hm.pos

/-- A finite number that is packed stays as it is, or becomes infinite. -/
theorem packed_cases (hf : IsNormalized f) (hf' : f.isFinite = true) :
    IsCanonical f ∧ packed f = f ∨
      ∃ s m e hm, f = .finite s m e hm ∧ IsNormal m e ∧ largestExponent < e ∧
        packed f = .infinity s := by
  by_cases hcanonical : IsCanonical f
  · exact .inl ⟨hcanonical, unpack_pack hcanonical⟩
  · cases f with
    | notANumber => cases hf'
    | infinity s => cases hf'
    | zero s => exact absurd trivial hcanonical
    | finite s m e hm =>
      have he : largestExponent < e := not_le.1 fun he => hcanonical ⟨hf, he⟩
      exact .inr ⟨s, m, e, hm, rfl, hf, he, unpack_pack_of_large he⟩

/-- A finite number that is packed is on the right side of every double, also if it becomes
infinite. -/
theorem packed_side (hf : IsNormalized f) (hf' : f.isFinite = true) (hh : IsCanonical h)
    (hh' : h.isFinite = true) :
    (value h ≤ value (packed f) ↔ signedUnits h ≤ signedUnits f) ∧
      (value (packed f) ≤ value h ↔ signedUnits f ≤ signedUnits h) := by
  obtain ⟨hcanonical, hpacked⟩ | ⟨s, m, e, hm, rfl, hnormal, he, hpacked⟩ := packed_cases hf hf'
  · rw [hpacked, value_eq_ofUnits hh hh', value_eq_ofUnits hcanonical hf']
    exact ⟨strictMono_ofUnits.le_iff_le, strictMono_ofUnits.le_iff_le⟩
  · have hlt := signedUnits_lt_of_large hnormal he hh
    rw [hpacked]
    cases s with
    | negative =>
      have hunits : signedUnits (.finite .negative m e hm) = -(units m e : Int) := rfl
      rw [hunits]
      refine ⟨iff_of_false (fun hle => value_ne_bot hh' (le_bot_iff.1 hle)) (by omega),
        iff_of_true bot_le (by omega)⟩
    | positive =>
      have hunits : signedUnits (.finite .positive m e hm) = (units m e : Int) := rfl
      rw [hunits]
      refine ⟨iff_of_true le_top (by omega),
        iff_of_false (fun hle => value_ne_top hh' (top_le_iff.1 hle)) (by omega)⟩

end Packed

section Sub

variable {f g h : UnpackedFloat}

/-- A whole number of units is rounded to the right side of every double. -/
theorem normalize_eq {m e : Int} (he : unitExponent ≤ e) :
    IsNormalized (UnpackedFloat.normalize Format.binary64 m e .positive) ∧
      (UnpackedFloat.normalize Format.binary64 m e .positive).isFinite = true ∧
      IsRoundedInt (m * 2 ^ (e - unitExponent).toNat)
        (signedUnits (UnpackedFloat.normalize Format.binary64 m e .positive)) := by
  unfold UnpackedFloat.normalize
  rcases lt_trichotomy m 0 with hm | rfl | hm
  · rw [compare_lt_iff_lt.2 hm]
    obtain ⟨r, t, hr, hround, hnormal, hrounded⟩ :=
      round_eq (s := .negative) (m := (-m).toNat) (by omega) he
    have hunits : m * 2 ^ (e - unitExponent).toNat = Sign.negative.apply (units (-m).toNat e) := by
      have hcast : ((-m).toNat : Int) = -m := by omega
      simp [Sign.apply, units, hcast]
    rw [hunits]
    simp only [hround]
    exact ⟨hnormal, rfl, hrounded.signed .negative⟩
  · rw [compare_eq_iff_eq.2 rfl, zero_mul]
    exact ⟨trivial, rfl, isRoundedInt_refl 0⟩
  · rw [compare_gt_iff_gt.2 hm]
    obtain ⟨r, t, hr, hround, hnormal, hrounded⟩ :=
      round_eq (s := .positive) (m := m.toNat) (by omega) he
    have hunits : m * 2 ^ (e - unitExponent).toNat = Sign.positive.apply (units m.toNat e) := by
      have hcast : (m.toNat : Int) = m := by omega
      simp [Sign.apply, units, hcast]
    rw [hunits]
    simp only [hround]
    exact ⟨hnormal, rfl, hrounded.signed .positive⟩

theorem ofUnits_add (a b : Int) : ofUnits (a + b) = ofUnits a + ofUnits b := by
  rw [ofUnits, ofUnits, ofUnits, ← EReal.coe_add, ← add_mul, Int.cast_add]

/-- The units of a number that is written with a smaller exponent. -/
theorem apply_units {s : Sign} {m : Nat} {e t : Int} (ht : t ≤ e) (hunit : unitExponent ≤ t) :
    s.apply (m * 2 ^ (e - t).toNat : Nat) * 2 ^ (t - unitExponent).toNat =
      s.apply (units m e) := by
  have hunits : units m e = m * 2 ^ (e - t).toNat * 2 ^ (t - unitExponent).toNat := by
    rw [units, mul_assoc, ← pow_add]
    congr 2
    omega
  rw [hunits]
  cases s <;> simp [Sign.apply]

/-- The difference of finite doubles is the rounded difference of their units. -/
theorem sub_eq (hf : IsCanonical f) (hg : IsCanonical g) (hf' : f.isFinite = true)
    (hg' : g.isFinite = true) :
    IsNormalized (UnpackedFloat.sub Format.binary64 f g) ∧
      (UnpackedFloat.sub Format.binary64 f g).isFinite = true ∧
      IsRoundedInt (signedUnits f - signedUnits g)
        (signedUnits (UnpackedFloat.sub Format.binary64 f g)) := by
  cases f with
  | notANumber => cases hf'
  | infinity s => cases hf'
  | zero s =>
    cases g with
    | notANumber => cases hg'
    | infinity s' => cases hg'
    | zero s' =>
      simp only [UnpackedFloat.sub]
      split <;> exact ⟨trivial, rfl, isRoundedInt_refl 0⟩
    | finite s' m' e' hm' =>
      refine ⟨hg.1, rfl, ?_⟩
      have hunits : signedUnits (.zero s) - signedUnits (.finite s' m' e' hm') =
          signedUnits (.finite (-s') m' e' hm') := by
        cases s' with
        | negative => exact (Int.zero_sub _).trans (Int.neg_neg _)
        | positive => exact Int.zero_sub _
      rw [hunits]
      exact isRoundedInt_refl _
  | finite s m e hm =>
    cases g with
    | notANumber => cases hg'
    | infinity s' => cases hg'
    | zero s' =>
      refine ⟨hf.1, rfl, ?_⟩
      have hunits : signedUnits (.finite s m e hm) - signedUnits (.zero s') =
          signedUnits (.finite s m e hm) := Int.sub_zero _
      rw [hunits]
      exact isRoundedInt_refl _
    | finite s' m' e' hm' =>
      have hlow := hf.1.le_exponent
      have hlow' := hg.1.le_exponent
      have hunits := apply_units (s := s) (m := m) (min_le_left e e') (le_min hlow hlow')
      have hunits' := apply_units (s := s') (m := m') (min_le_right e e') (le_min hlow hlow')
      simp only [UnpackedFloat.sub, decreaseExponent, Nat.shiftLeft_eq, signedUnits]
      rw [← hunits, ← hunits', ← Int.sub_mul]
      exact normalize_eq (le_min hlow hlow')

/-- The difference of finite doubles is on the right side of every finite double. -/
theorem sub_side (hf : IsCanonical f) (hg : IsCanonical g) (hh : IsCanonical h)
    (hf' : f.isFinite = true) (hg' : g.isFinite = true) (hh' : h.isFinite = true) :
    (value g + value h ≤ value f →
        value h ≤ value (packed (UnpackedFloat.sub Format.binary64 f g))) ∧
      (value f ≤ value g + value h →
        value (packed (UnpackedFloat.sub Format.binary64 f g)) ≤ value h) := by
  obtain ⟨hnormalized, hfinite, hrounded⟩ := sub_eq hf hg hf' hg'
  obtain ⟨hlow, hhigh⟩ := hrounded _ (isDouble_signedUnits hh)
  obtain ⟨hlow', hhigh'⟩ := packed_side hnormalized hfinite hh hh'
  rw [value_eq_ofUnits hf hf', value_eq_ofUnits hg hg', value_eq_ofUnits hh hh', ← ofUnits_add,
    strictMono_ofUnits.le_iff_le, strictMono_ofUnits.le_iff_le]
  rw [value_eq_ofUnits hh hh'] at hlow' hhigh'
  exact ⟨fun hle => hlow'.2 (hlow (by omega)), fun hle => hhigh'.2 (hhigh (by omega))⟩

theorem sub_infinity_left (s : Sign) (g : UnpackedFloat) :
    UnpackedFloat.sub Format.binary64 (.infinity s) g = .notANumber ∨
      UnpackedFloat.sub Format.binary64 (.infinity s) g = .infinity s ∧ g ≠ .infinity s := by
  cases g with
  | notANumber => exact .inl rfl
  | infinity s' =>
    cases s <;> cases s'
    · exact .inl rfl
    · exact .inr ⟨rfl, nofun⟩
    · exact .inr ⟨rfl, nofun⟩
    · exact .inl rfl
  | zero s' => exact .inr ⟨rfl, nofun⟩
  | finite s' m e hm => exact .inr ⟨rfl, nofun⟩

theorem sub_infinity_right (s : Sign) (hf : f.isFinite = true) :
    UnpackedFloat.sub Format.binary64 f (.infinity s) = .infinity (-s) := by
  cases f with
  | notANumber => cases hf
  | infinity s => cases hf
  | zero s' => rfl
  | finite s' m e hm => rfl

theorem sub_notANumber (f : UnpackedFloat) :
    UnpackedFloat.sub Format.binary64 f .notANumber = .notANumber := by
  cases f <;> rfl

theorem notANumber_sub (f : UnpackedFloat) :
    UnpackedFloat.sub Format.binary64 .notANumber f = .notANumber := by
  cases f <;> rfl

theorem cases_of_not_isFinite (hf : ¬ f.isFinite = true) :
    f = .notANumber ∨ ∃ s, f = .infinity s := by
  cases f with
  | notANumber => exact .inl rfl
  | infinity s => exact .inr ⟨s, rfl⟩
  | zero s => exact absurd rfl hf
  | finite s m e hm => exact absurd rfl hf

theorem sub_lt (hf : IsCanonical f) (hg : IsCanonical g) (hh : IsCanonical h)
    (hlt : (packed (UnpackedFloat.sub Format.binary64 f g)).lt h = true) :
    value f < value g + value h := by
  obtain ⟨hnumber, hh', hvalue⟩ := (lt_iff (isCanonical_packed _) hh).1 hlt
  by_cases hff : f.isFinite = true
  · by_cases hgf : g.isFinite = true
    · by_cases hhf : h.isFinite = true
      · by_contra hle
        exact absurd ((sub_side hf hg hh hff hgf hhf).1 (not_lt.1 hle)) (not_le.2 hvalue)
      · obtain rfl | ⟨s, rfl⟩ := cases_of_not_isFinite hhf
        · exact absurd rfl hh'
        · cases s with
          | negative => exact absurd hvalue not_lt_bot
          | positive =>
            rw [value, EReal.add_top_of_ne_bot (value_ne_bot hgf)]
            exact (value_ne_top hff).lt_top
    · obtain rfl | ⟨s, rfl⟩ := cases_of_not_isFinite hgf
      · rw [sub_notANumber] at hnumber
        exact absurd rfl hnumber
      · rw [sub_infinity_right s hff, packed_infinity] at hvalue
        cases s with
        | negative => exact absurd hvalue not_top_lt
        | positive =>
          rw [value, EReal.top_add_of_ne_bot (ne_bot_of_gt hvalue)]
          exact (value_ne_top hff).lt_top
  · obtain rfl | ⟨s, rfl⟩ := cases_of_not_isFinite hff
    · rw [notANumber_sub] at hnumber
      exact absurd rfl hnumber
    · obtain hsub | ⟨hsub, hg'⟩ := sub_infinity_left s g
      · rw [hsub] at hnumber
        exact absurd rfl hnumber
      · rw [hsub, packed_infinity] at hvalue
        cases s with
        | negative =>
          exact EReal.bot_lt_add_iff.2 ⟨bot_lt_iff_ne_bot.2 (mt value_eq_bot.1 hg'), hvalue⟩
        | positive => exact absurd hvalue not_top_lt

theorem lt_sub (hf : IsCanonical f) (hg : IsCanonical g) (hh : IsCanonical h)
    (hlt : h.lt (packed (UnpackedFloat.sub Format.binary64 f g)) = true) :
    value g + value h < value f := by
  obtain ⟨hh', hnumber, hvalue⟩ := (lt_iff hh (isCanonical_packed _)).1 hlt
  by_cases hff : f.isFinite = true
  · by_cases hgf : g.isFinite = true
    · by_cases hhf : h.isFinite = true
      · by_contra hle
        exact absurd ((sub_side hf hg hh hff hgf hhf).2 (not_lt.1 hle)) (not_le.2 hvalue)
      · obtain rfl | ⟨s, rfl⟩ := cases_of_not_isFinite hhf
        · exact absurd rfl hh'
        · cases s with
          | negative =>
            rw [value, EReal.add_bot]
            exact (value_ne_bot hff).bot_lt
          | positive => exact absurd hvalue not_top_lt
    · obtain rfl | ⟨s, rfl⟩ := cases_of_not_isFinite hgf
      · rw [sub_notANumber] at hnumber
        exact absurd rfl hnumber
      · rw [sub_infinity_right s hff, packed_infinity] at hvalue
        cases s with
        | negative =>
          rw [value, EReal.bot_add]
          exact (value_ne_bot hff).bot_lt
        | positive => exact absurd hvalue not_lt_bot
  · obtain rfl | ⟨s, rfl⟩ := cases_of_not_isFinite hff
    · rw [notANumber_sub] at hnumber
      exact absurd rfl hnumber
    · obtain hsub | ⟨hsub, hg'⟩ := sub_infinity_left s g
      · rw [hsub] at hnumber
        exact absurd rfl hnumber
      · rw [hsub, packed_infinity] at hvalue
        cases s with
        | negative => exact absurd hvalue not_lt_bot
        | positive =>
          exact EReal.add_lt_top (mt value_eq_top.1 hg') (ne_top_of_lt hvalue)

end Sub

section Exact

variable {f g : UnpackedFloat}

theorem packed_neg (hf : IsCanonical f) : packed f.neg = f.neg := by
  refine unpack_pack ?_
  cases f <;> exact hf

theorem packed_abs (hf : IsCanonical f) : packed f.abs = f.abs := by
  refine unpack_pack ?_
  cases f <;> exact hf

theorem neg_eq_notANumber : f.neg = .notANumber ↔ f = .notANumber := by
  cases f <;> simp [UnpackedFloat.neg]

theorem abs_eq_notANumber : f.abs = .notANumber ↔ f = .notANumber := by
  cases f <;> simp [UnpackedFloat.abs]

theorem value_neg (f : UnpackedFloat) : value f.neg = -value f := by
  cases f with
  | infinity s => cases s <;> rfl
  | notANumber => exact neg_zero.symm
  | zero s => exact neg_zero.symm
  | finite s m e h =>
    have hsign : ((-s).apply m : Int) = -s.apply m := by
      cases s with
      | negative => exact (Int.neg_neg _).symm
      | positive => rfl
    have hreal : (((-s).apply m : Int) : ℝ) * 2 ^ e = -((s.apply m : Int) * 2 ^ e) := by
      rw [hsign, Int.cast_neg, neg_mul]
    rw [UnpackedFloat.neg, value, value, hreal, EReal.coe_neg]

/-- The doubles above zero are plus infinity and the finite ones of positive sign. -/
theorem pos_iff :
    0 < value f ↔ f = .infinity .positive ∨ ∃ m e hm, f = .finite .positive m e hm := by
  cases f with
  | infinity s => cases s <;> simp [value]
  | notANumber => simp [value]
  | zero s => simp [value]
  | finite s m e hm =>
    have hpos : (0 : ℝ) < m * 2 ^ e := mul_pos (Nat.cast_pos.2 hm) (zpow_pos two_pos _)
    cases s with
    | negative =>
      have hneg : ((Sign.negative.apply m : Int) : ℝ) * 2 ^ e = -(m * 2 ^ e) := by
        simp [Sign.apply]
      rw [value, hneg, EReal.coe_pos]
      simp [hpos.le]
    | positive =>
      have hsame : ((Sign.positive.apply m : Int) : ℝ) * 2 ^ e = m * 2 ^ e := by
        simp [Sign.apply]
      rw [value, hsame, EReal.coe_pos]
      simp [hpos, hm]

theorem value_abs (f : UnpackedFloat) : value f.abs = max (value f) (-value f) := by
  cases f with
  | infinity s => cases s <;> simp [UnpackedFloat.abs, value]
  | notANumber => simp [UnpackedFloat.abs, value]
  | zero s => simp [UnpackedFloat.abs, value]
  | finite s m e h =>
    have hpos : 0 < value (.finite .positive m e h) := pos_iff.2 (.inr ⟨m, e, h, rfl⟩)
    have hle : -value (.finite .positive m e h) ≤ value (.finite .positive m e h) :=
      (EReal.neg_le_zero.2 hpos.le).trans hpos.le
    have hneg : value (.finite .negative m e h) = -value (.finite .positive m e h) :=
      value_neg (.finite .positive m e h)
    cases s with
    | negative =>
      rw [hneg, neg_neg, max_eq_right hle]
      rfl
    | positive =>
      rw [max_eq_left hle]
      rfl

theorem isFinite_of_sub
    (h : (packed (UnpackedFloat.sub Format.binary64 f g)).isFinite = true) :
    f.isFinite = true ∧ g.isFinite = true := by
  by_cases hf : f.isFinite = true
  · by_cases hg : g.isFinite = true
    · exact ⟨hf, hg⟩
    · obtain rfl | ⟨s, rfl⟩ := cases_of_not_isFinite hg
      · rw [sub_notANumber] at h
        cases h
      · rw [sub_infinity_right s hf, packed_infinity] at h
        cases h
  · obtain rfl | ⟨s, rfl⟩ := cases_of_not_isFinite hf
    · rw [notANumber_sub] at h
      cases h
    · obtain hsub | ⟨hsub, -⟩ := sub_infinity_left s g
      · rw [hsub] at h
        cases h
      · rw [hsub, packed_infinity] at h
        cases h

end Exact

section Div

variable {f g h : UnpackedFloat}

theorem value_nonpos (hf : HasSign .negative f) : value f ≤ 0 := by
  rw [← not_lt, pos_iff]
  rintro (rfl | ⟨m, e, hm, rfl⟩) <;> cases hf

theorem hasSign_roundWithAccuracy (s : Sign) (m : Nat) (e : Int) (a : Accuracy) :
    HasSign s (roundWithAccuracy Format.binary64 s m e a) := by
  simp only [roundWithAccuracy]
  split <;> rfl

theorem div_notANumber (f : UnpackedFloat) :
    UnpackedFloat.div Format.binary64 f .notANumber = .notANumber := by
  cases f <;> rfl

theorem notANumber_div (f : UnpackedFloat) :
    UnpackedFloat.div Format.binary64 .notANumber f = .notANumber := by
  cases f <;> rfl

theorem pos_of_div_pos (hg : 0 < value g)
    (hdiv : 0 < value (packed (UnpackedFloat.div Format.binary64 f g))) : 0 < value f := by
  cases f with
  | notANumber =>
    rw [notANumber_div, packed_notANumber] at hdiv
    exact absurd hdiv (lt_irrefl 0)
  | infinity s =>
    cases s with
    | positive => exact pos_iff.2 (.inl rfl)
    | negative =>
      obtain rfl | ⟨m, e, hm, rfl⟩ := pos_iff.1 hg
      · exact absurd hdiv (lt_irrefl 0)
      · have hinfinity : packed (UnpackedFloat.div Format.binary64 (.infinity .negative)
            (.finite .positive m e hm)) = .infinity .negative := packed_infinity _
        rw [hinfinity] at hdiv
        exact absurd hdiv not_lt_bot
  | zero s =>
    obtain rfl | ⟨m, e, hm, rfl⟩ := pos_iff.1 hg
    · have hzero : packed (UnpackedFloat.div Format.binary64 (.zero s) (.infinity .positive)) =
          .zero (s / .positive) := packed_zero _
      rw [hzero] at hdiv
      exact absurd hdiv (lt_irrefl 0)
    · have hzero : packed (UnpackedFloat.div Format.binary64 (.zero s)
          (.finite .positive m e hm)) = .zero (s / .positive) := packed_zero _
      rw [hzero] at hdiv
      exact absurd hdiv (lt_irrefl 0)
  | finite s m e hm =>
    cases s with
    | positive => exact pos_iff.2 (.inr ⟨m, e, hm, rfl⟩)
    | negative =>
      refine absurd hdiv (not_lt.2 (value_nonpos (hasSign_unpack_pack ?_)))
      obtain rfl | ⟨m', e', hm', rfl⟩ := pos_iff.1 hg
      · rfl
      · exact hasSign_roundWithAccuracy _ _ _ _

theorem isFinite_of_div_lt (hf : 0 < value f) (hg : 0 < value g) (hh : IsCanonical h)
    (hlt : (packed (UnpackedFloat.div Format.binary64 f g)).lt h = true) : f.isFinite = true := by
  obtain ⟨hnumber, -, hvalue⟩ := (lt_iff (isCanonical_packed _) hh).1 hlt
  obtain rfl | ⟨m, e, hm, rfl⟩ := pos_iff.1 hf
  · obtain rfl | ⟨m', e', hm', rfl⟩ := pos_iff.1 hg
    · exact absurd rfl hnumber
    · have hinfinity : packed (UnpackedFloat.div Format.binary64 (.infinity .positive)
          (.finite .positive m' e' hm')) = .infinity .positive := packed_infinity _
      rw [hinfinity] at hvalue
      exact absurd hvalue not_top_lt
  · rfl

end Div

end Binary64

section Instance

open Float.Model Binary64

/-- The sign, mantissa and exponent of a double. -/
def rawDouble (a : Float) : UnpackedFloat := a.toModel.unpack

theorem isCanonical_rawDouble (a : Float) : IsCanonical (rawDouble a) := isCanonical_unpack _

theorem lt_iff_raw {a b : Float} : a < b ↔ (rawDouble a).lt (rawDouble b) = true :=
  decide_eq_true_iff

theorem le_iff_raw {a b : Float} : a ≤ b ↔ (rawDouble a).le (rawDouble b) = true :=
  decide_eq_true_iff

theorem isFinite_iff_raw {a : Float} :
    Scalar.isFinite a = true ↔ (rawDouble a).isFinite = true :=
  Iff.rfl

theorem rawDouble_sub (a b : Float) :
    rawDouble (a - b) = packed (UnpackedFloat.sub Format.binary64 (rawDouble a) (rawDouble b)) :=
  rfl

theorem rawDouble_div (a b : Float) :
    rawDouble (a / b) = packed (UnpackedFloat.div Format.binary64 (rawDouble a) (rawDouble b)) :=
  rfl

theorem rawDouble_neg (a : Float) :
    rawDouble (-a) = packed (rawDouble a).neg :=
  rfl

theorem rawDouble_abs (a : Float) :
    rawDouble (Scalar.abs a) = packed (rawDouble a).abs :=
  rfl

theorem rawDouble_zero : rawDouble (Zero.zero : Float) = .zero .positive := rfl

theorem isNumber_iff_raw {a : Float} :
    Arith.isNumber a = true ↔ rawDouble a ≠ .notANumber := by
  rw [Arith.isNumber, decide_eq_true_iff, le_iff_raw, 
    Binary64.le_iff (isCanonical_rawDouble a) (isCanonical_rawDouble a)]
  simp

theorem pos_iff_raw {a : Float} : (Zero.zero : Float) < a ↔ 0 < Binary64.value (rawDouble a) := by
  rw [lt_iff_raw, rawDouble_zero,
    Binary64.lt_iff (f := .zero .positive) trivial (isCanonical_rawDouble a)]
  have hzero : Binary64.value (.zero .positive) = 0 := rfl
  rw [hzero]
  refine ⟨fun h => h.2.2, fun h => ⟨by simp, fun hnumber => ?_, h⟩⟩
  rw [hnumber] at h
  exact lt_irrefl 0 h

theorem isFinite_iff_ne {f : UnpackedFloat} : f.isFinite = true ↔
    f ≠ .notANumber ∧ ¬f = .infinity .negative ∧ ¬f = .infinity .positive := by
  cases f with
  | infinity s => cases s <;> simp [UnpackedFloat.isFinite]
  | notANumber => simp [UnpackedFloat.isFinite]
  | zero s => simp [UnpackedFloat.isFinite]
  | finite s m e h => simp [UnpackedFloat.isFinite]

noncomputable instance : LawfulScalar Float where
  value a := Binary64.value (rawDouble a)
  lt_iff {a b} := by
    rw [isNumber_iff_raw, isNumber_iff_raw]
    exact lt_iff_raw.trans (Binary64.lt_iff (isCanonical_rawDouble a) (isCanonical_rawDouble b))
  le_iff {a b} := by
    rw [isNumber_iff_raw, isNumber_iff_raw]
    exact le_iff_raw.trans (Binary64.le_iff (isCanonical_rawDouble a) (isCanonical_rawDouble b))
  isNumber_zero := by decide +kernel
  value_zero := (congrArg Binary64.value rawDouble_zero).trans rfl
  isFinite_iff {a} := by
    rw [isFinite_iff_raw, isNumber_iff_raw, isFinite_iff_ne, ne_eq (Binary64.value _),
      ne_eq (Binary64.value _), value_eq_bot, value_eq_top]
  isNumber_neg {a} := by
    rw [Bool.eq_iff_iff, isNumber_iff_raw, isNumber_iff_raw, rawDouble_neg,
      packed_neg (isCanonical_rawDouble a), Ne, Ne, neg_eq_notANumber]
  value_neg {a} _ := by
    rw [rawDouble_neg, packed_neg (isCanonical_rawDouble a)]
    exact Binary64.value_neg _
  isNumber_abs {a} := by
    rw [Bool.eq_iff_iff, isNumber_iff_raw, isNumber_iff_raw, rawDouble_abs,
      packed_abs (isCanonical_rawDouble a), Ne, Ne, abs_eq_notANumber]
  value_abs {a} _ := by
    rw [rawDouble_abs, packed_abs (isCanonical_rawDouble a)]
    exact Binary64.value_abs _
  isNumber_of_sub {a b} h := by
    rw [isNumber_iff_raw, rawDouble_sub] at h
    rw [isNumber_iff_raw, isNumber_iff_raw]
    refine ⟨fun ha => h ?_, fun hb => h ?_⟩
    · rw [ha, notANumber_sub, packed_notANumber]
    · rw [hb, sub_notANumber, packed_notANumber]
  isFinite_of_sub {a b} h := by
    rw [isFinite_iff_raw, rawDouble_sub] at h
    exact Binary64.isFinite_of_sub h
  sub_lt {a b c} h := by
    rw [lt_iff_raw, rawDouble_sub] at h
    exact Binary64.sub_lt (isCanonical_rawDouble a) (isCanonical_rawDouble b)
      (isCanonical_rawDouble c) h
  lt_sub {a b c} h := by
    rw [lt_iff_raw, rawDouble_sub] at h
    exact Binary64.lt_sub (isCanonical_rawDouble a) (isCanonical_rawDouble b)
      (isCanonical_rawDouble c) h
  isNumber_of_div {a b} h := by
    rw [isNumber_iff_raw, rawDouble_div] at h
    rw [isNumber_iff_raw, isNumber_iff_raw]
    refine ⟨fun ha => h ?_, fun hb => h ?_⟩
    · rw [ha, notANumber_div, packed_notANumber]
    · rw [hb, div_notANumber, packed_notANumber]
  pos_of_div_pos {a b} hb hdiv := by
    have hquotient := pos_iff_raw.1 hdiv
    rw [rawDouble_div] at hquotient
    exact pos_iff_raw.2 (Binary64.pos_of_div_pos (pos_iff_raw.1 hb) hquotient)
  isFinite_of_div_lt {a b c} ha hb h := by
    rw [lt_iff_raw, rawDouble_div] at h
    exact isFinite_iff_raw.2 (Binary64.isFinite_of_div_lt (pos_iff_raw.1 ha) (pos_iff_raw.1 hb)
      (isCanonical_rawDouble c) h)

end Instance

end TrajOpt
