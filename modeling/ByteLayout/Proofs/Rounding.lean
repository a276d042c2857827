import ByteLayout.Proofs.Float
import ByteLayout.Proofs.Worth
import Mathlib.Algebra.Order.Field.Basic
import Mathlib.Data.Nat.Dist

/-!
# Rounding to nearest

A magnitude is **nearest** to a number if none is worth a number that is nearer, and of two that are
as near it is the even one (`FloatFormat.IsNearest`). Infinity takes part with the power of two that
follows the greatest finite value, and hence is nearest to all that is too large.

**Theorem (`FloatFormat.isNearest_nearest`).** The library rounds to the nearest magnitude.
**Theorem (`FloatFormat.IsNearest.unique`).** There is no other one.

The quotient is rounded to a whole multiple of the spacing around it. Magnitudes with that spacing
or a wider one are multiples too. Those with a narrower spacing lie below the first normal value
that has the spacing, and the quotient does not, so that this value is nearer than they are.
-/

namespace ByteLayout

namespace FloatFormat

variable {format : FloatFormat}

/-! ## The order of the values -/

/-- Neighbours are as far apart as the spacing at the lower one. -/
theorem units_succ (m : Nat) :
    format.units (m + 1) = format.units m + Nat.pow 2 (format.shift m) := by
  have hlow : format.shift m = 0 ∨ Nat.pow 2 format.fractionBits ≤ format.significand m := by
    by_cases h : 1 ≤ m / Nat.pow 2 format.fractionBits
    · exact .inr (significand_bounds h).1
    · exact .inl (shift_of_lt (Nat.le_of_not_le h)).1
  calc format.units (m + 1)
      = format.units (format.shift m * Nat.pow 2 format.fractionBits +
          (format.significand m + 1)) := by rw [← Nat.add_assoc, shift_add_significand]
    _ = (format.significand m + 1) * Nat.pow 2 (format.shift m) :=
        units_add (hlow.imp_right Nat.le_succ_of_le) (significand_lt m)
    _ = format.units m + Nat.pow 2 (format.shift m) := Nat.succ_mul _ _

/-- Greater magnitudes have more units. -/
theorem units_strictMono : StrictMono format.units :=
  strictMono_nat_of_lt_succ fun m => by
    rw [units_succ]
    exact Nat.lt_add_of_pos_right (Nat.two_pow_pos _)

/-- Greater magnitudes are worth more. -/
theorem worth_strictMono (hformat : 1 < format.exponentBits) : StrictMono format.worth := by
  intro a b h
  rw [worth_eq hformat, worth_eq hformat]
  exact div_lt_div_of_pos_right (Nat.cast_lt.mpr (units_strictMono h)) (by positivity)

theorem worth_nonneg (hformat : 1 < format.exponentBits) (m : Nat) : 0 ≤ format.worth m := by
  rw [worth_eq hformat]
  positivity

/-- A value is a multiple of a spacing, or less than the first normal value with that spacing. -/
theorem units_multiple_or_lt (m e : Nat) :
    (∃ q, format.units m = q * Nat.pow 2 e) ∨
      0 < e ∧ format.units m < Nat.pow 2 format.fractionBits * Nat.pow 2 e := by
  by_cases h : e ≤ format.shift m
  · left
    obtain ⟨more, hmore⟩ := Nat.exists_eq_add_of_le h
    refine ⟨format.significand m * Nat.pow 2 more, ?_⟩
    unfold units
    rw [hmore, Nat.add_comm e, Nat.mul_assoc]
    exact congrArg _ (Nat.pow_add 2 more e)
  · right
    have hless := Nat.lt_of_not_le h
    have hpow : 2 * Nat.pow 2 (format.shift m) ≤ Nat.pow 2 e := by
      rw [Nat.mul_comm]
      exact Nat.pow_le_pow_right Nat.two_pos hless
    refine ⟨Nat.zero_lt_of_lt hless, ?_⟩
    calc format.units m
        < 2 * Nat.pow 2 format.fractionBits * Nat.pow 2 (format.shift m) :=
          Nat.mul_lt_mul_of_pos_right (significand_lt m) (Nat.two_pow_pos _)
      _ = Nat.pow 2 format.fractionBits * (2 * Nat.pow 2 (format.shift m)) := by ring
      _ ≤ Nat.pow 2 format.fractionBits * Nat.pow 2 e := Nat.mul_le_mul_left _ hpow

/-! ## The nearest magnitude -/

/-- The rounded quotient is the nearest integer, and it is even if another one is as near. -/
theorem roundHalfEven_nearest (num k : Nat) {den : Nat} (hden : 0 < den) :
    Nat.dist (roundHalfEven num den * den) num ≤ Nat.dist (k * den) num ∧
      (k ≠ roundHalfEven num den →
        Nat.dist (roundHalfEven num den * den) num = Nat.dist (k * den) num →
        roundHalfEven num den % 2 = 0) := by
  have hmod := Nat.mod_lt num hden
  have hnum : num = num / den * den + num % den := (Nat.div_add_mod' num den).symm
  have hstep : (num / den + 1) * den = num / den * den + den := Nat.succ_mul _ _
  -- the integers around the quotient, and those beyond them
  have hother : k * den + den ≤ num / den * den ∨ k = num / den ∨ k = num / den + 1 ∨
      (num / den + 1) * den + den ≤ k * den := by
    rcases Nat.lt_trichotomy k (num / den) with hless | heq | hgreat
    · exact .inl ((Nat.succ_mul _ _).symm.trans_le (Nat.mul_le_mul_right den hless))
    · exact .inr (.inl heq)
    · rcases Nat.lt_or_eq_of_le (Nat.succ_le_of_lt hgreat) with hfar | heq
      · exact .inr (.inr (.inr ((Nat.succ_mul _ _).symm.trans_le (Nat.mul_le_mul_right den hfar))))
      · exact .inr (.inr (.inl heq.symm))
  unfold roundHalfEven Nat.dist
  dsimp only
  generalize num / den = quotient at *
  generalize num % den = rest at *
  rcases hother with hother | rfl | rfl | hother <;> split <;> omega

/-- The other magnitude is not nearer to `num / den` units than this one, and as near only if this
one is even. -/
structure Prefers (format : FloatFormat) (num den magnitude other : Nat) : Prop where
  le : Nat.dist (format.units magnitude * den) num ≤ Nat.dist (format.units other * den) num
  even : other ≠ magnitude →
    Nat.dist (format.units magnitude * den) num = Nat.dist (format.units other * den) num →
    magnitude % 2 = 0

theorem Prefers.of_lt {num den m other : Nat}
    (h : Nat.dist (format.units m * den) num < Nat.dist (format.units other * den) num) :
    format.Prefers num den m other :=
  ⟨h.le, fun _ htie => absurd htie h.ne⟩

/-- If no magnitude was too large, rounding would find the nearest of all. -/
theorem exists_prefers (hfraction : 0 < format.fractionBits) (num : Nat) {den : Nat}
    (hden : 0 < den) :
    ∃ m, format.nearest num den = min format.infinity m ∧
      ∀ other, format.Prefers num den m other := by
  obtain ⟨hhigh, hlow⟩ := format.quotient_bounds num den
  generalize he : (num / den).log2 - format.fractionBits = e at hhigh hlow
  have hpos : 0 < den * Nat.pow 2 e := Nat.mul_pos hden (Nat.two_pow_pos e)
  have hbounds := roundHalfEven_bounds num (den * Nat.pow 2 e)
  have hnearest := fun k => roundHalfEven_nearest num k hpos
  have hquotient := Nat.div_mul_le_self num (den * Nat.pow 2 e)
  have hresult : format.nearest num den = min format.infinity
      (e * Nat.pow 2 format.fractionBits + roundHalfEven num (den * Nat.pow 2 e)) := by
    rw [← he]
    rfl
  generalize roundHalfEven num (den * Nat.pow 2 e) = rounded at hbounds hnearest hresult
  have hunits : format.units (e * Nat.pow 2 format.fractionBits + rounded) =
      rounded * Nat.pow 2 e :=
    units_add (e.eq_zero_or_pos.imp_right fun he => (hlow he).trans hbounds.1) (by omega)
  have hscale (q : Nat) : q * Nat.pow 2 e * den = q * (den * Nat.pow 2 e) := by ring
  have hdistance : format.units (e * Nat.pow 2 format.fractionBits + rounded) * den =
      rounded * (den * Nat.pow 2 e) := by rw [hunits, hscale]
  refine ⟨_, hresult, fun other => ?_⟩
  rcases format.units_multiple_or_lt other e with ⟨q, hq⟩ | ⟨he, hless⟩
  · obtain ⟨hle, heven⟩ := hnearest q
    rw [← hdistance, ← hscale, ← hq] at hle heven
    refine ⟨hle, fun hother htie => ?_⟩
    have hne : q ≠ rounded := by
      rintro rfl
      exact hother (units_strictMono.injective (hq.trans hunits.symm))
    obtain ⟨half, hhalf⟩ : 2 ∣ Nat.pow 2 format.fractionBits := dvd_pow_self 2 hfraction.ne'
    rw [hhalf, Nat.mul_left_comm, Nat.mul_add_mod]
    exact heven hne htie
  · -- the first normal value with the spacing lies between the other one and the quotient
    have hfirst : Nat.pow 2 format.fractionBits * (den * Nat.pow 2 e) ≤ num :=
      (Nat.mul_le_mul_right _ (hlow he)).trans hquotient
    have hother : format.units other * den <
        Nat.pow 2 format.fractionBits * (den * Nat.pow 2 e) := by
      rw [← hscale]
      exact Nat.mul_lt_mul_of_pos_right hless hden
    have hle := (hnearest (Nat.pow 2 format.fractionBits)).1
    refine Prefers.of_lt ?_
    rw [Nat.dist_eq_sub_of_le hfirst] at hle
    rw [hdistance, Nat.dist_eq_sub_of_le (hother.le.trans hfirst)]
    omega

/-- A magnitude is nearest to a number that is not negative if no other one is nearer, and it is
even if another one is as near. The magnitude of infinity is taken for the number that its fields
would be worth, the power of two after the greatest finite value. -/
structure IsNearest (format : FloatFormat) (x : ℚ) (magnitude : Nat) : Prop where
  le_infinity : magnitude ≤ format.infinity
  nearest : ∀ other ≤ format.infinity, |format.worth magnitude - x| ≤ |format.worth other - x|
  even : ∀ other ≤ format.infinity, other ≠ magnitude →
    |format.worth magnitude - x| = |format.worth other - x| → magnitude % 2 = 0

theorem cast_dist (a b : Nat) : (Nat.dist a b : ℚ) = |(a : ℚ) - b| := by
  rcases Nat.le_total a b with h | h
  · rw [Nat.dist_eq_sub_of_le h, abs_sub_comm, Nat.cast_sub h,
      abs_of_nonneg (sub_nonneg.mpr (Nat.cast_le.mpr h))]
  · rw [Nat.dist_eq_sub_of_le_right h, Nat.cast_sub h,
      abs_of_nonneg (sub_nonneg.mpr (Nat.cast_le.mpr h))]

/-- How far a magnitude is from a quotient of units. -/
theorem abs_worth_sub (hexponent : 1 < format.exponentBits) (num m : Nat) {den : Nat}
    (hden : 0 < den) :
    |format.worth m - num / (den * 2 ^ format.unitExponent)| =
      Nat.dist (format.units m * den) num / (den * 2 ^ format.unitExponent) := by
  have hcast : (0 : ℚ) < den := Nat.cast_pos.mpr hden
  have hone : (0 : ℚ) < 2 ^ format.unitExponent := by positivity
  have hdiff : format.worth m - num / (den * 2 ^ format.unitExponent) =
      ((format.units m * den : Nat) - (num : ℚ)) / (den * 2 ^ format.unitExponent) := by
    rw [worth_eq hexponent, Nat.cast_mul]
    field_simp
  rw [hdiff, abs_div, abs_of_pos (mul_pos hcast hone), cast_dist]

/-- It is enough to compare the numerators of the distances. -/
theorem isNearest_of_prefers (hexponent : 1 < format.exponentBits) {num den m : Nat}
    (hden : 0 < den) (hm : m ≤ format.infinity)
    (hprefers : ∀ other ≤ format.infinity, format.Prefers num den m other) :
    format.IsNearest (num / (den * 2 ^ format.unitExponent)) m := by
  have hscale : (0 : ℚ) < den * 2 ^ format.unitExponent :=
    mul_pos (Nat.cast_pos.mpr hden) (by positivity)
  refine ⟨hm, fun other hother => ?_, fun other hother hne htie => ?_⟩
  · rw [abs_worth_sub hexponent _ _ hden, abs_worth_sub hexponent _ _ hden,
      div_le_div_iff_of_pos_right hscale, Nat.cast_le]
    exact (hprefers other hother).le
  · rw [abs_worth_sub hexponent _ _ hden, abs_worth_sub hexponent _ _ hden,
      div_left_inj' hscale.ne', Nat.cast_inj] at htie
    exact (hprefers other hother).even hne htie

/-- **Rounding finds the nearest magnitude**, the even one of two. -/
theorem isNearest_nearest (hexponent : 1 < format.exponentBits)
    (hfraction : 0 < format.fractionBits) (num : Nat) {den : Nat} (hden : 0 < den) :
    format.IsNearest (num / (den * 2 ^ format.unitExponent)) (format.nearest num den) := by
  obtain ⟨m, hm, hprefers⟩ := exists_prefers hfraction num hden
  rw [hm]
  rcases Nat.lt_or_ge format.infinity m with hgreat | hle
  · -- the quotient lies above infinity, which hence is the nearest of what is left
    rw [Nat.min_eq_left hgreat.le]
    have hbelow {a b : Nat} (h : a < b) : format.units a * den < format.units b * den :=
      Nat.mul_lt_mul_of_pos_right (units_strictMono h) hden
    have hcloser := (hprefers format.infinity).le
    have hinfinity := hbelow hgreat
    refine isNearest_of_prefers hexponent hden (Nat.le_refl _) fun other hother => ?_
    rcases Nat.lt_or_eq_of_le hother with hless | rfl
    · have hother := hbelow hless
      refine Prefers.of_lt ?_
      unfold Nat.dist at hcloser ⊢
      omega
    · exact ⟨Nat.le_refl _, fun hne => absurd rfl hne⟩
  · rw [Nat.min_eq_right hle]
    exact isNearest_of_prefers hexponent hden hle fun other _ => hprefers other

/-- **No other magnitude is nearest.** -/
theorem IsNearest.unique (hexponent : 1 < format.exponentBits) {x : ℚ} {a b : Nat}
    (ha : format.IsNearest x a) (hb : format.IsNearest x b) : a = b := by
  wlog hle : a ≤ b generalizing a b
  · exact (this hb ha (Nat.le_of_not_le hle)).symm
  by_contra hne
  have htie := le_antisymm (ha.nearest b hb.le_infinity) (hb.nearest a ha.le_infinity)
  have haeven := ha.even b hb.le_infinity (Ne.symm hne) htie
  have hbeven := hb.even a ha.le_infinity hne htie.symm
  -- both are even, so there is a magnitude between them, and it is nearer
  have hbetween : a + 1 < b := by omega
  have hnext := ha.nearest (a + 1) (hbetween.le.trans hb.le_infinity)
  have hlow := worth_strictMono hexponent (Nat.lt_succ_self a)
  have hhigh := worth_strictMono hexponent hbetween
  rcases abs_eq_abs.mp htie with hsame | hmiddle
  · linarith
  · have hcloser : |format.worth (a + 1) - x| < x - format.worth a :=
      abs_lt.mpr ⟨by linarith, by linarith⟩
    have hfar := neg_le_abs (format.worth a - x)
    linarith

end FloatFormat

/-! ## Doubles -/

namespace Finite

variable {format : FloatFormat}

theorem abs_toRat (hexponent : 1 < format.exponentBits) (x : Finite format) :
    |x.toRat| = format.worth x.magnitude := by
  unfold toRat
  split
  · rw [abs_neg, abs_of_nonneg (FloatFormat.worth_nonneg hexponent _)]
  · exact abs_of_nonneg (FloatFormat.worth_nonneg hexponent _)

/-- **An integer is rounded to nearest**, and its sign is kept. -/
theorem isNearest_ofInt? (hexponent : 1 < format.exponentBits)
    (hfraction : 0 < format.fractionBits) {n : Int} {x : Finite format}
    (h : ofInt? format n = some x) :
    format.IsNearest |(n : ℚ)| x.magnitude ∧ x.negative = decide (n < 0) := by
  have hpow : ((Nat.pow 2 format.unitExponent : Nat) : ℚ) = 2 ^ format.unitExponent :=
    Nat.cast_pow 2 _
  have hworth : |(n : ℚ)| = (n.natAbs * Nat.pow 2 format.unitExponent : Nat) /
      ((1 : Nat) * 2 ^ format.unitExponent) := by
    rw [Nat.cast_mul, hpow, Nat.cast_one, one_mul, mul_div_cancel_right₀ _ (by positivity),
      Nat.cast_natAbs, Int.cast_abs]
  have hnearest := FloatFormat.isNearest_nearest hexponent hfraction
    (n.natAbs * Nat.pow 2 format.unitExponent) Nat.one_pos
  rw [← hworth] at hnearest
  unfold ofInt? at h
  dsimp only at h
  split at h
  · cases h
    exact ⟨hnearest, rfl⟩
  · cases h

end Finite

namespace FloatKind

variable {kind : FloatKind}

theorem one_lt_exponentBits (kind : FloatKind) : 1 < kind.format.exponentBits := by
  cases kind <;> decide

theorem fractionBits_pos (kind : FloatKind) : 0 < kind.format.fractionBits := by
  cases kind <;> decide

/-- What a double is worth, as a quotient of units of a kind. -/
theorem abs_toRat_eq (kind : FloatKind) (x : Double) :
    |x.toRat| = x.units /
      ((Nat.pow 2 (FloatFormat.binary64.unitExponent - kind.format.unitExponent) : Nat) *
        2 ^ kind.format.unitExponent) := by
  have hpow (e : Nat) : ((Nat.pow 2 e : Nat) : ℚ) = 2 ^ e := Nat.cast_pow 2 e
  rw [Finite.abs_toRat (by decide), FloatFormat.worth_eq (by decide), hpow, ← pow_add,
    Nat.sub_add_cancel kind.narrow_format.unitExponent]
  rfl

/-- **A double is narrowed to the nearest magnitude of a kind.** -/
theorem isNearest_iff {x : Double} {m : Nat} :
    kind.format.IsNearest |x.toRat| m ↔ x.nearestIn kind.format = m := by
  have hnearest := FloatFormat.isNearest_nearest kind.one_lt_exponentBits kind.fractionBits_pos
    x.units (Nat.two_pow_pos (FloatFormat.binary64.unitExponent - kind.format.unitExponent))
  rw [abs_toRat_eq kind, Finite.nearestIn_narrow kind.narrow_format]
  exact ⟨hnearest.unique kind.one_lt_exponentBits, fun h => h ▸ hnearest⟩

/-- **A number is given the nearest double**, on the same side of zero. -/
theorem isNearest_toDouble {number : Number} {x : Double} (h : toDouble number = .ok x) :
    FloatFormat.binary64.IsNearest |number.toRat| x.magnitude ∧ 0 ≤ number.toRat * x.toRat := by
  cases number with
  | float y =>
    cases h
    have hunits : Finite.doubleUnits x = x.units := by
      unfold Finite.doubleUnits
      exact Nat.mul_one x.units
    exact ⟨isNearest_iff.mpr (@nearestIn_of_represents .f64 x x hunits), mul_self_nonneg _⟩
  | int n =>
    have hx : Finite.ofInt? .binary64 n = some x := by
      unfold toDouble at h
      dsimp only at h
      generalize Finite.ofInt? .binary64 n = result at h ⊢
      cases result with
      | none => cases h
      | some y =>
        cases h
        rfl
    obtain ⟨hnearest, hsign⟩ := Finite.isNearest_ofInt? (by decide) (by decide) hx
    have hworth : 0 ≤ FloatFormat.binary64.worth x.magnitude :=
      FloatFormat.worth_nonneg (by decide) _
    refine ⟨hnearest, ?_⟩
    unfold Number.toRat Finite.toRat
    rw [hsign]
    by_cases hn : n < 0
    · rw [if_pos (decide_eq_true hn)]
      exact mul_nonneg_of_nonpos_of_nonpos (Int.cast_nonpos.mpr hn.le) (neg_nonpos.mpr hworth)
    · rw [if_neg (by simpa using hn)]
      exact mul_nonneg (Int.cast_nonneg (Int.not_lt.mp hn)) hworth

end FloatKind

end ByteLayout
