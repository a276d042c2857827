import ByteLayout.Scalar.Float
import Mathlib.Algebra.Order.Ring.Nat
import Mathlib.Tactic.Ring

/-!
# Floats and their bytes

A value that lies on the grid of a format is not changed by rounding to it: `nearest` undoes `units`
(`FloatFormat.nearest_units`), and conversely what rounding gives for a number that fits the
significand is worth that number (`FloatFormat.units_nearest`).

A kind **represents** a double if it has a value with the same sign that is as far from zero
(`FloatKind.Represents`). **Theorem (`FloatKind.decode_encode_iff`).** Of a double that a kind
accepts the bytes give back the double exactly if the kind represents it. Conversely, bytes that
hold a finite value are those of the double that is read from them (`FloatKind.encode_decode`).
-/

namespace ByteLayout

namespace FloatFormat

variable {format : FloatFormat}

/-! ## Rounding on the grid -/

theorem roundHalfEven_mul (q : Nat) {den : Nat} (h : 0 < den) :
    roundHalfEven (q * den) den = q := by
  unfold roundHalfEven
  rw [Nat.mul_div_cancel q h, Nat.mul_mod_left]
  exact if_pos (.inl h)

theorem roundHalfEven_bounds (num den : Nat) :
    num / den ≤ roundHalfEven num den ∧ roundHalfEven num den ≤ num / den + 1 := by
  unfold roundHalfEven
  dsimp only
  split <;> omega

/-- The spacing at a magnitude and the integer it multiplies, below the first normal value. -/
theorem shift_of_lt {m : Nat} (h : m / Nat.pow 2 format.fractionBits ≤ 1) :
    format.shift m = 0 ∧ format.significand m = m := by
  have hshift : format.shift m = 0 := Nat.sub_eq_zero_of_le h
  refine ⟨hshift, ?_⟩
  unfold significand
  rw [hshift, Nat.zero_mul, Nat.sub_zero]

/-- From the first normal value on, the significand has its hidden bit. -/
theorem significand_bounds {m : Nat} (h : 1 ≤ m / Nat.pow 2 format.fractionBits) :
    Nat.pow 2 format.fractionBits ≤ format.significand m ∧
      format.significand m < 2 * Nat.pow 2 format.fractionBits := by
  have hdiv := Nat.div_add_mod m (Nat.pow 2 format.fractionBits)
  have hpos : 0 < Nat.pow 2 format.fractionBits := Nat.two_pow_pos _
  have hmod := Nat.mod_lt m hpos
  unfold significand shift
  obtain ⟨e, he⟩ := Nat.exists_eq_add_of_le h
  rw [he] at hdiv ⊢
  rw [Nat.add_sub_cancel_left]
  generalize Nat.pow 2 format.fractionBits = one at *
  have hsplit : one * (1 + e) = one + e * one := by ring
  omega

theorem significand_lt (m : Nat) : format.significand m < 2 * Nat.pow 2 format.fractionBits := by
  by_cases h : 1 ≤ m / Nat.pow 2 format.fractionBits
  · exact (significand_bounds h).2
  · have hpos : 0 < Nat.pow 2 format.fractionBits := Nat.two_pow_pos _
    have hless := (Nat.div_lt_iff_lt_mul hpos).mp (Nat.lt_of_not_le h)
    rw [(shift_of_lt (Nat.le_of_lt (Nat.lt_of_not_le h))).2]
    omega

theorem log2_mul_pow {s : Nat} (hs : s ≠ 0) (e : Nat) :
    (s * Nat.pow 2 e).log2 = s.log2 + e := by
  refine (Nat.log2_eq_iff (Nat.mul_ne_zero hs (Nat.two_pow_pos e).ne')).mpr ⟨?_, ?_⟩
  · rw [pow_add]
    exact Nat.mul_le_mul_right _ (Nat.log2_self_le hs)
  · rw [Nat.add_right_comm, pow_add]
    exact Nat.mul_lt_mul_of_pos_right Nat.lt_log2_self (Nat.two_pow_pos e)

/-- The spacing that rounding chooses at a value of the format is the spacing there. -/
theorem log2_units (m : Nat) :
    (format.units m).log2 - format.fractionBits = format.shift m := by
  by_cases hsmall : m / Nat.pow 2 format.fractionBits ≤ 1
  · obtain ⟨hshift, hsignificand⟩ := shift_of_lt hsmall
    have hless : m < Nat.pow 2 (format.fractionBits + 1) := by
      have hlt := format.significand_lt m
      rw [hsignificand] at hlt
      exact hlt.trans_eq (Nat.mul_comm _ _)
    unfold units
    rw [hshift, hsignificand, show Nat.pow 2 0 = 1 from rfl, Nat.mul_one]
    by_cases hzero : m = 0
    · rw [hzero, Nat.log2_zero, Nat.zero_sub]
    · have hlog := (Nat.log2_lt hzero).mpr hless
      omega
  · obtain ⟨hlow, hhigh⟩ := significand_bounds (Nat.le_of_lt (Nat.lt_of_not_le hsmall))
    have hne : format.significand m ≠ 0 :=
      (Nat.lt_of_lt_of_le (Nat.two_pow_pos _) hlow).ne'
    have hlog : (format.significand m).log2 = format.fractionBits :=
      (Nat.log2_eq_iff hne).mpr ⟨hlow, by rw [pow_succ, Nat.mul_comm]; exact hhigh⟩
    unfold units
    rw [log2_mul_pow hne, hlog, Nat.add_sub_cancel_left]

theorem shift_mul_le (m : Nat) :
    format.shift m * Nat.pow 2 format.fractionBits ≤ m := by
  unfold shift
  exact (Nat.mul_le_mul_right _ (Nat.sub_le _ _)).trans (Nat.div_mul_le_self _ _)

theorem shift_add_significand (m : Nat) :
    format.shift m * Nat.pow 2 format.fractionBits + format.significand m = m :=
  Nat.add_sub_of_le (shift_mul_le m)

/-- The value of a multiple of the spacing, up to the one with which the next spacing begins. -/
theorem units_add {e q : Nat} (hlow : e = 0 ∨ Nat.pow 2 format.fractionBits ≤ q)
    (hhigh : q ≤ 2 * Nat.pow 2 format.fractionBits) :
    format.units (e * Nat.pow 2 format.fractionBits + q) = q * Nat.pow 2 e := by
  have hpos : 0 < Nat.pow 2 format.fractionBits := Nat.two_pow_pos _
  have hshift : format.shift (e * Nat.pow 2 format.fractionBits + q) =
      e + q / Nat.pow 2 format.fractionBits - 1 := by
    unfold shift
    rw [Nat.add_comm, Nat.add_mul_div_right _ _ hpos, Nat.add_comm]
  rcases Nat.lt_or_eq_of_le hhigh with hless | rfl
  · have hplace : format.shift (e * Nat.pow 2 format.fractionBits + q) = e := by
      have htwo : q / Nat.pow 2 format.fractionBits < 2 := (Nat.div_lt_iff_lt_mul hpos).mpr hless
      rcases hlow with rfl | hlow
      · omega
      · have hone := (Nat.one_le_div_iff hpos).mpr hlow
        omega
    unfold units significand
    rw [hplace, Nat.add_sub_cancel_left]
  · -- the carry into the exponent halves the significand
    rw [Nat.mul_div_cancel _ hpos] at hshift
    have hcarry : e * Nat.pow 2 format.fractionBits + 2 * Nat.pow 2 format.fractionBits =
        (e + 1) * Nat.pow 2 format.fractionBits + Nat.pow 2 format.fractionBits := by ring
    have hplace : format.shift (e * Nat.pow 2 format.fractionBits +
        2 * Nat.pow 2 format.fractionBits) = e + 1 := hshift
    unfold units significand
    rw [hplace, hcarry, Nat.add_sub_cancel_left]
    show 2 ^ format.fractionBits * 2 ^ (e + 1) = 2 * 2 ^ format.fractionBits * 2 ^ e
    ring

/-- **Rounding does not change a value of the format.** -/
theorem nearest_units {m den : Nat} (hm : m < format.infinity) (hden : 0 < den) :
    format.nearest (format.units m * den) den = m := by
  unfold nearest
  rw [Nat.mul_div_cancel _ hden, log2_units]
  have hround : roundHalfEven (format.units m * den) (den * Nat.pow 2 (format.shift m)) =
      format.significand m := by
    rw [← roundHalfEven_mul (format.significand m)
      (Nat.mul_pos hden (Nat.two_pow_pos (format.shift m)))]
    congr 1
    unfold units
    rw [Nat.mul_assoc, Nat.mul_comm den]
    rfl
  dsimp only
  rw [hround, shift_add_significand, Nat.min_eq_right (Nat.le_of_lt hm)]

theorem nearest_units_one {m : Nat} (hm : m < format.infinity) :
    format.nearest (format.units m) 1 = m := by
  have h := nearest_units hm Nat.one_pos
  rwa [Nat.mul_one] at h

/-- The spacing that rounding chooses makes a number a multiple with the bits of a significand. -/
theorem quotient_bounds (num den : Nat) :
    let e := (num / den).log2 - format.fractionBits
    num / (den * Nat.pow 2 e) < 2 * Nat.pow 2 format.fractionBits ∧
      (0 < e → Nat.pow 2 format.fractionBits ≤ num / (den * Nat.pow 2 e)) := by
  intro e
  have hpos : 0 < Nat.pow 2 e := Nat.two_pow_pos e
  rw [← Nat.div_div_eq_div_mul, Nat.div_lt_iff_lt_mul hpos, Nat.le_div_iff_mul_le hpos]
  constructor
  · calc num / den < 2 ^ ((num / den).log2 + 1) := Nat.lt_log2_self
      _ ≤ 2 ^ (format.fractionBits + 1 + e) := Nat.pow_le_pow_right Nat.two_pos (by omega)
      _ = 2 * 2 ^ format.fractionBits * 2 ^ e := by ring
  · intro he
    have hne : num / den ≠ 0 := by
      intro hzero
      have hlog : (num / den).log2 = 0 := by rw [hzero, Nat.log2_zero]
      omega
    calc 2 ^ format.fractionBits * 2 ^ e = 2 ^ (num / den).log2 := by
          rw [← pow_add]
          congr 1
          omega
      _ ≤ num / den := Nat.log2_self_le hne

/-- **A number that fits the significand is rounded to itself**, unless it is too large. -/
theorem units_nearest {n : Nat} (hexact : Nat.pow 2 (n.log2 - format.fractionBits) ∣ n)
    (hfinite : format.nearest n 1 < format.infinity) : format.units (format.nearest n 1) = n := by
  obtain ⟨q, hq⟩ := hexact
  generalize hshift : n.log2 - format.fractionBits = e at hq
  have hround : roundHalfEven n (1 * Nat.pow 2 e) = q := by
    rw [hq, Nat.one_mul, Nat.mul_comm]
    exact roundHalfEven_mul q (Nat.two_pow_pos e)
  have hnearest : format.nearest n 1 = e * Nat.pow 2 format.fractionBits + q := by
    unfold nearest at hfinite ⊢
    rw [Nat.div_one, hshift] at hfinite ⊢
    dsimp only at hfinite ⊢
    rw [hround] at hfinite ⊢
    omega
  obtain ⟨hhigh, hlow⟩ := format.quotient_bounds n 1
  rw [Nat.div_one, hshift] at hhigh hlow
  have hquotient : n / (1 * Nat.pow 2 e) = q := by
    rw [hq, Nat.one_mul]
    exact Nat.mul_div_cancel_left q (Nat.two_pow_pos e)
  rw [hquotient] at hhigh hlow
  rw [hnearest, units_add (e.eq_zero_or_pos.imp_right hlow) (Nat.le_of_lt hhigh), Nat.mul_comm,
    ← hq]

/-- How large the rounding of a number can be, by the number of its bits. -/
theorem nearest_le (n : Nat) :
    format.nearest n 1 ≤ (n.log2 - format.fractionBits + 2) * Nat.pow 2 format.fractionBits := by
  have hquotient := (format.quotient_bounds n 1).1
  rw [Nat.div_one] at hquotient
  have hround : roundHalfEven n (1 * Nat.pow 2 (n.log2 - format.fractionBits)) ≤
      2 * Nat.pow 2 format.fractionBits :=
    (roundHalfEven_bounds _ _).2.trans hquotient
  unfold nearest
  rw [Nat.div_one, Nat.add_mul]
  exact (Nat.min_le_right _ _).trans (Nat.add_le_add_left hround _)

end FloatFormat

/-! ## Represented doubles -/

/-- Whether a value of the kind has the sign of the double and lies as far from zero, the units of
both formats being made equal. -/
def FloatKind.Represents (kind : FloatKind) (x : Double) : Prop :=
  ∃ y : Finite kind.format, y.negative = x.negative ∧
    y.units * Nat.pow 2 FloatFormat.binary64.unitExponent =
      x.units * Nat.pow 2 kind.format.unitExponent

/-- What the formats of both kinds have in common with each other. -/
structure FloatFormat.Narrow (format : FloatFormat) : Prop where
  fractionBits : format.fractionBits ≤ FloatFormat.binary64.fractionBits
  unitExponent : format.unitExponent ≤ FloatFormat.binary64.unitExponent
  infinity : format.infinity < format.signBit

theorem FloatKind.narrow_format (kind : FloatKind) : kind.format.Narrow := by
  cases kind <;> exact ⟨by decide, by decide, by decide⟩

theorem FloatKind.width_le (kind : FloatKind) : kind.width ≤ 8 := by
  cases kind <;> decide

theorem FloatKind.size_eq (kind : FloatKind) :
    2 * kind.format.signBit = Nat.pow 256 kind.width := by
  cases kind <;> decide

namespace Finite

variable {format : FloatFormat}

theorem ofBits?_pattern (hformat : format.infinity < format.signBit) (negative : Bool)
    {magnitude : Nat} (h : magnitude < format.infinity) :
    ofBits? format (pattern format negative magnitude) = some ⟨negative, magnitude, h⟩ := by
  have hless : magnitude < format.signBit := h.trans hformat
  have hmod : pattern format negative magnitude % format.signBit = magnitude := by
    unfold pattern
    cases negative with
    | false => exact (congrArg (· % _) (Nat.zero_add _)).trans (Nat.mod_eq_of_lt hless)
    | true => exact (Nat.add_mod_left _ _).trans (Nat.mod_eq_of_lt hless)
  have hdiv : (pattern format negative magnitude / format.signBit % 2 == 1) = negative := by
    have hpos := Nat.zero_lt_of_lt hless
    unfold pattern
    cases negative with
    | false =>
      rw [if_neg Bool.false_ne_true, Nat.zero_add, Nat.div_eq_of_lt hless]
      rfl
    | true =>
      rw [if_pos rfl, Nat.add_div_left _ hpos, Nat.div_eq_of_lt hless]
      rfl
  unfold ofBits?
  simp only [hmod, hdiv, h, dif_pos]

theorem pattern_lt (hformat : format.infinity < format.signBit) (negative : Bool)
    {magnitude : Nat} (h : magnitude ≤ format.infinity) :
    pattern format negative magnitude < 2 * format.signBit := by
  unfold pattern
  split <;> omega

/-- The distance from zero in units of double precision. -/
def doubleUnits (y : Finite format) : Nat :=
  y.units * Nat.pow 2 (FloatFormat.binary64.unitExponent - format.unitExponent)

theorem nearestIn_binary64 (hformat : format.Narrow) (y : Finite format) :
    y.nearestIn .binary64 = FloatFormat.binary64.nearest y.doubleUnits 1 := by
  unfold nearestIn doubleUnits
  rw [Nat.sub_eq_zero_of_le hformat.unitExponent]

theorem nearestIn_narrow (hformat : format.Narrow) (x : Double) :
    x.nearestIn format = format.nearest x.units
      (Nat.pow 2 (FloatFormat.binary64.unitExponent - format.unitExponent)) := by
  unfold nearestIn
  rw [Nat.sub_eq_zero_of_le hformat.unitExponent, show Nat.pow 2 0 = 1 from rfl, Nat.mul_one]

/-- A value of a narrow format fits the significand of a double. -/
theorem pow_dvd_doubleUnits (hformat : format.Narrow) (y : Finite format) :
    Nat.pow 2 (y.doubleUnits.log2 - FloatFormat.binary64.fractionBits) ∣ y.doubleUnits := by
  have hfraction := hformat.fractionBits
  unfold doubleUnits units FloatFormat.units
  generalize FloatFormat.binary64.unitExponent - format.unitExponent = gap
  generalize FloatFormat.binary64.fractionBits = fraction at hfraction ⊢
  have hmul : format.significand y.magnitude * Nat.pow 2 (format.shift y.magnitude) *
      Nat.pow 2 gap =
      format.significand y.magnitude * Nat.pow 2 (format.shift y.magnitude + gap) := by
    rw [Nat.mul_assoc]
    exact congrArg _ (Nat.pow_add 2 _ _).symm
  rw [hmul]
  rcases Nat.eq_zero_or_pos (format.significand y.magnitude) with hzero | hpos
  · rw [hzero, Nat.zero_mul]
    exact Nat.dvd_zero _
  · have hlog : (format.significand y.magnitude).log2 ≤ format.fractionBits := by
      have hless : format.significand y.magnitude < Nat.pow 2 (format.fractionBits + 1) :=
        (FloatFormat.significand_lt y.magnitude).trans_eq (Nat.mul_comm _ _)
      exact Nat.le_of_lt_succ ((Nat.log2_lt hpos.ne').mpr hless)
    rw [FloatFormat.log2_mul_pow hpos.ne']
    exact (Nat.pow_dvd_pow 2 (by omega)).trans (Nat.dvd_mul_left _ _)

/-- Widening keeps sign and worth. -/
theorem convert?_eq_some (hformat : format.Narrow) {y : Finite format} {x : Double}
    (hnegative : y.negative = x.negative) (hunits : y.doubleUnits = x.units) :
    y.convert? .binary64 = some x := by
  have hback : y.nearestIn .binary64 = x.magnitude := by
    rw [nearestIn_binary64 hformat, hunits]
    exact FloatFormat.nearest_units_one x.isFinite
  have hless : y.nearestIn .binary64 < FloatFormat.binary64.infinity := by
    rw [hback]
    exact x.isFinite
  unfold convert?
  rw [dif_pos hless]
  obtain ⟨negative, magnitude, hfinite⟩ := x
  subst hnegative
  subst hback
  rfl

/-- What widening gives has the sign and the worth of the value. -/
theorem units_of_convert? (hformat : format.Narrow) {y : Finite format} {x : Double}
    (h : y.convert? .binary64 = some x) : y.negative = x.negative ∧ y.doubleUnits = x.units := by
  unfold convert? at h
  split at h
  · next hless =>
    cases h
    have hexact := pow_dvd_doubleUnits hformat y
    refine ⟨rfl, ?_⟩
    show y.doubleUnits = FloatFormat.binary64.units (y.nearestIn .binary64)
    rw [nearestIn_binary64 hformat] at hless ⊢
    exact (FloatFormat.units_nearest hexact hless).symm
  · cases h

/-- Singles have few bits, counted in their units or in smaller ones. -/
theorem log2_units_lt (y : Finite .binary32) (gap : Nat) :
    (y.units * Nat.pow 2 gap).log2 < 24 + 253 + gap := by
  have hsignificand : FloatFormat.binary32.significand y.magnitude < 2 ^ 24 :=
    FloatFormat.significand_lt y.magnitude
  have hshift : FloatFormat.binary32.shift y.magnitude ≤ 253 := by
    have hless : y.magnitude / 2 ^ 23 < 255 :=
      Nat.div_lt_of_lt_mul (y.isFinite.trans_eq (by decide))
    show y.magnitude / 2 ^ 23 - 1 ≤ 253
    omega
  have hless : y.units * 2 ^ gap < 2 ^ (24 + 253 + gap) := by
    have hunits : y.units < 2 ^ 24 * 2 ^ 253 :=
      Nat.mul_lt_mul_of_lt_of_le hsignificand (Nat.pow_le_pow_right Nat.two_pos hshift)
        (Nat.two_pow_pos 253)
    rw [pow_add, pow_add]
    exact Nat.mul_lt_mul_of_pos_right hunits (Nat.two_pow_pos gap)
  rcases Nat.eq_zero_or_pos (y.units * Nat.pow 2 gap) with hzero | hpos
  · rw [hzero, Nat.log2_zero]
    omega
  · exact (Nat.log2_lt hpos.ne').mpr hless

/-- **Every finite value of a kind is a double.** -/
theorem exists_convert? {kind : FloatKind} (y : Finite kind.format) :
    ∃ x, y.convert? .binary64 = some x := by
  cases kind with
  | f64 =>
    have hunits : y.doubleUnits = y.units := by
      unfold doubleUnits
      exact Nat.mul_one y.units
    exact ⟨y, convert?_eq_some FloatKind.f64.narrow_format rfl hunits⟩
  | f32 =>
    have hless : y.nearestIn .binary64 < FloatFormat.binary64.infinity := by
      rw [nearestIn_binary64 FloatKind.f32.narrow_format]
      have hlog : y.doubleUnits.log2 < 24 + 253 + 925 := log2_units_lt y _
      refine (FloatFormat.nearest_le _).trans_lt ?_
      show (_ - 52 + 2) * 2 ^ 52 < 2047 * 2 ^ 52
      omega
    exact ⟨_, dif_pos hless⟩

/-- The bits of a finite value are its pattern. -/
theorem pattern_of_ofBits? {bits : Nat} {y : Finite format} (h : ofBits? format bits = some y)
    (hbits : bits < 2 * format.signBit) : pattern format y.negative y.magnitude = bits := by
  unfold ofBits? at h
  dsimp only at h
  split at h
  · cases h
    have hdiv := Nat.div_add_mod bits format.signBit
    unfold pattern
    dsimp only
    by_cases hsign : bits < format.signBit
    · simp [Nat.div_eq_of_lt hsign, Nat.mod_eq_of_lt hsign]
    · have hone : bits / format.signBit = 1 :=
        Nat.div_eq_of_lt_le (by omega) (by omega)
      rw [hone] at hdiv ⊢
      simpa using hdiv
  · cases h

/-- A kind represents a double if that is worth as much as a value of the kind. -/
theorem represents_iff {kind : FloatKind} {x : Double} :
    kind.Represents x ↔
      ∃ y : Finite kind.format, y.negative = x.negative ∧ y.doubleUnits = x.units := by
  obtain ⟨gap, hgap⟩ := Nat.exists_eq_add_of_le kind.narrow_format.unitExponent
  have hpow : Nat.pow 2 FloatFormat.binary64.unitExponent =
      Nat.pow 2 gap * Nat.pow 2 kind.format.unitExponent := by
    rw [hgap, Nat.add_comm]
    exact Nat.pow_add 2 _ _
  have hiff : ∀ y : Finite kind.format,
      y.units * Nat.pow 2 FloatFormat.binary64.unitExponent =
        x.units * Nat.pow 2 kind.format.unitExponent ↔ y.doubleUnits = x.units := by
    intro y
    unfold doubleUnits
    rw [hpow, ← Nat.mul_assoc, hgap, Nat.add_sub_cancel_left]
    exact Nat.mul_left_inj (Nat.two_pow_pos kind.format.unitExponent).ne'
  unfold FloatKind.Represents
  simp only [hiff]

end Finite

/-! ## Doubles and their bytes -/

namespace FloatKind

variable {kind : FloatKind}

theorem nearestIn_lt (x : Double) : x.nearestIn kind.format ≤ kind.format.infinity :=
  Nat.min_le_left _ _

/-- What is read from the bytes of a double: the double rounded to the kind, and widened again. -/
theorem decode_encode (order : ByteOrder) (x : Double) :
    kind.decode order (kind.encode order x) = kind.ofBits (x.bitsIn kind.format) := by
  have hless : x.bitsIn kind.format < Nat.pow 256 kind.width := by
    rw [← kind.size_eq]
    exact Finite.pattern_lt kind.narrow_format.infinity _ (nearestIn_lt x)
  unfold decode encode encodeBits decodeBits
  rw [ByteOrder.number_bytes order kind.width _ hless]

/-- The double as read back, if its rounding is finite. -/
theorem ofBits_bitsIn {x : Double} (h : x.nearestIn kind.format < kind.format.infinity) :
    kind.ofBits (x.bitsIn kind.format) =
      ((Finite.mk x.negative (x.nearestIn kind.format) h).convert? .binary64).elim .null
        .float := by
  unfold ofBits Finite.bitsIn
  rw [Finite.ofBits?_pattern kind.narrow_format.infinity _ h, Option.bind_some]
  generalize Finite.convert? FloatFormat.binary64 _ = widened
  cases widened <;> rfl

theorem nearestIn_of_represents {x : Double} {y : Finite kind.format}
    (h : y.doubleUnits = x.units) : x.nearestIn kind.format = y.magnitude := by
  rw [Finite.nearestIn_narrow kind.narrow_format, ← h]
  exact FloatFormat.nearest_units y.isFinite (Nat.two_pow_pos _)

theorem nearestIn_lt_of_represents {x : Double} (h : kind.Represents x) :
    x.nearestIn kind.format < kind.format.infinity := by
  obtain ⟨y, -, hunits⟩ := Finite.represents_iff.mp h
  rw [nearestIn_of_represents hunits]
  exact y.isFinite

theorem check_of_represents {x : Double} (h : kind.Represents x) :
    kind.check (.float x) = .ok x :=
  if_pos (nearestIn_lt_of_represents h)

theorem represents_f64 (x : Double) : FloatKind.f64.Represents x := by
  have hexponent : FloatFormat.binary64.unitExponent = FloatKind.f64.format.unitExponent := rfl
  exact ⟨x, rfl, congrArg (fun exponent => x.units * Nat.pow 2 exponent) hexponent⟩

/-- **A represented double is read back from its bytes.** -/
theorem decode_encode_of_represents {x : Double} (order : ByteOrder) (h : kind.Represents x) :
    kind.decode order (kind.encode order x) = .float x := by
  obtain ⟨y, hnegative, hunits⟩ := Finite.represents_iff.mp h
  have hmagnitude := nearestIn_of_represents hunits
  have hless := nearestIn_lt_of_represents h
  have hsame : Finite.mk x.negative (x.nearestIn kind.format) hless = y := by
    obtain ⟨negative, magnitude, hfinite⟩ := y
    simp only [Finite.mk.injEq]
    exact ⟨hnegative.symm, hmagnitude⟩
  have hconvert := Finite.convert?_eq_some kind.narrow_format hnegative hunits
  rw [decode_encode, ofBits_bitsIn hless, hsame, hconvert, Option.elim_some]

/-- **The bytes give back a double exactly if the kind represents it.** -/
theorem decode_encode_iff {x : Double} (order : ByteOrder)
    (h : x.nearestIn kind.format < kind.format.infinity) :
    kind.decode order (kind.encode order x) = .float x ↔ kind.Represents x := by
  refine ⟨fun hback => ?_, decode_encode_of_represents order⟩
  rw [decode_encode, ofBits_bitsIn h] at hback
  refine Finite.represents_iff.mpr ⟨⟨x.negative, x.nearestIn kind.format, h⟩, rfl, ?_⟩
  generalize Finite.mk x.negative (x.nearestIn kind.format) h = y at hback ⊢
  obtain ⟨z, hconvert⟩ := Finite.exists_convert? y
  rw [hconvert] at hback
  cases hback
  exact (Finite.units_of_convert? kind.narrow_format hconvert).2

/-- **Bytes of the width of a kind that hold a finite value** are those of the double that is read
from them, and the kind represents it. -/
theorem encode_decode (order : ByteOrder) {bytes : List UInt8} (hlength : bytes.length = kind.width)
    (hfinite : (Finite.ofBits? kind.format (decodeBits order bytes)).isSome) :
    ∃ x, kind.decode order bytes = .float x ∧ kind.Represents x ∧ kind.encode order x = bytes := by
  obtain ⟨y, hy⟩ := Option.isSome_iff_exists.mp hfinite
  obtain ⟨x, hx⟩ := Finite.exists_convert? y
  obtain ⟨hnegative, hunits⟩ := Finite.units_of_convert? kind.narrow_format hx
  refine ⟨x, ?_, Finite.represents_iff.mpr ⟨y, hnegative, hunits⟩, ?_⟩
  · unfold decode ofBits
    rw [hy, Option.bind_some, hx]
  · have hbits : decodeBits order bytes < 2 * kind.format.signBit := by
      rw [kind.size_eq, ← hlength]
      exact order.number_lt bytes
    have hpattern := Finite.pattern_of_ofBits? hy hbits
    unfold encode encodeBits Finite.bitsIn
    rw [nearestIn_of_represents hunits, ← hnegative, hpattern, ← hlength]
    exact order.bytes_number bytes

/-- A checked value is worth a double whose rounding is finite; a float is that double itself. -/
theorem nearestIn_of_check {value : Value} {x : Double} (h : kind.check value = .ok x) :
    x.nearestIn kind.format < kind.format.infinity ∧ ∀ y, value = .float y → y = x := by
  unfold check at h
  split at h
  · next n =>
    split at h
    · cases h
    · next z hz =>
      split at h
      · next hless =>
        cases h
        refine ⟨hless, fun y hy => ?_⟩
        cases hy
        cases hz
        rfl
      · cases h
  · cases h

end FloatKind

end ByteLayout
