import ByteLayout.Proofs.Integer
import Mathlib.Data.Rat.Cast.Lemmas
import Mathlib.Tactic.FieldSimp
import Mathlib.Tactic.Linarith
import Mathlib.Tactic.Ring

/-!
# What a number is worth

A double is worth what its fields say: with a bias on the exponent, the hidden bit above the
fraction from the first normal value on, and no hidden bit below (`Finite.toRat`). This is a
rational number, and rational numbers are not rounded. **Theorem (`Finite.toRat_eq`).** It is the
number of units that the library computes with, divided by those of one.

**Theorem (`IntKind.check_exact`).** A kind accepts a value as the integer `n` exactly if the value
is a number that is worth `n` and `n` is in the range of the kind. A double too large for 128 bits
is confined to them first, but what it is confined to is in the range of no kind.
-/

namespace ByteLayout

/-! ## Doubles -/

namespace FloatFormat

/-- What the exponent field of one holds. -/
def bias (format : FloatFormat) : Int := Nat.pow 2 (format.exponentBits - 1) - 1

variable {format : FloatFormat} {m e : Nat}

/-- Below the first normal value there is no hidden bit. -/
theorem units_of_div_eq_zero (h : m / Nat.pow 2 format.fractionBits = 0) :
    format.units m = m % Nat.pow 2 format.fractionBits := by
  have hdiv := Nat.div_add_mod m (Nat.pow 2 format.fractionBits)
  rw [h, Nat.mul_zero, Nat.zero_add] at hdiv
  unfold units significand shift
  rw [h, hdiv, Nat.zero_sub, Nat.zero_mul]
  exact Nat.mul_one m

/-- From the first normal value on there is one. -/
theorem units_of_div_eq_succ (h : m / Nat.pow 2 format.fractionBits = e + 1) :
    format.units m =
      (Nat.pow 2 format.fractionBits + m % Nat.pow 2 format.fractionBits) * Nat.pow 2 e := by
  have hdiv := Nat.div_add_mod m (Nat.pow 2 format.fractionBits)
  have hshift : format.shift m = e := congrArg (· - 1) h
  rw [h, Nat.mul_succ, Nat.mul_comm] at hdiv
  unfold units significand
  rw [hshift]
  congr 1
  omega

/-- The least normal value, in the powers of two that the fields and the units give it. -/
theorem pow_bias (hformat : 1 < format.exponentBits) :
    (2 : ℚ) ^ (1 - format.bias) = 2 ^ format.fractionBits / 2 ^ format.unitExponent := by
  have hpow : 2 ≤ Nat.pow 2 (format.exponentBits - 1) :=
    Nat.pow_le_pow_right Nat.two_pos (Nat.le_sub_one_of_lt hformat)
  have hexponent : 1 - format.bias + format.unitExponent = format.fractionBits := by
    unfold bias unitExponent
    omega
  rw [eq_div_iff (pow_ne_zero _ two_ne_zero), ← zpow_natCast, ← zpow_natCast,
    ← zpow_add₀ two_ne_zero, hexponent]

/-- What a magnitude is worth, read off its exponent and fraction fields. -/
def worth (format : FloatFormat) (magnitude : Nat) : ℚ :=
  let one := Nat.pow 2 format.fractionBits
  let exponent := magnitude / one
  let fraction : ℚ := (magnitude % one : Nat) / (one : Nat)
  if exponent = 0 then 2 ^ (1 - format.bias) * fraction
  else 2 ^ ((exponent : Int) - format.bias) * (1 + fraction)

/-- **A magnitude is worth its units**, one being a power of two of them. -/
theorem worth_eq (hformat : 1 < format.exponentBits) (m : Nat) :
    format.worth m = format.units m / 2 ^ format.unitExponent := by
  have hone : ((Nat.pow 2 format.fractionBits : Nat) : ℚ) = 2 ^ format.fractionBits :=
    Nat.cast_pow 2 _
  unfold worth
  dsimp only
  split
  · next hzero =>
    rw [pow_bias hformat, units_of_div_eq_zero hzero, hone]
    field_simp
  · next hnormal =>
    obtain ⟨e, he⟩ := Nat.exists_eq_succ_of_ne_zero hnormal
    have hexponent : ((e + 1 : Nat) : Int) - format.bias = e + (1 - format.bias) := by omega
    have hpow : ((Nat.pow 2 e : Nat) : ℚ) = 2 ^ e := Nat.cast_pow 2 e
    rw [units_of_div_eq_succ he, he, hexponent, zpow_add₀ two_ne_zero, pow_bias hformat,
      zpow_natCast, Nat.cast_mul, Nat.cast_add, hone, hpow]
    field_simp

end FloatFormat

namespace Finite

variable {format : FloatFormat}

/-- What a value is worth. -/
def toRat (x : Finite format) : ℚ :=
  if x.negative then -format.worth x.magnitude else format.worth x.magnitude

/-- The units of a value, with its sign. -/
def signedUnits (x : Finite format) : Int := if x.negative then -x.units else x.units

theorem toRat_eq (hformat : 1 < format.exponentBits) (x : Finite format) :
    x.toRat = x.signedUnits / (Nat.pow 2 format.unitExponent : Nat) := by
  have hone : ((Nat.pow 2 format.unitExponent : Nat) : ℚ) = 2 ^ format.unitExponent :=
    Nat.cast_pow 2 _
  unfold toRat signedUnits units
  rw [FloatFormat.worth_eq hformat, hone]
  split
  · rw [Int.cast_neg, Int.cast_natCast, neg_div]
  · rw [Int.cast_natCast]

/-- **A value is an integer exactly if it is worth one.** -/
theorem toInt?_eq_some_iff (hformat : 1 < format.exponentBits) {x : Finite format} {n : Int} :
    x.toInt? = some n ↔ x.toRat = n := by
  have hpos : 0 < Nat.pow 2 format.unitExponent := Nat.two_pow_pos _
  have hworth : x.toRat = n ↔ x.signedUnits = n * (Nat.pow 2 format.unitExponent : Nat) := by
    rw [toRat_eq hformat, div_eq_iff (Nat.cast_ne_zero.mpr hpos.ne')]
    exact_mod_cast Iff.rfl
  rw [hworth]
  unfold toInt? signedUnits
  dsimp only
  generalize Nat.pow 2 format.unitExponent = one at hpos ⊢
  generalize x.units = units
  have hne : (one : Int) ≠ 0 := Int.natCast_ne_zero.mpr hpos.ne'
  by_cases hdvd : one ∣ units
  · obtain ⟨q, rfl⟩ := hdvd
    rw [if_pos (Nat.mul_mod_right one q), Nat.mul_div_cancel_left q hpos, Option.some.injEq]
    cases x.negative with
    | true =>
      rw [if_pos rfl, if_pos rfl, Int.natCast_mul, ← Int.mul_neg, Int.mul_comm n]
      exact (Int.mul_eq_mul_left_iff hne).symm
    | false =>
      rw [if_neg Bool.false_ne_true, if_neg Bool.false_ne_true, Int.natCast_mul, Int.mul_comm n]
      exact (Int.mul_eq_mul_left_iff hne).symm
  · -- what is no multiple of one is worth no integer
    rw [if_neg (hdvd ∘ Nat.dvd_of_mod_eq_zero)]
    refine iff_of_false (Option.some_ne_none n).symm fun h =>
      absurd (Int.natCast_dvd_natCast.mp ?_) hdvd
    have hsigned := Dvd.intro_left n h.symm
    split at hsigned
    · exact Int.dvd_neg.mp hsigned
    · exact hsigned

end Finite

/-! ## Numbers and kinds -/

/-- What a number is worth. -/
def Number.toRat : Number → ℚ
  | int n => n
  | float x => x.toRat

namespace IntKind

/-- The kinds hold far less than 128 bits. -/
theorem lt_pow_of_holds {kind : IntKind} {n : Int} (h : kind.Holds n) :
    -(Nat.pow 2 127 : Nat) < n ∧ n < (Nat.pow 2 127 : Nat) - 1 := by
  obtain ⟨hmin, hmax⟩ := h
  have hlow : -(Nat.pow 2 127 : Nat) < kind.min := by cases kind <;> decide
  have hhigh : kind.max < (Nat.pow 2 127 : Nat) - 1 := by cases kind <;> decide
  omega

/-- An integer in the range of a kind is what is confined to it, and nothing else is. -/
theorem confine_eq_iff {kind : IntKind} {n m : Int} (h : kind.Holds n) : confine m = n ↔ m = n := by
  have hbounds := lt_pow_of_holds h
  unfold confine
  dsimp only
  omega

/-- A value stands for the integer that it is worth, if that is in the range of a kind. -/
theorem toInteger_eq_ok_iff {kind : IntKind} {value : Value} {n : Int} (h : kind.Holds n) :
    value.toInteger = .ok n ↔ ∃ number, value = .number number ∧ number.toRat = n := by
  cases value with
  | number number =>
    simp only [Value.number.injEq, exists_eq_left']
    cases number with
    | int m => simp [Value.toInteger, Number.toRat]
    | float x =>
      have hiff (m : Int) : x.toInt? = some m ↔ x.toRat = m :=
        Finite.toInt?_eq_some_iff (by decide)
      unfold Value.toInteger Number.toRat
      dsimp only
      rw [← hiff]
      cases x.toInt? with
      | none => simp
      | some m =>
        rw [Option.elim_some, Except.ok.injEq, Option.some.injEq, confine_eq_iff h]
  | _ => simp [Value.toInteger]

/-- **A kind accepts a value as an integer exactly if it is a number of that worth**, and the
integer is in the range of the kind. -/
theorem check_exact (kind : IntKind) (value : Value) (n : Int) :
    kind.check value = .ok n ↔
      (∃ number, value = .number number ∧ number.toRat = n) ∧ kind.Holds n := by
  constructor
  · intro h
    obtain ⟨hinteger, hholds⟩ := holds_of_check h
    exact ⟨(toInteger_eq_ok_iff hholds).mp hinteger, hholds⟩
  · rintro ⟨hworth, hholds⟩
    unfold check
    rw [(toInteger_eq_ok_iff hholds).mpr hworth]
    exact if_pos hholds

/-- The double `2 ^ 64` is just out of range. The message for `2 ^ 127` has what that is confined
to, which is one less. -/
example :
    u64.check (.float ⟨false, 0x43F0000000000000, by decide⟩) =
      .error (.outOfRange (Nat.pow 2 64) .u64) ∧
    u64.check (.float ⟨false, 0x47E0000000000000, by decide⟩) =
      .error (.outOfRange (Nat.pow 2 127 - 1) .u64) := by
  decide +kernel

end IntKind

end ByteLayout
