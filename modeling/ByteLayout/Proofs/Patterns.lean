import ByteLayout.Proofs.Rounding
import ByteLayout.Proofs.Words

/-!
# Bit patterns of floats

A word of a format has three fields, the sign on top, the exponent below it and the fraction at the
bottom. It is **special**, an infinity or a NaN, if all exponent bits are set, and otherwise it is
worth a number.

The library takes a word for a natural number with the sign above the magnitude
(`FloatFormat.toNat_eq_pattern`). So the special words are those with a magnitude from that of
infinity on (`FloatFormat.isSpecial_iff`), and the bytes of a double are those of the one word that
has its sign and the magnitude to which it is rounded (`FloatKind.encode_eq_iff`).

**Theorem (`FloatKind.codec_nearest`).** Exactly the special words are read as `null`. The others
are read as doubles of the same sign and worth, which are accepted and written as the same bytes.
What is written is rounded to nearest, what would be rounded to infinity is refused, and what was
rounded once is not changed when it is read and written again.
-/

namespace ByteLayout

namespace FloatFormat

/-- The number of bits of a word of the format. -/
def bits (format : FloatFormat) : Nat := format.exponentBits + format.fractionBits + 1

section Fields

variable (format : FloatFormat) (word : BitVec format.bits)

/-- The exponent field. -/
def exponentOf : BitVec format.exponentBits :=
  word.extractLsb' format.fractionBits format.exponentBits

/-- The fraction field. -/
def fractionOf : BitVec format.fractionBits := word.extractLsb' 0 format.fractionBits

/-- The word without its sign. -/
def magnitudeOf : Nat := (word.setWidth (format.exponentBits + format.fractionBits)).toNat

/-- An infinity has all exponent bits and no fraction bit. -/
def IsInfinity : Prop := format.exponentOf word = .allOnes _ ∧ format.fractionOf word = 0

/-- A NaN has all exponent bits and some fraction bit. -/
def IsNaN : Prop := format.exponentOf word = .allOnes _ ∧ format.fractionOf word ≠ 0

/-- Infinities and NaNs are the words that are worth no number. -/
def IsSpecial : Prop := format.IsInfinity word ∨ format.IsNaN word

instance : Decidable (format.IsInfinity word) := inferInstanceAs (Decidable (_ ∧ _))

instance : Decidable (format.IsNaN word) := inferInstanceAs (Decidable (_ ∧ _))

instance : Decidable (format.IsSpecial word) := inferInstanceAs (Decidable (_ ∨ _))

end Fields

variable {format : FloatFormat} {word : BitVec format.bits}

theorem magnitudeOf_lt : format.magnitudeOf word < format.signBit := BitVec.isLt _

theorem magnitudeOf_eq : format.magnitudeOf word = word.toNat % format.signBit :=
  BitVec.toNat_setWidth _ word

/-- **A word is the pattern of its sign and its magnitude.** -/
theorem toNat_eq_pattern :
    word.toNat = Finite.pattern format word.msb (format.magnitudeOf word) := by
  have hmsb : word.msb = decide (format.signBit ≤ word.toNat) := BitVec.msb_eq_decide word
  have hlt : word.toNat < format.signBit * 2 := word.isLt
  rw [hmsb, magnitudeOf_eq]
  unfold Finite.pattern
  by_cases hsign : format.signBit ≤ word.toNat
  · rw [if_pos (decide_eq_true hsign), Nat.mod_eq_sub_mod hsign, Nat.mod_eq_of_lt (by omega)]
    omega
  · rw [if_neg (by simpa using hsign), Nat.mod_eq_of_lt (Nat.lt_of_not_le hsign), Nat.zero_add]

/-- **The special words** are those of which the magnitude is not below that of infinity. -/
theorem isSpecial_iff : format.IsSpecial word ↔ format.infinity ≤ format.magnitudeOf word := by
  have hpos : 0 < Nat.pow 2 format.fractionBits := Nat.two_pow_pos _
  have hlt := (format.exponentOf word).isLt
  have hexponent : (format.exponentOf word).toNat =
      format.magnitudeOf word / Nat.pow 2 format.fractionBits := by
    unfold exponentOf magnitudeOf
    rw [BitVec.extractLsb'_toNat, BitVec.toNat_setWidth, Nat.shiftRight_eq_div_pow, Nat.add_comm,
      pow_add]
    exact (Nat.mod_mul_right_div_self _ _ _).symm
  have hspecial : format.IsSpecial word ↔
      (format.exponentOf word).toNat = 2 ^ format.exponentBits - 1 := by
    unfold IsSpecial IsInfinity IsNaN
    rw [← and_or_left, and_iff_left (em _), ← BitVec.toNat_inj, BitVec.toNat_allOnes]
  rw [hspecial, infinity, ← Nat.le_div_iff_mul_le hpos, ← hexponent, Nat.pow_eq]
  omega

end FloatFormat

namespace Finite

variable {format : FloatFormat} {word : BitVec format.bits}

theorem pattern_inj {a b : Bool} {m n : Nat} (hm : m < format.signBit) (hn : n < format.signBit) :
    pattern format a m = pattern format b n ↔ a = b ∧ m = n := by
  unfold pattern
  cases a <;> cases b <;> simp <;> omega

/-- The special words are those without a value. -/
theorem ofBits?_toNat_eq_none_iff :
    ofBits? format word.toNat = none ↔ format.IsSpecial word := by
  rw [FloatFormat.isSpecial_iff]
  unfold ofBits?
  dsimp only
  rw [← FloatFormat.magnitudeOf_eq]
  split
  · next hless => exact iff_of_false (Option.some_ne_none _) (Nat.not_le.mpr hless)
  · next hgreat => exact iff_of_true rfl (Nat.not_lt.mp hgreat)

end Finite

namespace FloatKind

variable {kind : FloatKind} {order : ByteOrder} {x : Double} {word : BitVec kind.format.bits}

/-! ## Words and bytes -/

theorem two_pow_bits (kind : FloatKind) : 2 ^ kind.format.bits = Nat.pow 256 kind.width := by
  cases kind <;> rfl

theorem wordBytes_eq (order : ByteOrder) (word : BitVec kind.format.bits) :
    order.wordBytes word = order.bytes kind.width word.toNat := by
  have hwidth : kind.format.bits / 8 = kind.width := by cases kind <;> rfl
  rw [ByteOrder.wordBytes_eq, hwidth]

theorem decodeBits_wordBytes : decodeBits order (order.wordBytes word) = word.toNat := by
  rw [wordBytes_eq]
  exact ByteOrder.number_bytes order kind.width _ (kind.two_pow_bits ▸ word.isLt)

theorem bitsIn_lt (x : Double) : x.bitsIn kind.format < Nat.pow 256 kind.width := by
  rw [← kind.size_eq]
  exact Finite.pattern_lt kind.narrow_format.infinity _ (nearestIn_lt x)

/-- **The bytes of a double are those of a word** if the word has its sign and the magnitude to
which it is rounded. -/
theorem encode_eq_iff :
    kind.encode order x = order.wordBytes word ↔
      word.msb = x.negative ∧ x.nearestIn kind.format = kind.format.magnitudeOf word := by
  have hsmall : x.nearestIn kind.format < kind.format.signBit :=
    (nearestIn_lt x).trans_lt kind.narrow_format.infinity
  have hbits : kind.encode order x = order.wordBytes word ↔
      x.bitsIn kind.format = word.toNat := by
    rw [wordBytes_eq]
    refine ⟨fun hbytes => ?_, fun hbits => congrArg (order.bytes kind.width) hbits⟩
    have hnumber := congrArg order.number hbytes
    rwa [encode, encodeBits, ByteOrder.number_bytes _ _ _ (bitsIn_lt x),
      ByteOrder.number_bytes _ _ _ (kind.two_pow_bits ▸ word.isLt)] at hnumber
  rw [hbits, FloatFormat.toNat_eq_pattern, Finite.bitsIn,
    Finite.pattern_inj hsmall FloatFormat.magnitudeOf_lt, eq_comm (a := x.negative)]

theorem exists_word (kind : FloatKind) (order : ByteOrder) (x : Double) :
    ∃ word : BitVec kind.format.bits, kind.encode order x = order.wordBytes word := by
  refine ⟨.ofNatLT (x.bitsIn kind.format) (kind.two_pow_bits ▸ bitsIn_lt x), ?_⟩
  rw [wordBytes_eq, BitVec.toNat_ofNatLT]
  rfl

/-! ## Reading words -/

/-- A represented double is worth what it is rounded to. -/
theorem abs_toRat_of_represents (h : kind.Represents x) :
    |x.toRat| = kind.format.worth (x.nearestIn kind.format) := by
  obtain ⟨y, -, hunits⟩ := Finite.represents_iff.mp h
  have hpos : 0 < Nat.pow 2 (FloatFormat.binary64.unitExponent - kind.format.unitExponent) :=
    Nat.two_pow_pos _
  rw [nearestIn_of_represents hunits, abs_toRat_eq kind, ← hunits, Finite.doubleUnits,
    FloatFormat.worth_eq kind.one_lt_exponentBits, Nat.cast_mul, mul_comm (y.units : ℚ),
    mul_div_mul_left _ _ (Nat.cast_ne_zero.mpr hpos.ne')]
  rfl

/-- **A word that is not special is read as a double of its sign and worth**, which is accepted and
has the bytes of the word. -/
theorem decode_of_not_isSpecial (order : ByteOrder) (hfinite : ¬kind.format.IsSpecial word) :
    ∃ x : Double, kind.decode order (order.wordBytes word) = .float x ∧
      x.negative = word.msb ∧ |x.toRat| = kind.format.worth (kind.format.magnitudeOf word) ∧
      kind.check (.float x) = .ok x ∧ kind.encode order x = order.wordBytes word := by
  have hlength : (order.wordBytes word).length = kind.width := by
    rw [wordBytes_eq, ByteOrder.length_bytes]
  have hvalue : (Finite.ofBits? kind.format (decodeBits order (order.wordBytes word))).isSome := by
    rw [decodeBits_wordBytes, Option.isSome_iff_ne_none]
    exact hfinite ∘ Finite.ofBits?_toNat_eq_none_iff.mp
  obtain ⟨x, hdecode, hrepresents, hencode⟩ := encode_decode order hlength hvalue
  obtain ⟨hsign, hmagnitude⟩ := encode_eq_iff.mp hencode
  refine ⟨x, hdecode, hsign.symm, ?_, check_of_represents hrepresents, hencode⟩
  rw [← hmagnitude]
  exact abs_toRat_of_represents hrepresents

/-- **A special word is read as null**, and no other. -/
theorem decode_eq_null_iff :
    kind.decode order (order.wordBytes word) = .null ↔ kind.format.IsSpecial word := by
  constructor
  · intro hnull
    by_contra hfinite
    obtain ⟨x, hdecode, -⟩ := decode_of_not_isSpecial order hfinite
    rw [hnull] at hdecode
    cases hdecode
  · intro hspecial
    unfold decode ofBits
    rw [decodeBits_wordBytes, Finite.ofBits?_toNat_eq_none_iff.mpr hspecial]
    rfl

/-! ## Writing numbers -/

/-- **A double is accepted** if its bytes are not those of a special word. -/
theorem check_float_iff :
    kind.check (.float x) = .ok x ↔
      ∃ word : BitVec kind.format.bits,
        kind.encode order x = order.wordBytes word ∧ ¬kind.format.IsSpecial word := by
  have hcheck : kind.check (.float x) = .ok x ↔ x.nearestIn kind.format < kind.format.infinity :=
    ⟨fun hcheck => (nearestIn_of_check hcheck).1, fun hless => if_pos hless⟩
  simp only [hcheck, FloatFormat.isSpecial_iff, Nat.not_le]
  constructor
  · intro hless
    obtain ⟨word, hword⟩ := exists_word kind order x
    exact ⟨word, hword, (encode_eq_iff.mp hword).2 ▸ hless⟩
  · rintro ⟨word, hword, hless⟩
    rwa [(encode_eq_iff.mp hword).2]

/-- A kind that accepts a number accepts the double that the number stands for. -/
theorem toDouble_of_check {number : Number} (h : kind.check (.number number) = .ok x) :
    toDouble number = .ok x ∧ kind.check (.float x) = .ok x := by
  unfold check at h
  dsimp only at h
  split at h
  · cases h
  · next hdouble =>
    split at h
    · next hless =>
      cases h
      exact ⟨hdouble, if_pos hless⟩
    · cases h

/-- **Floats and their bit patterns.** Exactly the special words are read as null, and every other
one as a double of its sign and worth, which is accepted and has the bytes of the word. The bytes of
a double are those of the word with its sign and the magnitude that is nearest to it, and it is
accepted if that word is not special. A number that is accepted is given the nearest double, and
what is read from the bytes of that has the same bytes. -/
theorem codec_nearest (kind : FloatKind) (order : ByteOrder) :
    (∀ word : BitVec kind.format.bits,
      (kind.decode order (order.wordBytes word) = .null ↔ kind.format.IsSpecial word) ∧
      (¬kind.format.IsSpecial word → ∃ x : Double,
        kind.decode order (order.wordBytes word) = .float x ∧
        x.negative = word.msb ∧ |x.toRat| = kind.format.worth (kind.format.magnitudeOf word) ∧
        kind.check (.float x) = .ok x ∧ kind.encode order x = order.wordBytes word)) ∧
    (∀ (x : Double) (word : BitVec kind.format.bits),
      kind.encode order x = order.wordBytes word ↔
        word.msb = x.negative ∧ kind.format.IsNearest |x.toRat| (kind.format.magnitudeOf word)) ∧
    (∀ x : Double, kind.check (.float x) = .ok x ↔ ∃ word : BitVec kind.format.bits,
      kind.encode order x = order.wordBytes word ∧ ¬kind.format.IsSpecial word) ∧
    ∀ (number : Number) (x : Double), kind.check (.number number) = .ok x →
      FloatFormat.binary64.IsNearest |number.toRat| x.magnitude ∧ 0 ≤ number.toRat * x.toRat ∧
      ∃ y : Double, kind.decode order (kind.encode order x) = .float y ∧
        kind.check (.float y) = .ok y ∧ kind.encode order y = kind.encode order x := by
  refine ⟨fun word => ⟨decode_eq_null_iff, decode_of_not_isSpecial order⟩, fun x word => ?_,
    fun x => check_float_iff, fun number x hcheck => ?_⟩
  · rw [encode_eq_iff, isNearest_iff]
  · obtain ⟨hdouble, haccepted⟩ := toDouble_of_check hcheck
    obtain ⟨hnearest, hsign⟩ := isNearest_toDouble hdouble
    obtain ⟨word, hword, hfinite⟩ := check_float_iff.mp haccepted
    obtain ⟨y, hdecode, -, -, hagain, hencode⟩ := decode_of_not_isSpecial order hfinite
    refine ⟨hnearest, hsign, y, ?_, hagain, ?_⟩
    · rw [hword, hdecode]
    · rw [hword, hencode]

/-- The negative single next to zero, and an integer halfway between two singles. -/
theorem codec_nearest_tie :
    (∃ x : Double, f32.decode .little [0x01, 0x00, 0x00, 0x80] = .float x ∧
      x.negative = true ∧ |x.toRat| = 2 ^ (-149 : Int) ∧ f32.check (.float x) = .ok x ∧
      f32.encode .little x = [0x01, 0x00, 0x00, 0x80]) ∧
    ∃ x y : Double, f32.check (.int 16777217) = .ok x ∧
      f32.decode .little (f32.encode .little x) = .float y ∧ f32.check (.float y) = .ok y ∧
      f32.encode .little x = [0x00, 0x00, 0x80, 0x4B] ∧
      f32.encode .little y = [0x00, 0x00, 0x80, 0x4B] := by
  obtain ⟨hwords, -, -, hnumbers⟩ := codec_nearest .f32 .little
  constructor
  · have hbytes : ByteOrder.wordBytes .little (0x80000001 : BitVec f32.format.bits) =
        [0x01, 0x00, 0x00, 0x80] := by decide
    have hleast : f32.format.worth (f32.format.magnitudeOf 0x80000001) = 2 ^ (-149 : Int) := by
      rw [show f32.format.magnitudeOf 0x80000001 = 1 by decide]
      norm_num [FloatFormat.worth, FloatFormat.bias, format, FloatFormat.binary32]
    obtain ⟨x, hread⟩ := (hwords 0x80000001).2 (by decide)
    rw [hbytes, hleast] at hread
    exact ⟨x, hread⟩
  · let x : Double := ⟨false, 0x4170000010000000, by decide⟩
    have hcheck : f32.check (.int 16777217) = .ok x := by decide +kernel
    have hbytes : f32.encode .little x = [0x00, 0x00, 0x80, 0x4B] := by decide +kernel
    obtain ⟨-, -, y, hdecode, hagain, hencode⟩ := hnumbers (.int 16777217) x hcheck
    exact ⟨x, y, hcheck, hdecode, hagain, hbytes, hencode.trans hbytes⟩

end FloatKind

end ByteLayout
