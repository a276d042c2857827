import ByteLayout.Proofs.Scalar
import ByteLayout.Proofs.WriteStream

/-!
# Integers as machine words

The bytes of an integer field were defined by remainders. A machine has words: an integer is cut
down to a word of the width of its kind, the bytes of the word overwrite a window of the buffer, and
a word that was read is extended, with its sign or with zeros, to the value that a record gets.

**Theorems (`ByteOrder.wordBytes_eq`, `ByteOrder.toNat_wordOf`).** The bytes of a word are the
digits of its number, and the word of some bytes has their number. So both descriptions agree
(`IntKind.put_eq`, `IntKind.get_eq`). **Theorem (`IntKind.codec_exact`).** Cutting down loses
nothing of an integer that was checked: nothing of the window stays, and the bytes are read back as
the value that the writer keeps. All bytes of the width are those of an integer that is accepted,
and the byte orders are mirror images.
-/

namespace ByteLayout

/-! ## Bytes of words -/

namespace ByteOrder

variable {bits : Nat}

/-- The byte of a word that has eight times `place` bits below it. -/
def byteAt (word : BitVec bits) (place : Nat) : UInt8 := .ofBitVec (word.extractLsb' (8 * place) 8)

/-- The bytes of a word as they are stored. -/
def wordBytes (order : ByteOrder) (word : BitVec bits) : List UInt8 :=
  let count := bits / 8
  match order with
  | little => (List.range count).map (byteAt word)
  | big => (List.range count).map fun index => byteAt word (count - 1 - index)

/-- The word of stored bytes, the most significant of which is shifted in first. -/
def wordOf (order : ByteOrder) (bits : Nat) (bytes : List UInt8) : BitVec bits :=
  let shiftIn (word : BitVec bits) (byte : UInt8) := word <<< 8 ||| byte.toBitVec.setWidth bits
  match order with
  | little => bytes.reverse.foldl shiftIn 0
  | big => bytes.foldl shiftIn 0

theorem byteAt_eq (word : BitVec bits) (place : Nat) :
    byteAt word place = UInt8.ofNat (word.toNat / Nat.pow 256 place) := by
  have hpow : Nat.pow 256 place = 2 ^ (8 * place) := by
    rw [Nat.pow_eq, Nat.pow_mul]
  apply UInt8.toNat_inj.mp
  unfold byteAt
  rw [hpow, UInt8.toNat_ofNat', UInt8.toNat_ofBitVec, BitVec.extractLsb'_toNat,
    Nat.shiftRight_eq_div_pow]

theorem digits256_eq_map (count n : Nat) :
    digits256 count n =
      (List.range count).map fun place => UInt8.ofNat (n / Nat.pow 256 place) := by
  induction count generalizing n with
  | zero => rfl
  | succ count ih =>
    have hnext (place : Nat) : n / 256 / Nat.pow 256 place = n / Nat.pow 256 (place + 1) := by
      rw [Nat.div_div_eq_div_mul, Nat.mul_comm]
      rfl
    have hfirst : n / Nat.pow 256 0 = n := Nat.div_one n
    rw [digits256, ih, List.range_succ_eq_map, List.map_cons, List.map_map, hfirst]
    simp only [hnext]
    rfl

theorem wordBytes_eq (order : ByteOrder) (word : BitVec bits) :
    order.wordBytes word = order.bytes (bits / 8) word.toNat := by
  have hlittle : digits256 (bits / 8) word.toNat = (List.range (bits / 8)).map (byteAt word) := by
    rw [digits256_eq_map]
    exact List.map_congr_left fun place _ => (byteAt_eq word place).symm
  unfold wordBytes bytes arrange
  rw [hlittle]
  cases order with
  | little => rfl
  | big =>
    dsimp only
    rw [← List.map_reverse, List.range_eq_range', List.reverse_range', List.map_map,
      ← List.range_eq_range', Nat.zero_add]
    rfl

/-- A byte shifted into a word that has room for it. -/
theorem toNat_shiftIn {word : BitVec bits} {byte : UInt8}
    (h : 256 * word.toNat + 255 < Nat.pow 2 bits) :
    (word <<< 8 ||| byte.toBitVec.setWidth bits).toNat = byte.toNat + 256 * word.toNat := by
  rw [Nat.pow_eq] at h
  have hbyte := byte.toNat_lt
  have hshift : (word <<< 8).toNat = 256 * word.toNat := by
    rw [BitVec.toNat_shiftLeft, Nat.shiftLeft_eq, Nat.mul_comm, Nat.mod_eq_of_lt (by omega)]
  have hwidth : (byte.toBitVec.setWidth bits).toNat = byte.toNat := by
    rw [BitVec.toNat_setWidth]
    exact Nat.mod_eq_of_lt (show byte.toNat < _ by omega)
  rw [BitVec.toNat_or, hshift, hwidth, Nat.add_comm]
  exact (Nat.two_pow_add_eq_or_of_lt (i := 8) hbyte word.toNat).symm

/-- **The word of stored bytes is their number**, if it has room for them. -/
theorem toNat_wordOf {order : ByteOrder} {bytes : List UInt8}
    (h : Nat.pow 256 bytes.length ≤ Nat.pow 2 bits) :
    (order.wordOf bits bytes).toNat = order.number bytes := by
  let shiftIn (byte : UInt8) (word : BitVec bits) := word <<< 8 ||| byte.toBitVec.setWidth bits
  have hdigits (digits : List UInt8) (h : Nat.pow 256 digits.length ≤ Nat.pow 2 bits) :
      (digits.foldr shiftIn 0).toNat = ofDigits256 digits := by
    induction digits with
    | nil => exact BitVec.toNat_zero
    | cons digit rest ih =>
      have hpow : Nat.pow 256 (rest.length + 1) = Nat.pow 256 rest.length * 256 := rfl
      have hlt := ofDigits256_lt rest
      rw [List.length_cons, hpow] at h
      have hrest := ih (by omega)
      rw [List.foldr_cons, toNat_shiftIn (by omega), hrest, ofDigits256]
  unfold number
  rw [← hdigits _ (by rwa [length_arrange])]
  cases order with
  | little => exact congrArg BitVec.toNat List.foldl_reverse
  | big => exact congrArg BitVec.toNat List.foldr_reverse.symm

end ByteOrder

/-! ## Words of a kind -/

namespace IntKind

/-- The number of bits of a word of the kind. -/
def bits (kind : IntKind) : Nat := 8 * kind.width

/-- An integer cut down to a word of the kind. -/
def narrow (kind : IntKind) (n : Int) : BitVec kind.bits := .ofInt kind.bits n

/-- The integer that a word of the kind stands for. -/
def widen (kind : IntKind) (word : BitVec kind.bits) : Int :=
  if kind.isUnsigned then word.toNat else word.toInt

/-- Writes an integer over the beginning of a window, of which the rest stays. -/
def put (kind : IntKind) (order : ByteOrder) (n : Int) (window : List UInt8) : List UInt8 :=
  let bytes := order.wordBytes (kind.narrow n)
  bytes ++ window.drop bytes.length

/-- Reads the value of some bytes. -/
def get (kind : IntKind) (order : ByteOrder) (bytes : List UInt8) : Value :=
  .int (kind.widen (order.wordOf kind.bits bytes))

/-- The value of an integer of 128 bits: a signed word of 64 bits if it fits, otherwise an unsigned
one. -/
def wideValue (n : Int) : Value := .int (if i64.Holds n then n else (u64.narrow n).toNat)

variable {kind : IntKind} {order : ByteOrder} {n : Int} {bytes window : List UInt8}

theorem two_pow_bits (kind : IntKind) : Nat.pow 2 kind.bits = kind.size :=
  Nat.pow_mul 2 8 kind.width

theorem toNat_narrow (kind : IntKind) (n : Int) :
    (kind.narrow n).toNat = (n % kind.size).toNat := by
  rw [narrow, BitVec.toNat_ofInt, ← two_pow_bits]
  rfl

/-- Nothing is lost of an integer from zero on that an unsigned word has room for. -/
theorem toNat_narrow_of_lt (hzero : 0 ≤ n) (hless : n < kind.size) :
    ((kind.narrow n).toNat : Int) = n := by
  rw [toNat_narrow, Int.emod_eq_of_lt hzero hless, Int.toNat_of_nonneg hzero]

/-- The bytes of a word that an integer was cut down to are those of the integer. -/
theorem wordBytes_narrow (kind : IntKind) (order : ByteOrder) (n : Int) :
    order.wordBytes (kind.narrow n) = kind.encode order n := by
  rw [ByteOrder.wordBytes_eq, toNat_narrow, bits, Nat.mul_div_cancel_left _ (by decide)]
  rfl

/-- **Nothing of a window stays** that is as wide as the kind. -/
theorem put_eq (h : window.length = kind.width) :
    kind.put order n window = kind.encode order n := by
  rw [put, wordBytes_narrow, length_encode, ← h, List.drop_length, List.append_nil]

/-- The remainders above the greatest value are the upper half of those of a signed kind. -/
theorem max_lt_iff {remainder : Nat} (h : remainder < kind.size) :
    kind.max < remainder ↔ kind.isUnsigned = false ∧ kind.size ≤ 2 * remainder := by
  have heven : kind.size = 2 * (kind.size / 2) := by cases kind <;> decide
  unfold max min
  cases kind.isUnsigned with
  | true =>
    rw [if_pos rfl]
    exact iff_of_false (by omega) fun hsigned => Bool.noConfusion hsigned.1
  | false =>
    rw [if_neg Bool.false_ne_true, eq_self, true_and]
    omega

/-- **The extended word is the integer of its remainder.** -/
theorem widen_eq (kind : IntKind) (word : BitVec kind.bits) :
    kind.widen word = kind.ofRemainder word.toNat := by
  have hlt : word.toNat < kind.size := kind.two_pow_bits ▸ word.isLt
  have hmax := max_lt_iff hlt
  unfold widen ofRemainder
  rw [BitVec.toInt_eq_toNat_cond, ← Nat.pow_eq, two_pow_bits]
  cases hsign : kind.isUnsigned with
  | true =>
    have hsmall : ¬kind.max < word.toNat := fun hgreat =>
      Bool.noConfusion (hsign.symm.trans (hmax.mp hgreat).1)
    rw [if_pos rfl, if_neg hsmall]
  | false =>
    rw [if_neg Bool.false_ne_true]
    by_cases hhalf : kind.size ≤ 2 * word.toNat
    · rw [if_neg (Nat.not_lt.mpr hhalf), if_pos (hmax.mpr ⟨hsign, hhalf⟩)]
    · rw [if_pos (Nat.not_le.mp hhalf), if_neg fun hgreat => hhalf (hmax.mp hgreat).2]

theorem get_eq (h : bytes.length = kind.width) :
    kind.get order bytes = .int (kind.decode order bytes) := by
  have hroom : Nat.pow 256 bytes.length ≤ Nat.pow 2 kind.bits := by
    rw [h, two_pow_bits]
    exact Nat.le_refl _
  rw [get, widen_eq, ByteOrder.toNat_wordOf hroom]
  rfl

/-- Only the widest unsigned kind has integers that a signed word of 64 bits has no room for. -/
theorem bounds_le (kind : IntKind) :
    i64.min ≤ kind.min ∧ (kind.max ≤ i64.max ∨ kind = u64) := by
  cases kind <;> decide

/-- **An integer of a kind is its own value**, in whichever of the two words it is kept. -/
theorem wideValue_eq (h : kind.Holds n) : wideValue n = .int n := by
  unfold wideValue
  split
  · rfl
  · next hwide =>
    obtain ⟨hmin, hmax⟩ := h
    obtain ⟨hlow, hhigh | rfl⟩ := kind.bounds_le
    · exact absurd ⟨Int.le_trans hlow hmin, Int.le_trans hmax hhigh⟩ hwide
    · rw [toNat_narrow_of_lt hmin (Int.lt_of_le_of_lt hmax u64.max_bounds.2)]

/-- Writes an integer into a window of a stream. -/
def store (kind : IntKind) (order : ByteOrder) (n : Int) (stream : WriteStream) :
    Outcome WriteStream Unit :=
  (stream.reserve kind.width).bind fun stream window =>
    ⟨.ok (), stream.fill (kind.put order n window), []⟩

/-- A stream gets the bytes of the integer, whatever its buffer held before. -/
theorem store_eq (kind : IntKind) (order : ByteOrder) (n : Int) (stream : WriteStream) :
    kind.store order n stream = stream.put (kind.encode order n) := by
  have hlength := @WriteStream.length_reserve stream kind.width
  unfold store WriteStream.put
  rw [length_encode]
  generalize stream.reserve kind.width = reserved at hlength ⊢
  obtain ⟨result, later, events⟩ := reserved
  cases result with
  | error error => rfl
  | ok window =>
    unfold Outcome.bind
    dsimp only
    rw [put_eq (hlength rfl)]

theorem encode_little (kind : IntKind) (n : Int) :
    kind.encode .little n = (kind.encode .big n).reverse :=
  (List.reverse_reverse _).symm

/-- **The bytes of an integer and back.** An integer that was accepted overwrites its window, is
read back from its bytes, and is the value that the writer keeps. All bytes of the width are read as
an integer that is accepted and has these bytes, and the byte orders are mirror images. -/
theorem codec_exact (kind : IntKind) (order : ByteOrder) :
    (∀ value n, kind.check value = .ok n →
      (kind.encode order n).length = kind.width ∧
      (∀ window, window.length = kind.width →
        kind.put order n window = kind.encode order n) ∧
      (∀ stream, kind.store order n stream = stream.put (kind.encode order n)) ∧
      kind.decode order (kind.encode order n) = n ∧
      kind.get order (kind.encode order n) = wideValue n ∧ wideValue n = .int n ∧
      ∀ (pass : Write.Pass) (name : Option String) (default : Option Value) (scope : Scope)
        (input : Input) (record : Fields Value), scope.fieldOrder kind.label = .ok order →
        (pass.resolve kind.label name default scope input record).outcome = .ok value →
        (pass.int kind name default scope input record).outcome =
          .ok (keep name record (wideValue n)) ∧
        (pass.int kind name default scope input record).steps =
          (pass.resolve kind.label name default scope input record).steps ++
            [.field scope.trail kind.label, .scalar (kind.encode order n)]) ∧
    (∀ bytes, bytes.length = kind.width →
      kind.get order bytes = .int (kind.decode order bytes) ∧
      kind.check (kind.get order bytes) = .ok (kind.decode order bytes) ∧
      kind.encode order (kind.decode order bytes) = bytes) ∧
    ∀ n, kind.encode .little n = (kind.encode .big n).reverse := by
  refine ⟨fun value n hcheck => ?_, fun bytes hlength => ?_, kind.encode_little⟩
  · have hholds := (holds_of_check hcheck).2
    have hvalue := wideValue_eq hholds
    have hback := decode_encode order hholds
    refine ⟨length_encode kind order n, fun _ => put_eq, store_eq kind order n, hback, ?_, hvalue,
      ?_⟩
    · rw [get_eq (length_encode kind order n), hback, hvalue]
    · intro pass name default scope input record horder hresolved
      rw [hvalue]
      exact Write.Pass.int_of_check horder hresolved hcheck
  · obtain ⟨hholds, hbytes⟩ := encode_decode order hlength
    have hvalue : kind.get order bytes = .int (kind.decode order bytes) := get_eq hlength
    exact ⟨hvalue, by rw [hvalue, check_int hholds], hbytes⟩

/-- The greatest integer of 64 bits, in a window that held something else. -/
theorem codec_exact_greatest :
    let greatest : Int := u64.max
    u64.put .little greatest [1, 2, 3, 4, 5, 6, 7, 8] = List.replicate 8 0xFF ∧
      u64.get .little (List.replicate 8 0xFF) = .int greatest ∧
      (Write.Pass.int { user := .null, nest := false } .u64 (some "size") none
        (.inFile .little "zoo.bin") (.within (.record [("size", .value (.int greatest))]))
        []).outcome = .ok (.int greatest, [("size", .int greatest)]) := by
  obtain ⟨-, hput, -, -, hget, hvalue, hwritten⟩ :=
    (codec_exact .u64 .little).1 (.int u64.max) u64.max rfl
  have hbytes : u64.encode .little u64.max = List.replicate 8 0xFF := by decide
  rw [hbytes] at hput hget
  have hkept := (hwritten { user := .null, nest := false } (some "size") none
    (.inFile .little "zoo.bin") (.within (.record [("size", .value (.int u64.max))])) [] rfl
    rfl).1
  rw [hvalue] at hget hkept
  exact ⟨hput _ rfl, hget, hkept⟩

end IntKind

end ByteLayout
