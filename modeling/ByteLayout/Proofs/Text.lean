import ByteLayout.Text.Encoding
import Mathlib.Data.Char
import Mathlib.Tactic.IntervalCases

/-!
# Texts and their bytes

**Theorem (`TextEncoding.decode_encode`).** A text is read back from its bytes, in every encoding
that has bytes for it. **Theorem (`TextEncoding.length_encode`).** The number of bytes that an
encoding announces for a text is the number of bytes it has.

The decoders of UTF-8 and UTF-16 are machines that read one byte after the other. The bytes of one
character take a machine that waits for nothing to one that waits for nothing and has read the
character (`Utf8.read_encodeChar`, `Utf16.read_charUnits`); so those of a text take it through the
text.
-/

namespace ByteLayout

/-- The numbers that are characters: all up to the last but the surrogates. -/
theorem char_range (c : Char) : c.toNat < 0xD800 ∨ 0xDFFF < c.toNat ∧ c.toNat < 0x110000 := c.valid

theorem toNat_charOfNat {n : Nat} (h : n < 0xD800 ∨ 0xDFFF < n ∧ n < 0x110000) :
    (Char.ofNat n).toNat = n := by
  unfold Char.ofNat
  rw [dif_pos h]
  rfl

namespace Utf8

/-! ## UTF-8 -/

theorem toNat_continuation (n : Nat) : (continuation n).toNat = 0x80 + n % 64 :=
  UInt8.toNat_ofNat_of_lt' (show _ < 256 by omega)

/-- A byte in the range of an open sequence adds its six bits, and is followed by continuations. -/
theorem step_fits (text : List Char) (bits missing : Nat) {low high : Nat} {byte : UInt8}
    (hlow : low ≤ byte.toNat) (hhigh : byte.toNat ≤ high) :
    Machine.step ⟨text, some ⟨bits, missing + 2, low, high⟩⟩ byte =
      ⟨text, some ⟨bits * 64 + byte.toNat % 64, missing + 1, 0x80, 0xBF⟩⟩ := by
  have hmore : missing + 2 ≠ 1 := by omega
  unfold Machine.step
  dsimp only
  rw [if_pos ⟨hlow, hhigh⟩, if_neg hmore]
  rfl

section

variable (text : List Char) (bits missing : Nat) {low high n : Nat} (hlow : low ≤ 0x80 + n % 64)
  (hhigh : 0x80 + n % 64 ≤ high)

include hlow hhigh

theorem step_continuation :
    Machine.step ⟨text, some ⟨bits, missing + 2, low, high⟩⟩ (continuation n) =
      ⟨text, some ⟨bits * 64 + n % 64, missing + 1, 0x80, 0xBF⟩⟩ := by
  have hmod : (0x80 + n % 64) % 64 = n % 64 := by omega
  rw [← toNat_continuation] at hlow hhigh
  rw [step_fits text bits missing hlow hhigh, toNat_continuation, hmod]

/-- The last byte of a sequence ends it. -/
theorem step_last :
    Machine.step ⟨text, some ⟨bits, 1, low, high⟩⟩ (continuation n) =
      ⟨Char.ofNat (bits * 64 + n % 64) :: text, none⟩ := by
  have hmod : (0x80 + n % 64) % 64 = n % 64 := by omega
  unfold Machine.step
  simp only [toNat_continuation, hlow, hhigh, and_self, if_true, hmod]

end

/-- A lead byte opens a sequence. -/
theorem start_lead (text : List Char) {lead : Nat} {pending : Pending} (hlow : 0x80 ≤ lead)
    (hhigh : lead < 256) (hopen : open? lead = some pending) :
    Machine.step ⟨text, none⟩ (UInt8.ofNat lead) = ⟨text, some pending⟩ := by
  unfold Machine.step Machine.start
  simp only [UInt8.toNat_ofNat_of_lt' hhigh, hopen]
  exact if_neg (Nat.not_lt.mpr hlow)

theorem open?_two {k : Nat} (hlow : 2 ≤ k) (hhigh : k < 32) :
    open? (0xC0 + k) = some ⟨k, 1, 0x80, 0xBF⟩ := by
  interval_cases k <;> rfl

theorem open?_three {k : Nat} (h : k < 16) :
    open? (0xE0 + k) =
      some ⟨k, 2, if k = 0 then 0xA0 else 0x80, if k = 0xD then 0x9F else 0xBF⟩ := by
  interval_cases k <;> rfl

theorem open?_four {k : Nat} (h : k < 5) :
    open? (0xF0 + k) =
      some ⟨k, 3, if k = 0 then 0x90 else 0x80, if k = 4 then 0x8F else 0xBF⟩ := by
  interval_cases k <;> rfl

/-- **The bytes of a character are read as the character.** -/
theorem read_encodeChar (c : Char) (text : List Char) :
    (encodeChar c).foldl Machine.step ⟨text, none⟩ = ⟨c :: text, none⟩ := by
  have hrange := char_range c
  have hchar : ∀ n, n = c.toNat → Char.ofNat n = c := by
    rintro _ rfl
    exact Char.ofNat_toNat c
  unfold encodeChar
  generalize c.toNat = n at hrange hchar ⊢
  dsimp only
  by_cases hone : n < 0x80
  · rw [if_pos hone, List.foldl_cons, List.foldl_nil]
    unfold Machine.step Machine.start
    simp only [UInt8.toNat_ofNat_of_lt' (Nat.lt_trans hone (by decide)), hone, if_true, hchar n rfl]
  rw [if_neg hone]
  by_cases htwo : n < 0x800
  · rw [if_pos htwo, List.foldl_cons, List.foldl_cons, List.foldl_nil,
      start_lead text (by omega) (by omega) (open?_two (by omega) (by omega)),
      step_last _ _ (by omega) (by omega), hchar _ (by omega)]
  rw [if_neg htwo]
  by_cases hthree : n < 0x10000
  · rw [if_pos hthree, List.foldl_cons, List.foldl_cons, List.foldl_cons, List.foldl_nil,
      start_lead text (by omega) (by omega) (open?_three (by omega)),
      step_continuation _ _ 0 (by split <;> omega) (by split <;> omega),
      step_last _ _ (by omega) (by omega), hchar _ (by omega)]
  · rw [if_neg hthree, List.foldl_cons, List.foldl_cons, List.foldl_cons, List.foldl_cons,
      List.foldl_nil, start_lead text (by omega) (by omega) (open?_four (by omega)),
      step_continuation _ _ 1 (by split <;> omega) (by split <;> omega),
      step_continuation _ _ 0 (by omega) (by omega), step_last _ _ (by omega) (by omega),
      hchar _ (by omega)]

theorem read_encode (chars text : List Char) :
    (encode chars).foldl Machine.step ⟨text, none⟩ = ⟨chars.reverse ++ text, none⟩ := by
  unfold encode
  induction chars generalizing text with
  | nil => rfl
  | cons c rest ih =>
    rw [List.flatMap_cons, List.foldl_append, read_encodeChar, ih, List.reverse_cons,
      List.append_assoc, List.singleton_append]

theorem decode_encode (chars : List Char) : decode (encode chars) = chars := by
  unfold decode
  rw [read_encode, List.append_nil]
  exact List.reverse_reverse chars

/-- The bytes of a character are those that strings have for it. -/
theorem encodeChar_eq (c : Char) : encodeChar c = String.utf8EncodeChar c := by
  have hval : c.val.toNat = c.toNat := rfl
  have hrange := char_range c
  unfold encodeChar continuation String.utf8EncodeChar
  rw [hval]
  generalize c.toNat = n at hrange ⊢
  dsimp only
  -- both split at the same lengths; a remainder of the standard's says what the length says
  split_ifs <;> grind

/-- **The bytes of a text are those that the string consists of.** -/
theorem toByteArray_encode (chars : List Char) :
    (encode chars).toByteArray = (String.ofList chars).toByteArray := by
  rw [String.toByteArray_ofList, List.utf8Encode, ← funext encodeChar_eq, encode]

theorem length_encode (chars : List Char) :
    (encode chars).length = (String.ofList chars).utf8ByteSize := by
  rw [← List.size_toByteArray, toByteArray_encode]
  rfl

end Utf8

namespace Utf16

/-! ## UTF-16 -/

theorem isHighSurrogate_iff {unit : Nat} :
    isHighSurrogate unit = true ↔ 0xD800 ≤ unit ∧ unit < 0xDC00 := by
  unfold isHighSurrogate
  rw [Bool.and_eq_true, decide_eq_true_eq, decide_eq_true_eq]

theorem isLowSurrogate_iff {unit : Nat} :
    isLowSurrogate unit = true ↔ 0xDC00 ≤ unit ∧ unit < 0xE000 := by
  unfold isLowSurrogate
  rw [Bool.and_eq_true, decide_eq_true_eq, decide_eq_true_eq]

theorem step_plain (text : List Char) {unit : Nat} (hhigh : ¬isHighSurrogate unit = true)
    (hlow : ¬isLowSurrogate unit = true) :
    Machine.step ⟨text, none⟩ unit = ⟨Char.ofNat unit :: text, none⟩ := by
  unfold Machine.step Machine.start
  dsimp only
  rw [if_neg hhigh, if_neg hlow]

theorem step_high (text : List Char) {unit : Nat} (hhigh : isHighSurrogate unit = true) :
    Machine.step ⟨text, none⟩ unit = ⟨text, some unit⟩ := by
  unfold Machine.step Machine.start
  dsimp only
  rw [if_pos hhigh]

theorem step_low (text : List Char) (high : Nat) {unit : Nat}
    (hlow : isLowSurrogate unit = true) :
    Machine.step ⟨text, some high⟩ unit =
      ⟨Char.ofNat (0x10000 + (high - 0xD800) * 1024 + (unit - 0xDC00)) :: text, none⟩ := by
  unfold Machine.step
  dsimp only
  rw [if_pos hlow]

/-- **The units of a character are read as the character.** -/
theorem read_charUnits (c : Char) (text : List Char) :
    (charUnits c).foldl Machine.step ⟨text, none⟩ = ⟨c :: text, none⟩ := by
  have hrange := char_range c
  have hchar : ∀ n, n = c.toNat → Char.ofNat n = c := by
    rintro _ rfl
    exact Char.ofNat_toNat c
  unfold charUnits
  generalize c.toNat = n at hrange hchar ⊢
  dsimp only
  by_cases hone : n < 0x10000
  · rw [if_pos hone, List.foldl_cons, List.foldl_nil,
      step_plain text (by rw [isHighSurrogate_iff]; omega) (by rw [isLowSurrogate_iff]; omega),
      hchar n rfl]
  · rw [if_neg hone, List.foldl_cons, List.foldl_cons, List.foldl_nil,
      step_high text (isHighSurrogate_iff.mpr (by omega)),
      step_low text _ (isLowSurrogate_iff.mpr (by omega)), hchar _ (by omega)]

theorem read_units (chars text : List Char) :
    (units chars).foldl Machine.step ⟨text, none⟩ = ⟨chars.reverse ++ text, none⟩ := by
  unfold units
  induction chars generalizing text with
  | nil => rfl
  | cons c rest ih =>
    rw [List.flatMap_cons, List.foldl_append, read_charUnits, ih, List.reverse_cons,
      List.append_assoc, List.singleton_append]

theorem unit_lt {chars : List Char} {unit : Nat} (h : unit ∈ units chars) : unit < 0x10000 := by
  obtain ⟨c, -, hc⟩ := List.mem_flatMap.mp h
  have hrange := char_range c
  unfold charUnits at hc
  generalize c.toNat = n at hrange hc
  dsimp only at hc
  split at hc
  · next hless =>
    rw [List.mem_singleton.mp hc]
    exact hless
  · rw [List.mem_cons, List.mem_singleton] at hc
    omega

/-- The two bytes of a unit are read as the unit. -/
theorem read_unitBytes (machine : Machine) {unit : Nat} (h : unit < 0x10000) :
    (unitBytes unit).foldl ByteMachine.step ⟨machine, none⟩ = ⟨machine.step unit, none⟩ := by
  have hlow : (UInt8.ofNat unit).toNat = unit % 256 := UInt8.toNat_ofNat'
  have hhigh : (UInt8.ofNat (unit / 256)).toNat = unit / 256 :=
    UInt8.toNat_ofNat_of_lt' (show _ < 256 by omega)
  have hunit : unit % 256 + 256 * (unit / 256) = unit := Nat.mod_add_div unit 256
  unfold unitBytes
  rw [List.foldl_cons, List.foldl_cons, List.foldl_nil]
  unfold ByteMachine.step
  simp only [hlow, hhigh, hunit]

theorem read_bytes {list : List Nat} (h : ∀ unit ∈ list, unit < 0x10000) (machine : Machine) :
    (list.flatMap unitBytes).foldl ByteMachine.step ⟨machine, none⟩ =
      ⟨list.foldl Machine.step machine, none⟩ := by
  induction list generalizing machine with
  | nil => rfl
  | cons unit rest ih =>
    rw [List.flatMap_cons, List.foldl_append, read_unitBytes machine (h unit List.mem_cons_self),
      ih (fun other hother => h other (List.mem_cons_of_mem _ hother)), List.foldl_cons]

theorem decode_encode (chars : List Char) : decode (encode chars) = chars := by
  unfold decode encode
  have hunits : ∀ unit ∈ units chars, unit < 0x10000 := fun _ => unit_lt
  have hread := read_bytes hunits {}
  rw [hread, read_units chars [], List.append_nil]
  exact List.reverse_reverse chars

theorem length_flatMap_unitBytes (list : List Nat) :
    (list.flatMap unitBytes).length = 2 * list.length := by
  induction list with
  | nil => rfl
  | cons unit rest ih =>
    have hunit : (unitBytes unit).length = 2 := rfl
    rw [List.flatMap_cons, List.length_append, ih, hunit, List.length_cons, Nat.mul_succ,
      Nat.add_comm]

/-- Whether every surrogate has its partner: a high one stands in front of a low one, and a low one
behind a high one. -/
def Paired : List Nat → Prop
  | [] => True
  | [unit] => isHighSurrogate unit = false ∧ isLowSurrogate unit = false
  | unit :: next :: rest =>
    if isHighSurrogate unit then isLowSurrogate next = true ∧ Paired rest
    else isLowSurrogate unit = false ∧ Paired (next :: rest)

/-- A unit that is no surrogate is that of a character. -/
theorem exists_charUnits {unit : Nat} (h : unit < 0x10000) (hhigh : ¬isHighSurrogate unit = true)
    (hlow : ¬isLowSurrogate unit = true) : ∃ c, charUnits c = [unit] := by
  rw [isHighSurrogate_iff] at hhigh
  rw [isLowSurrogate_iff] at hlow
  refine ⟨Char.ofNat unit, ?_⟩
  unfold charUnits
  rw [toNat_charOfNat (by omega)]
  exact if_pos h

/-- Two surrogates that are partners are those of a character. -/
theorem exists_charUnits_pair {high low : Nat} (hhigh : isHighSurrogate high = true)
    (hlow : isLowSurrogate low = true) : ∃ c, charUnits c = [high, low] := by
  rw [isHighSurrogate_iff] at hhigh
  rw [isLowSurrogate_iff] at hlow
  obtain ⟨n, hn⟩ : ∃ n, n = 0x10000 + (high - 0xD800) * 1024 + (low - 0xDC00) := ⟨_, rfl⟩
  have hfirst : 0xD800 + (n - 0x10000) / 1024 = high := by omega
  have hsecond : 0xDC00 + (n - 0x10000) % 1024 = low := by omega
  refine ⟨Char.ofNat n, ?_⟩
  unfold charUnits
  rw [toNat_charOfNat (by omega)]
  dsimp only
  rw [if_neg (by omega), hfirst, hsecond]

/-- Units in which every surrogate has its partner are those of characters. -/
theorem exists_units {list : List Nat} (h : ∀ unit ∈ list, unit < 0x10000)
    (hpaired : Paired list) : ∃ chars, list = units chars := by
  fun_induction Paired list with
  | case1 => exact ⟨[], rfl⟩
  | case2 unit =>
    obtain ⟨c, hc⟩ :=
      exists_charUnits (h unit (by simp)) (by simp [hpaired.1]) (by simp [hpaired.2])
    exact ⟨[c], by simp [units, hc]⟩
  | case3 high low rest hhigh ih =>
    obtain ⟨hlow, hrest⟩ := hpaired
    obtain ⟨c, hc⟩ := exists_charUnits_pair hhigh hlow
    obtain ⟨chars, rfl⟩ := ih (fun unit hunit => h unit (by simp [hunit])) hrest
    exact ⟨c :: chars, by simp [units, hc]⟩
  | case4 unit next rest hhigh ih =>
    obtain ⟨hlow, hrest⟩ := hpaired
    obtain ⟨c, hc⟩ := exists_charUnits (h unit (by simp)) hhigh (by simp [hlow])
    obtain ⟨chars, hchars⟩ := ih (fun unit hunit => h unit (List.mem_cons_of_mem _ hunit)) hrest
    exact ⟨c :: chars, by rw [hchars, units, units, List.flatMap_cons, hc, List.singleton_append]⟩

end Utf16

namespace TextEncoding

/-! ## Encodings -/

theorem toNat_le_of_firstWide? {chars : List Char} (h : firstWide? chars = none) {c : Char}
    (hc : c ∈ chars) : c.toNat ≤ 0xFF := by
  have hnot := List.find?_eq_none.mp h c hc
  rw [decide_eq_true_eq] at hnot
  exact Nat.le_of_not_lt hnot

/-- **A text is read back from its bytes.** -/
theorem decode_encode {encoding : TextEncoding} {text : String} {bytes : List UInt8}
    (h : encoding.encode text = .ok bytes) : encoding.decode bytes = text := by
  cases encoding with
  | latin1 =>
    unfold encode at h
    dsimp only at h
    split at h
    · cases h
    · next hwide =>
      cases h
      have hback : (text.toList.map fun c => UInt8.ofNat c.toNat).map
          (fun b => Char.ofNat b.toNat) = text.toList := by
        rw [List.map_map]
        refine (List.map_congr_left fun c hc => ?_).trans (List.map_id _)
        have hle := toNat_le_of_firstWide? hwide hc
        show Char.ofNat (UInt8.ofNat c.toNat).toNat = c
        rw [UInt8.toNat_ofNat_of_lt' (Nat.lt_succ_of_le hle), Char.ofNat_toNat]
      show String.ofList _ = text
      rw [hback, String.ofList_toList]
  | utf16 =>
    cases h
    show String.ofList (Utf16.decode (Utf16.encode text.toList)) = text
    rw [Utf16.decode_encode, String.ofList_toList]
  | utf8 =>
    cases h
    show String.ofList (Utf8.decode (Utf8.encode text.toList)) = text
    rw [Utf8.decode_encode, String.ofList_toList]

/-- **An encoding announces as many bytes as a text has.** -/
theorem length_encode {encoding : TextEncoding} {text : String} {bytes : List UInt8}
    (h : encoding.encode text = .ok bytes) : bytes.length = encoding.byteLength text := by
  cases encoding with
  | latin1 =>
    unfold encode at h
    dsimp only at h
    split at h
    · cases h
    · cases h
      rw [List.length_map]
      exact String.length_toList
  | utf16 =>
    cases h
    exact Utf16.length_flatMap_unitBytes _
  | utf8 =>
    cases h
    rw [Utf8.length_encode, String.ofList_toList]
    rfl

/-! ## Well-formed bytes -/

/-- Whether bytes are well formed: any bytes in LATIN1, whole units in which every surrogate has its
partner in UTF-16, and the bytes of characters in UTF-8. -/
def WellFormed : TextEncoding → List UInt8 → Prop
  | latin1, _ => True
  | utf16, bytes => ∃ units : List Nat, (∀ unit ∈ units, unit < 0x10000) ∧ Utf16.Paired units ∧
    bytes = units.flatMap Utf16.unitBytes
  | utf8, bytes => ∃ chars, bytes = Utf8.encode chars

/-- Well-formed bytes are the bytes of a text. -/
theorem WellFormed.exists_encode {encoding : TextEncoding} {bytes : List UInt8}
    (h : encoding.WellFormed bytes) : ∃ text, encoding.encode text = .ok bytes := by
  cases encoding with
  | latin1 =>
    have hchar : ∀ byte : UInt8, (Char.ofNat byte.toNat).toNat = byte.toNat := fun byte =>
      toNat_charOfNat (.inl (Nat.lt_trans byte.toNat_lt (by decide)))
    have hnarrow : firstWide? (bytes.map fun byte => Char.ofNat byte.toNat) = none := by
      refine List.find?_eq_none.mpr fun c hc => ?_
      obtain ⟨byte, -, rfl⟩ := List.mem_map.mp hc
      have hlt := byte.toNat_lt
      rw [decide_eq_true_eq, hchar]
      omega
    refine ⟨String.ofList (bytes.map fun byte => Char.ofNat byte.toNat), ?_⟩
    simp [encode, hnarrow, hchar, Function.comp_def]
  | utf16 =>
    obtain ⟨units, hunits, hpaired, rfl⟩ := h
    obtain ⟨chars, rfl⟩ := Utf16.exists_units hunits hpaired
    exact ⟨String.ofList chars, by simp [encode, Utf16.encode]⟩
  | utf8 =>
    obtain ⟨chars, rfl⟩ := h
    exact ⟨String.ofList chars, by simp [encode]⟩

/-- **Well-formed bytes are the bytes of the text that is read from them.** -/
theorem encode_decode {encoding : TextEncoding} {bytes : List UInt8}
    (h : encoding.WellFormed bytes) : encoding.encode (encoding.decode bytes) = .ok bytes := by
  obtain ⟨text, htext⟩ := h.exists_encode
  rw [decode_encode htext, htext]

theorem encode_of_toBytes {encoding : TextEncoding} {text : String} {bytes : List UInt8}
    (h : encoding.toBytes text = .ok bytes) : encoding.encode text = .ok bytes := by
  unfold toBytes at h
  split at h
  · next hbytes => rw [hbytes, Except.ok.inj h]
  · cases h

end TextEncoding

end ByteLayout
