import ByteLayout.Proofs.Utf8
import ByteLayout.Proofs.Utf16
import ByteLayout.Proofs.Scalar

/-!
# Texts as payloads

**Theorem (`TextEncoding.encode_exact`).** An encoding has bytes for every text, except that LATIN1
has none for a text with a character above U+00FF. The bytes are read back as the text, and there
are as many as the encoding announces; that is the length which a string field puts in front.

**Theorem (`TextEncoding.decode_settles`).** Whatever bytes are read as a text, the text has bytes
again. They are the same if and only if the bytes were valid, and they are read as the same text in
any case: what a lossy decoder replaces, it replaces once.

The bytes that are valid are described by the bytes alone (`TextEncoding.Valid`), and so is what is
replaced (`TextEncoding.Repairs`); that these are the bytes of texts and the text that is read was
shown for each encoding.
-/

namespace ByteLayout

namespace TextEncoding

/-! ## What has bytes -/

/-- Only LATIN1 refuses, and names the first character that is too wide. -/
theorem encode_eq_error_iff {encoding : TextEncoding} {text : String} {c : Char} :
    encoding.encode text = .error c ↔ encoding = .latin1 ∧ firstWide? text.toList = some c := by
  cases encoding with
  | latin1 =>
    unfold encode
    dsimp only
    cases firstWide? text.toList <;> simp
  | utf16 => simp [encode]
  | utf8 => simp [encode]

theorem exists_firstWide?_iff {chars : List Char} :
    (∃ c, firstWide? chars = some c) ↔ ∃ c ∈ chars, 0xFF < c.toNat := by
  unfold firstWide?
  rw [← Option.isSome_iff_exists, List.find?_isSome]
  simp only [decide_eq_true_eq]

/-! ## What is valid -/

/-- Whether bytes are well formed, by the bytes alone: any bytes in LATIN1, whole units without an
unpaired surrogate in UTF-16, and well-formed sequences in UTF-8. -/
def Valid : TextEncoding → List UInt8 → Prop
  | latin1, _ => True
  | utf16, bytes => Utf16.Valid bytes
  | utf8, bytes => Utf8.Valid bytes

/-- **Valid bytes are those of a text.** -/
theorem valid_iff {encoding : TextEncoding} {bytes : List UInt8} :
    encoding.Valid bytes ↔ ∃ text, encoding.encode text = .ok bytes := by
  have hstrings (encodeChars : List Char → List UInt8) :
      (∃ chars, encodeChars chars = bytes) ↔
        ∃ text : String, Except.ok (ε := Char) (encodeChars text.toList) = .ok bytes := by
    simp only [Except.ok.injEq]
    exact ⟨fun ⟨chars, hchars⟩ => ⟨String.ofList chars, by rw [String.toList_ofList, hchars]⟩,
      fun ⟨text, htext⟩ => ⟨text.toList, htext⟩⟩
  cases encoding with
  | latin1 =>
    have hwellFormed : latin1.WellFormed bytes := trivial
    exact ⟨fun _ => hwellFormed.exists_encode, fun _ => trivial⟩
  | utf16 => exact Utf16.valid_iff.trans (hstrings Utf16.encode)
  | utf8 => exact Utf8.valid_iff.trans (hstrings Utf8.encode)

/-! ## What is repaired -/

/-- Bytes and the text that they are repaired to: every byte is a character in LATIN1, and what is
malformed in UTF-16 or UTF-8 is replaced by U+FFFD, a byte without a second one included. -/
def Repairs : TextEncoding → List UInt8 → String → Prop
  | latin1, bytes, text => text.toList.map Char.toNat = bytes.map UInt8.toNat
  | utf16, bytes, text => ∃ chars, Utf16.Repairs (Utf16.pairs bytes) chars ∧
    text.toList = chars ++ if bytes.length % 2 = 0 then [] else [Utf8.replacement]
  | utf8, bytes, text => Utf8.Repairs bytes text.toList

/-- **What bytes are read as is the only text to which they are repaired.** -/
theorem repairs_iff {encoding : TextEncoding} {bytes : List UInt8} {text : String} :
    encoding.Repairs bytes text ↔ encoding.decode bytes = text := by
  have htext (chars : List Char) : text.toList = chars ↔ String.ofList chars = text :=
    ⟨fun h => by rw [← h, String.ofList_toList], fun h => by rw [← h, String.toList_ofList]⟩
  cases encoding with
  | latin1 =>
    have hbyte (byte : UInt8) : (Char.ofNat byte.toNat).toNat = byte.toNat :=
      toNat_charOfNat (.inl (Nat.lt_trans byte.toNat_lt (by decide)))
    have hchars : bytes.map UInt8.toNat =
        (bytes.map fun byte => Char.ofNat byte.toNat).map Char.toNat := by
      rw [List.map_map]
      exact List.map_congr_left fun byte _ => (hbyte byte).symm
    have hinjective := List.map_injective_iff.mpr (Function.LeftInverse.injective Char.ofNat_toNat)
    rw [Repairs, decode, hchars, hinjective.eq_iff, htext]
  | utf16 =>
    simp only [Repairs, decode, Utf16.repairs_iff (Utf16.pairs_lt bytes), exists_eq_left',
      Utf16.decode_eq, htext]
  | utf8 =>
    rw [Repairs, decode, Utf8.repairs_iff, eq_comm, htext]

/-! ## Reading and writing again -/

/-- What was read has bytes. -/
theorem exists_encode_decode (encoding : TextEncoding) (bytes : List UInt8) :
    ∃ again, encoding.encode (encoding.decode bytes) = .ok again := by
  cases encoding with
  | latin1 =>
    have hwellFormed : latin1.WellFormed bytes := trivial
    exact ⟨bytes, encode_decode hwellFormed⟩
  | utf16 => exact ⟨_, rfl⟩
  | utf8 => exact ⟨_, rfl⟩

/-- **Lossy reading changes exactly the malformed bytes, and settles at once**: what is read has
bytes, which are the bytes that were read exactly if these were valid, and they are read as the same
text. That text is what the bytes are repaired to, and nothing else is. -/
theorem decode_settles (encoding : TextEncoding) (bytes : List UInt8) :
    ∃ again, encoding.encode (encoding.decode bytes) = .ok again ∧
      (again = bytes ↔ encoding.Valid bytes) ∧
      encoding.decode again = encoding.decode bytes ∧
      ∀ text, encoding.Repairs bytes text ↔ encoding.decode bytes = text := by
  obtain ⟨again, hagain⟩ := exists_encode_decode encoding bytes
  refine ⟨again, hagain, ⟨?_, fun hvalid => ?_⟩, decode_encode hagain, fun _ => repairs_iff⟩
  · rintro rfl
    exact valid_iff.mpr ⟨_, hagain⟩
  · obtain ⟨text, htext⟩ := valid_iff.mp hvalid
    rw [decode_encode htext, htext] at hagain
    exact (Except.ok.inj hagain).symm

end TextEncoding

/-! ## Strings in a layout -/

namespace Write.Pass

variable {pass : Pass} {kind : IntKind} {node : Node} {name : Option String}
  {default : Option Value} {scope : Scope} {input : Input} {record : Fields Value} {kept : Kept}

/-- A string field that is written has the number of its bytes in front of them, in a form that is
read back as that number. -/
theorem string_prefix {encoding : TextEncoding} {text : String} {bytes : List UInt8}
    (hbytes : encoding.encode text = .ok bytes) (hnode : node.kind = .text encoding)
    (hok : (pass.string kind node name default scope input record).outcome = .ok kept)
    (hkept : kept.1 = .string text) :
    ∃ order, scope.fieldOrder kind.label = .ok order ∧
      (pass.string kind node name default scope input record).steps =
        (pass.resolve kind.label name (node.default.or default) scope input record).steps ++
          [.field scope.trail kind.label, .scalar (kind.encode order bytes.length),
            .payload bytes] ∧
      kind.decode order (kind.encode order bytes.length) = bytes.length := by
  obtain ⟨order, encoding', content, bytes', horder, hnode', hcontent, hholds, rfl, hsteps⟩ :=
    string_eq_ok hok
  rw [keep_fst, Value.string.injEq] at hkept
  subst hkept
  obtain rfl : encoding = encoding' := by
    rw [hnode] at hnode'
    cases hnode'
    rfl
  obtain rfl : bytes = bytes' :=
    Except.ok.inj (hbytes.symm.trans (TextEncoding.encode_of_toBytes hcontent))
  rw [← TextEncoding.length_encode hbytes] at hholds hsteps
  exact ⟨order, horder, hsteps, IntKind.decode_encode order hholds⟩

end Write.Pass

namespace TextEncoding

/-- **A text and its bytes.** An encoding refuses a text only if it is LATIN1 and the text has a
character above U+00FF. The bytes of a text are read back as the text, and their number is the one
announced, which a write pass puts in front of them. -/
theorem encode_exact (encoding : TextEncoding) (text : String) :
    ((∃ c, encoding.encode text = .error c) ↔
      encoding = .latin1 ∧ ∃ c ∈ text.toList, 0xFF < c.toNat) ∧
    ∀ bytes, encoding.encode text = .ok bytes →
      encoding.decode bytes = text ∧ encoding.byteLength text = bytes.length ∧
      ∀ (pass : Write.Pass) (kind : IntKind) (node : Node) (name : Option String)
        (default : Option Value) (scope : Scope) (input : Input) (record : Fields Value)
        (kept : Kept), node.kind = .text encoding →
        (pass.string kind node name default scope input record).outcome = .ok kept →
        kept.1 = .string text →
        ∃ order, scope.fieldOrder kind.label = .ok order ∧
          (pass.string kind node name default scope input record).steps =
            (pass.resolve kind.label name (node.default.or default) scope input record).steps ++
              [.field scope.trail kind.label, .scalar (kind.encode order bytes.length),
                .payload bytes] ∧
          kind.decode order (kind.encode order bytes.length) = bytes.length := by
  refine ⟨?_, fun bytes hbytes => ⟨decode_encode hbytes, (length_encode hbytes).symm, ?_⟩⟩
  · simp only [encode_eq_error_iff, exists_and_left, exists_firstWide?_iff]
  · intro pass kind node name default scope input record kept hnode hok hkept
    exact Write.Pass.string_prefix hbytes hnode hok hkept

/-- A character of one unit and one of two. -/
def animal : String := "ż🐢"

/-- Its bytes in UTF-16. -/
def animalBytes : List UInt8 := [0x7C, 0x01, 0x3D, 0xD8, 0x22, 0xDC]

theorem encode_exact_animal :
    utf16.encode animal = .ok animalBytes ∧ utf16.decode animalBytes = animal ∧
      utf16.byteLength animal = 6 ∧
      ∃ before, (Write.Pass.string { user := .null, nest := false } .u16 (.ofKind (.text .utf16))
        (some "animal") none (.inFile .big "zoo.bin")
        (.within (.record [("animal", .value (.string animal))])) []).steps =
          before ++ [.field "zoo.bin" "U16", .scalar [0, 6], .payload animalBytes] := by
  have hbytes : utf16.encode animal = .ok animalBytes := by decide
  obtain ⟨hback, hlength, hwritten⟩ := (encode_exact .utf16 animal).2 animalBytes hbytes
  obtain ⟨order, horder, hsteps, -⟩ := hwritten { user := .null, nest := false } .u16
    (.ofKind (.text .utf16)) (some "animal") none (.inFile .big "zoo.bin")
    (.within (.record [("animal", .value (.string animal))])) [] _ rfl rfl rfl
  obtain rfl : ByteOrder.big = order := Except.ok.inj horder
  exact ⟨hbytes, hback, hlength, _, hsteps⟩

end TextEncoding

end ByteLayout
