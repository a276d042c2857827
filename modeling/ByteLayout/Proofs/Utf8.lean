import ByteLayout.Proofs.Text
import Mathlib.Data.List.Forall2

/-!
# Well-formed and ill-formed UTF-8

The standard gives UTF-8 by a table: nine rows of byte ranges, a sequence for one character being
what lies in the ranges of a row (`Utf8.table`). **Theorem (`Utf8.sequence_iff`).** These sequences
are exactly the encodings of characters. So byte strings cut into sequences are exactly those of
texts (`Utf8.valid_iff`).

A lossy decoder replaces each **maximal subpart** of what is ill-formed by U+FFFD: at an offset
where no sequence lies, the longest part that still begins one, or else a single byte
(`Utf8.Repairs`). **Theorem (`Utf8.repairs_iff`).** That is what the machine does, whatever bytes it
reads, and there is only one text that it can mean.

The machine does not know the table. What it has left to read of an open sequence is the rest of a
row (`Pending.ranges`), and what a first byte opens is the rest of the row that it fits
(`sequence_cons_iff`).
-/

namespace ByteLayout.Utf8

/-! ## The table -/

/-- A byte lies in a range. -/
def Fits (range : Nat × Nat) (byte : UInt8) : Prop := range.1 ≤ byte.toNat ∧ byte.toNat ≤ range.2

instance (range : Nat × Nat) (byte : UInt8) : Decidable (Fits range byte) :=
  inferInstanceAs (Decidable (_ ∧ _))

/-- The range of a continuation byte. -/
def tail : Nat × Nat := (0x80, 0xBF)

/-- The rows of the table: the ranges of the bytes, first to last. -/
def table : List (List (Nat × Nat)) :=
  [[(0x00, 0x7F)],
    [(0xC2, 0xDF), tail],
    [(0xE0, 0xE0), (0xA0, 0xBF), tail],
    [(0xE1, 0xEC), tail, tail],
    [(0xED, 0xED), (0x80, 0x9F), tail],
    [(0xEE, 0xEF), tail, tail],
    [(0xF0, 0xF0), (0x90, 0xBF), tail, tail],
    [(0xF1, 0xF3), tail, tail, tail],
    [(0xF4, 0xF4), (0x80, 0x8F), tail, tail]]

/-- A well-formed sequence: bytes in the ranges of a row. -/
def Sequence (bytes : List UInt8) : Prop := ∃ row ∈ table, List.Forall₂ Fits row bytes

/-- Sequences one after the other. -/
inductive Valid : List UInt8 → Prop where
  | nil : Valid []
  | append {head rest : List UInt8} (hhead : Sequence head) (hrest : Valid rest) :
    Valid (head ++ rest)

variable {a b c d : UInt8}

theorem sequence_one : Sequence [a] ↔ a.toNat ≤ 0x7F := by
  simp [Sequence, table, Fits]

theorem sequence_two :
    Sequence [a, b] ↔ (0xC2 ≤ a.toNat ∧ a.toNat ≤ 0xDF) ∧ Fits tail b := by
  simp [Sequence, table, Fits]

theorem sequence_three :
    Sequence [a, b, c] ↔ (0xE0 ≤ a.toNat ∧ a.toNat ≤ 0xEF) ∧ Fits tail b ∧ Fits tail c ∧
      (a.toNat = 0xE0 → 0xA0 ≤ b.toNat) ∧ (a.toNat = 0xED → b.toNat ≤ 0x9F) := by
  simp only [Sequence, table, tail, Fits, List.mem_cons, List.not_mem_nil, or_false,
    exists_eq_or_imp, exists_eq_left, List.forall₂_cons, List.forall₂_nil_left_iff,
    List.forall₂_nil_right_iff, List.cons_ne_nil, and_true, and_false, false_or, or_self]
  omega

theorem sequence_four :
    Sequence [a, b, c, d] ↔ (0xF0 ≤ a.toNat ∧ a.toNat ≤ 0xF4) ∧ Fits tail b ∧ Fits tail c ∧
      Fits tail d ∧ (a.toNat = 0xF0 → 0x90 ≤ b.toNat) ∧ (a.toNat = 0xF4 → b.toNat ≤ 0x8F) := by
  simp only [Sequence, table, tail, Fits, List.mem_cons, List.not_mem_nil, or_false,
    exists_eq_or_imp, exists_eq_left, List.forall₂_cons, List.forall₂_nil_left_iff,
    List.forall₂_nil_right_iff, List.cons_ne_nil, and_true, and_false, false_or]
  omega

theorem not_sequence_nil : ¬Sequence [] := by
  rintro ⟨row, hrow, hfits⟩
  rw [List.forall₂_nil_right_iff.mp hfits] at hrow
  exact absurd hrow (by decide)

theorem length_le_of_sequence {bytes : List UInt8} (h : Sequence bytes) : bytes.length ≤ 4 := by
  obtain ⟨row, hrow, hfits⟩ := h
  have hrows : ∀ row ∈ table, row.length ≤ 4 := by decide
  rw [← hfits.length_eq]
  exact hrows row hrow

/-! ## The machine and the table -/

/-- The ranges of the bytes that are missing from an open sequence. -/
def Pending.ranges (pending : Pending) : List (Nat × Nat) :=
  (pending.low, pending.high) :: List.replicate (pending.missing - 1) tail

theorem open?_three_plain {k : Nat} (h : k < 16) (hfirst : k ≠ 0) (hmiddle : k ≠ 0xD) :
    open? (0xE0 + k) = some ⟨k, 2, 0x80, 0xBF⟩ := by
  rw [open?_three h, if_neg hfirst, if_neg hmiddle]

theorem open?_four_plain {k : Nat} (h : k < 4) (hfirst : k ≠ 0) :
    open? (0xF0 + k) = some ⟨k, 3, 0x80, 0xBF⟩ := by
  rw [open?_four (Nat.lt_succ_of_lt h), if_neg hfirst, if_neg h.ne]

/-- A first byte is a character of its own or opens the rest of the row that it fits. -/
theorem open?_of_row {range : Nat × Nat} {rest : List (Nat × Nat)} (hrow : range :: rest ∈ table)
    (hfits : Fits range a) :
    a.toNat < 0x80 ∧ rest = [] ∨
      ∃ pending, open? a.toNat = some pending ∧ pending.ranges = rest := by
  obtain ⟨hlow, hhigh⟩ := hfits
  generalize a.toNat = n at hlow hhigh ⊢
  simp only [table, List.mem_cons, List.cons.injEq, List.not_mem_nil, or_false] at hrow
  rcases hrow with ⟨rfl, rfl⟩ | ⟨rfl, rfl⟩ | ⟨rfl, rfl⟩ | ⟨rfl, rfl⟩ | ⟨rfl, rfl⟩ | ⟨rfl, rfl⟩ |
    ⟨rfl, rfl⟩ | ⟨rfl, rfl⟩ | ⟨rfl, rfl⟩
  all_goals dsimp only at hlow hhigh
  · exact .inl ⟨Nat.lt_succ_of_le hhigh, rfl⟩
  · obtain ⟨k, rfl⟩ := Nat.exists_eq_add_of_le (Nat.le_trans (by decide : 0xC0 ≤ 0xC2) hlow)
    exact .inr ⟨_, open?_two (by omega) (by omega), rfl⟩
  · obtain rfl := Nat.le_antisymm hhigh hlow
    exact .inr ⟨_, rfl, rfl⟩
  · obtain ⟨k, rfl⟩ := Nat.exists_eq_add_of_le (Nat.le_trans (by decide : 0xE0 ≤ 0xE1) hlow)
    exact .inr ⟨_, open?_three_plain (by omega) (by omega) (by omega), rfl⟩
  · obtain rfl := Nat.le_antisymm hhigh hlow
    exact .inr ⟨_, rfl, rfl⟩
  · obtain ⟨k, rfl⟩ := Nat.exists_eq_add_of_le (Nat.le_trans (by decide : 0xE0 ≤ 0xEE) hlow)
    exact .inr ⟨_, open?_three_plain (by omega) (by omega) (by omega), rfl⟩
  · obtain rfl := Nat.le_antisymm hhigh hlow
    exact .inr ⟨_, rfl, rfl⟩
  · obtain ⟨k, rfl⟩ := Nat.exists_eq_add_of_le (Nat.le_trans (by decide : 0xF0 ≤ 0xF1) hlow)
    exact .inr ⟨_, open?_four_plain (by omega) (by omega), rfl⟩
  · obtain rfl := Nat.le_antisymm hhigh hlow
    exact .inr ⟨_, rfl, rfl⟩

theorem lead_of_open? {n : Nat} {pending : Pending} (h : open? n = some pending) :
    (0xC2 ≤ n ∧ n ≤ 0xDF) ∨ (0xE0 ≤ n ∧ n ≤ 0xEF) ∨ (0xF0 ≤ n ∧ n ≤ 0xF4) := by
  by_contra hnone
  have hopen : open? n = none := by
    unfold open?
    simp (disch := omega) only [if_neg]
  rw [hopen] at h
  cases h

/-- What a first byte opens is the rest of a row that it fits. -/
theorem row_of_open? {n : Nat} {pending : Pending} (h : open? n = some pending) :
    ∃ range, range :: pending.ranges ∈ table ∧ range.1 ≤ n ∧ n ≤ range.2 := by
  -- a row is the one at its place in the table, whatever bits the first byte contributes
  have hrow {range : Nat × Nat} {other : Pending} (index : Nat)
      (hindex : table[index]? = some (range :: other.ranges)) (hother : open? n = some other)
      (hlow : range.1 ≤ n) (hhigh : n ≤ range.2) :
      ∃ range, range :: pending.ranges ∈ table ∧ range.1 ≤ n ∧ n ≤ range.2 := by
    obtain rfl := Option.some.inj (hother.symm.trans h)
    exact ⟨range, List.mem_of_getElem? hindex, hlow, hhigh⟩
  rcases lead_of_open? h with ⟨hlow, hhigh⟩ | ⟨hlow, hhigh⟩ | ⟨hlow, hhigh⟩
  · obtain ⟨k, rfl⟩ := Nat.exists_eq_add_of_le (Nat.le_trans (by decide : 0xC0 ≤ 0xC2) hlow)
    exact hrow 1 rfl (open?_two (by omega) (by omega)) hlow hhigh
  · obtain ⟨k, rfl⟩ := Nat.exists_eq_add_of_le hlow
    rcases (by omega : k = 0 ∨ (0 < k ∧ k < 0xD) ∨ k = 0xD ∨ 0xD < k) with rfl | hk | rfl | hk
    · exact hrow 2 rfl rfl le_rfl le_rfl
    · exact hrow 3 rfl (open?_three_plain (by omega) (by omega) (by omega)) (by omega) (by omega)
    · exact hrow 4 rfl rfl le_rfl le_rfl
    · exact hrow 5 rfl (open?_three_plain (by omega) (by omega) (by omega)) (by omega) (by omega)
  · obtain ⟨k, rfl⟩ := Nat.exists_eq_add_of_le hlow
    rcases (by omega : k = 0 ∨ (0 < k ∧ k < 4) ∨ k = 4) with rfl | hk | rfl
    · exact hrow 6 rfl rfl le_rfl le_rfl
    · exact hrow 7 rfl (open?_four_plain (by omega) (by omega)) (by omega) (by omega)
    · exact hrow 8 rfl rfl le_rfl le_rfl

/-- **A sequence, by its first byte.** -/
theorem sequence_cons_iff {more : List UInt8} :
    Sequence (a :: more) ↔ a.toNat < 0x80 ∧ more = [] ∨
      ∃ pending, open? a.toNat = some pending ∧ List.Forall₂ Fits pending.ranges more := by
  constructor
  · rintro ⟨row, hrow, hfits⟩
    obtain ⟨range, rest, hfirst, hrest, rfl⟩ := List.forall₂_cons_right_iff.mp hfits
    rcases open?_of_row hrow hfirst with ⟨hsmall, rfl⟩ | ⟨pending, hopen, rfl⟩
    · exact .inl ⟨hsmall, List.forall₂_nil_left_iff.mp hrest⟩
    · exact .inr ⟨pending, hopen, hrest⟩
  · rintro (⟨hsmall, rfl⟩ | ⟨pending, hopen, hfits⟩)
    · exact sequence_one.mpr (Nat.le_of_lt_succ hsmall)
    · obtain ⟨range, hrow, hfirst⟩ := row_of_open? hopen
      exact ⟨_, hrow, .cons hfirst hfits⟩

/-! ## Sequences and characters -/

/-- The bytes of an encoding fit a row, of the length that the character takes. -/
theorem sequence_encodeChar (c : Char) : Sequence (encodeChar c) := by
  have hrange := char_range c
  unfold encodeChar
  generalize c.toNat = n at hrange ⊢
  dsimp only
  by_cases hone : n < 0x80
  · rw [if_pos hone, sequence_one, UInt8.toNat_ofNat_of_lt' (show _ < 256 by omega)]
    omega
  rw [if_neg hone]
  by_cases htwo : n < 0x800
  · rw [if_pos htwo, sequence_two, Fits, UInt8.toNat_ofNat_of_lt' (show _ < 256 by omega),
      toNat_continuation]
    simp only [tail]
    omega
  rw [if_neg htwo]
  by_cases hthree : n < 0x10000
  · rw [if_pos hthree, sequence_three, UInt8.toNat_ofNat_of_lt' (show _ < 256 by omega)]
    simp only [Fits, toNat_continuation, tail]
    omega
  · rw [if_neg hthree, sequence_four, UInt8.toNat_ofNat_of_lt' (show _ < 256 by omega)]
    simp only [Fits, toNat_continuation, tail]
    omega

theorem exists_encodeChar_two (h : Sequence [a, b]) : ∃ c, encodeChar c = [a, b] := by
  have hab := sequence_two.mp h
  simp only [Fits, tail] at hab
  obtain ⟨n, hn⟩ : ∃ n, n = (a.toNat - 0xC0) * 64 + (b.toNat - 0x80) := ⟨_, rfl⟩
  have ha : 0xC0 + n / 64 = a.toNat := by omega
  have hb : 0x80 + n % 64 = b.toNat := by omega
  refine ⟨Char.ofNat n, ?_⟩
  unfold encodeChar continuation
  rw [toNat_charOfNat (by omega)]
  dsimp only
  rw [if_neg (by omega), if_pos (by omega), ha, hb]
  simp only [UInt8.ofNat_toNat]

theorem exists_encodeChar_three (h : Sequence [a, b, c]) : ∃ char, encodeChar char = [a, b, c] := by
  have habc := sequence_three.mp h
  simp only [Fits, tail] at habc
  obtain ⟨n, hn⟩ : ∃ n, n = (a.toNat - 0xE0) * 4096 + (b.toNat - 0x80) * 64 + (c.toNat - 0x80) :=
    ⟨_, rfl⟩
  have ha : 0xE0 + n / 4096 = a.toNat := by omega
  have hb : 0x80 + n / 64 % 64 = b.toNat := by omega
  have hc : 0x80 + n % 64 = c.toNat := by omega
  refine ⟨Char.ofNat n, ?_⟩
  unfold encodeChar continuation
  rw [toNat_charOfNat (by omega)]
  dsimp only
  rw [if_neg (by omega), if_neg (by omega), if_pos (by omega), ha, hb, hc]
  simp only [UInt8.ofNat_toNat]

theorem exists_encodeChar_four (h : Sequence [a, b, c, d]) :
    ∃ char, encodeChar char = [a, b, c, d] := by
  have habcd := sequence_four.mp h
  simp only [Fits, tail] at habcd
  obtain ⟨n, hn⟩ : ∃ n, n = (a.toNat - 0xF0) * 262144 + (b.toNat - 0x80) * 4096 +
      (c.toNat - 0x80) * 64 + (d.toNat - 0x80) := ⟨_, rfl⟩
  have ha : 0xF0 + n / 262144 = a.toNat := by omega
  have hb : 0x80 + n / 4096 % 64 = b.toNat := by omega
  have hc : 0x80 + n / 64 % 64 = c.toNat := by omega
  have hd : 0x80 + n % 64 = d.toNat := by omega
  refine ⟨Char.ofNat n, ?_⟩
  unfold encodeChar continuation
  rw [toNat_charOfNat (by omega)]
  dsimp only
  rw [if_neg (by omega), if_neg (by omega), if_neg (by omega), ha, hb, hc, hd]
  simp only [UInt8.ofNat_toNat]

/-- The character of a sequence is collected from the low bits of its bytes. -/
theorem exists_encodeChar {bytes : List UInt8} (h : Sequence bytes) :
    ∃ char, encodeChar char = bytes := by
  have hlength := length_le_of_sequence h
  rcases bytes with _ | ⟨a, _ | ⟨b, _ | ⟨c, _ | ⟨d, _ | ⟨e, rest⟩⟩⟩⟩⟩
  · exact absurd h not_sequence_nil
  · have ha := sequence_one.mp h
    refine ⟨Char.ofNat a.toNat, ?_⟩
    unfold encodeChar
    rw [toNat_charOfNat (by omega)]
    dsimp only
    rw [if_pos (by omega), UInt8.ofNat_toNat]
  · exact exists_encodeChar_two h
  · exact exists_encodeChar_three h
  · exact exists_encodeChar_four h
  · simp only [List.length_cons] at hlength
    omega

/-- **A well-formed sequence is the encoding of a character.** -/
theorem sequence_iff {bytes : List UInt8} : Sequence bytes ↔ ∃ c, encodeChar c = bytes :=
  ⟨exists_encodeChar, fun ⟨c, hc⟩ => hc ▸ sequence_encodeChar c⟩

/-- **Valid bytes are those of a text.** -/
theorem valid_iff {bytes : List UInt8} : Valid bytes ↔ ∃ chars, encode chars = bytes := by
  constructor
  · intro h
    induction h with
    | nil => exact ⟨[], rfl⟩
    | append hhead _ ih =>
      obtain ⟨c, rfl⟩ := sequence_iff.mp hhead
      obtain ⟨chars, rfl⟩ := ih
      exact ⟨c :: chars, rfl⟩
  · rintro ⟨chars, rfl⟩
    induction chars with
    | nil => exact .nil
    | cons c rest ih => exact .append (sequence_iff.mpr ⟨c, rfl⟩) ih

/-! ## Ill-formed parts -/

/-- Bytes that more bytes could continue to a sequence. -/
def Begins (bytes : List UInt8) : Prop := ∃ more, Sequence (bytes ++ more)

/-- A maximal subpart of what is ill-formed: no sequence lies at its beginning, and it is the
longest part that begins a sequence, or a single byte if there is none. -/
structure Subpart (part rest : List UInt8) : Prop where
  illFormed : ∀ head more, part ++ rest = head ++ more → ¬Sequence head
  ne_nil : part ≠ []
  begins : Begins part ∨ part.length = 1
  longest : ∀ next more, rest = next ++ more → next ≠ [] → ¬Begins (part ++ next)

/-- Bytes and the text that they are repaired to: the characters of the sequences, and U+FFFD for
each maximal subpart of what is ill-formed. -/
inductive Repairs : List UInt8 → List Char → Prop where
  | nil : Repairs [] []
  | char (c : Char) {rest : List UInt8} {text : List Char} (hrest : Repairs rest text) :
    Repairs (encodeChar c ++ rest) (c :: text)
  | subpart {part rest : List UInt8} {text : List Char} (hpart : Subpart part rest)
    (hrest : Repairs rest text) : Repairs (part ++ rest) (replacement :: text)

/-! ## What the machine repairs -/

/-- The text that a machine reads from bytes. -/
def Machine.read (machine : Machine) (bytes : List UInt8) : List Char :=
  (bytes.foldl Machine.step machine).finish

/-- A step puts characters in front of what was read before, and looks at none of it. -/
theorem step_text (text : List Char) (pending : Option Pending) (byte : UInt8) :
    Machine.step ⟨text, pending⟩ byte =
      ⟨(Machine.step ⟨[], pending⟩ byte).text ++ text,
        (Machine.step ⟨[], pending⟩ byte).pending⟩ := by
  have hstart (text : List Char) : Machine.start text byte =
      ⟨(Machine.start [] byte).text ++ text, (Machine.start [] byte).pending⟩ := by
    unfold Machine.start
    dsimp only
    split
    · rfl
    · cases open? byte.toNat <;> rfl
  cases pending with
  | none => exact hstart text
  | some pending =>
    unfold Machine.step
    dsimp only
    by_cases hfits : pending.low ≤ byte.toNat ∧ byte.toNat ≤ pending.high
    · simp only [if_pos hfits]
      split <;> rfl
    · simp only [if_neg hfits]
      rw [hstart (replacement :: text), hstart [replacement], List.append_assoc]
      rfl

/-- What was read before comes first in the text. -/
theorem read_text (text : List Char) (pending : Option Pending) (bytes : List UInt8) :
    Machine.read ⟨text, pending⟩ bytes = text.reverse ++ Machine.read ⟨[], pending⟩ bytes := by
  induction bytes generalizing text pending with
  | nil => cases pending <;> simp [Machine.read, Machine.finish]
  | cons byte rest ih =>
    have hstep (machine : Machine) :
      machine.read (byte :: rest) = (machine.step byte).read rest := rfl
    rw [hstep, hstep, step_text, ih, ih (Machine.step ⟨[], pending⟩ byte).text,
      List.reverse_append, List.append_assoc]

/-- The encoding of a character is read as the character, whatever follows. -/
theorem decode_encodeChar_append (c : Char) (rest : List UInt8) :
    decode (encodeChar c ++ rest) = c :: decode rest := by
  have hread : decode (encodeChar c ++ rest) = Machine.read ⟨[c], none⟩ rest := by
    unfold decode Machine.read
    rw [List.foldl_append, read_encodeChar]
  rw [hread, read_text]
  rfl

/-- Bytes that fit the beginning of a row. -/
def Along (ranges : List (Nat × Nat)) (bytes : List UInt8) : Prop :=
  ∃ more, List.Forall₂ Fits ranges (bytes ++ more)

/-- A sequence may be open: a byte is missing, and there is one that fits. -/
structure Pending.Open (pending : Pending) : Prop where
  missing_pos : 0 < pending.missing
  low_le : pending.low ≤ pending.high
  high_lt : pending.high < 256

theorem open_of_open? {n : Nat} {pending : Pending} (h : open? n = some pending) :
    pending.Open := by
  unfold open? at h
  split_ifs at h <;> obtain rfl := Option.some.inj h <;>
    exact ⟨Nat.le_of_ble_eq_true rfl, Nat.le_of_ble_eq_true rfl, Nat.le_of_ble_eq_true rfl⟩

theorem along_nil {pending : Pending} (h : pending.Open) : Along pending.ranges [] := by
  have htails (n : Nat) : List.Forall₂ Fits (List.replicate n tail) (List.replicate n 0x80) := by
    induction n with
    | zero => exact .nil
    | succ n ih => exact .cons (by decide) ih
  have hlow : (UInt8.ofNat pending.low).toNat = pending.low :=
    UInt8.toNat_ofNat_of_lt' (Nat.lt_of_le_of_lt h.low_le h.high_lt)
  exact ⟨_, .cons ⟨Nat.le_of_eq hlow.symm, hlow.le.trans h.low_le⟩ (htails _)⟩

/-- A byte that does not fit an open sequence breaks it off, and is read as a first byte. -/
theorem read_unfit {pending : Pending} {byte : UInt8} (h : ¬Fits (pending.low, pending.high) byte)
    (text : List Char) (bytes : List UInt8) :
    Machine.read ⟨text, some pending⟩ (byte :: bytes) =
      Machine.read ⟨replacement :: text, none⟩ (byte :: bytes) := by
  have hstep : Machine.step ⟨text, some pending⟩ byte =
      Machine.step ⟨replacement :: text, none⟩ byte := by
    unfold Machine.step
    dsimp only
    exact if_neg h
  unfold Machine.read
  rw [List.foldl_cons, hstep]
  rfl

/-- **An open sequence that is not completed** is replaced together with the bytes that fitted it,
and the machine goes on with the first that did not. -/
theorem read_open {pending : Pending} (hopen : pending.Open) (text : List Char) (bytes : List UInt8)
    (hnone : ∀ head rest, bytes = head ++ rest → ¬List.Forall₂ Fits pending.ranges head) :
    ∃ head rest, bytes = head ++ rest ∧ Along pending.ranges head ∧
      (∀ next more, rest = next :: more → ¬Along pending.ranges (head ++ [next])) ∧
      Machine.read ⟨text, some pending⟩ bytes = Machine.read ⟨replacement :: text, none⟩ rest := by
  induction bytes generalizing pending with
  | nil => exact ⟨[], [], rfl, along_nil hopen, by simp, rfl⟩
  | cons byte bytes ih =>
    by_cases hfits : Fits (pending.low, pending.high) byte
    · obtain ⟨bits, _ | _ | missing, low, high⟩ := pending
      · exact absurd hopen.missing_pos (Nat.lt_irrefl 0)
      · exact absurd (.cons hfits .nil) (hnone [byte] bytes rfl)
      -- the byte fits and is not the last: what is missing after it is not completed either
      · have hnext : Pending.Open ⟨bits * 64 + byte.toNat % 64, missing + 1, 0x80, 0xBF⟩ :=
          ⟨Nat.succ_pos missing, (by decide : 0x80 ≤ 0xBF), (by decide : 0xBF < 256)⟩
        obtain ⟨head, rest, rfl, ⟨more, halong⟩, hend, hread⟩ := ih hnext fun head rest h hhead =>
          hnone (byte :: head) rest (congrArg (byte :: ·) h) (.cons hfits hhead)
        refine ⟨byte :: head, rest, rfl, ⟨more, .cons hfits halong⟩, ?_, ?_⟩
        · rintro next more rfl ⟨others, hothers⟩
          exact hend next more rfl ⟨others, (List.forall₂_cons.mp hothers).2⟩
        · rw [← hread, ← step_fits text bits missing hfits.1 hfits.2]
          rfl
    · refine ⟨[], byte :: bytes, rfl, along_nil hopen, ?_, read_unfit hfits text bytes⟩
      rintro next more ⟨rfl, rfl⟩ ⟨others, hothers⟩
      exact hfits (List.forall₂_cons.mp hothers).1

/-- What begins a sequence after a first byte that opens one. -/
theorem begins_cons_iff {pending : Pending} {head : List UInt8}
    (hopen : open? a.toNat = some pending) : Begins (a :: head) ↔ Along pending.ranges head := by
  have hlarge : ¬a.toNat < 0x80 := by
    have hlead := lead_of_open? hopen
    omega
  refine exists_congr fun more => ?_
  rw [List.cons_append, sequence_cons_iff]
  simp [hlarge, hopen]

/-- **What lies at the beginning of bytes**: the encoding of a character, or else a maximal subpart,
which the machine replaces. -/
theorem exists_first (a : UInt8) (bytes : List UInt8) :
    (∃ c rest, a :: bytes = encodeChar c ++ rest) ∨
      ∃ part rest, a :: bytes = part ++ rest ∧ Subpart part rest ∧
        decode (a :: bytes) = replacement :: decode rest := by
  by_cases hsequence : ∃ head rest, a :: bytes = head ++ rest ∧ Sequence head
  · obtain ⟨head, rest, hbytes, hhead⟩ := hsequence
    obtain ⟨c, rfl⟩ := exists_encodeChar hhead
    exact .inl ⟨c, rest, hbytes⟩
  right
  have hnone : ∀ head rest, a :: bytes = head ++ rest → ¬Sequence head :=
    fun head rest hbytes hhead => hsequence ⟨head, rest, hbytes, hhead⟩
  have hlarge : ¬a.toNat < 0x80 := fun hsmall =>
    hnone [a] bytes rfl (sequence_one.mpr (Nat.le_of_lt_succ hsmall))
  have hread : decode (a :: bytes) = (Machine.start [] a).read bytes := rfl
  unfold Machine.start at hread
  dsimp only at hread
  rw [if_neg hlarge] at hread
  cases hopen : open? a.toNat with
  | none =>
    have hstray (more : List UInt8) : ¬Sequence (a :: more) := by
      rw [sequence_cons_iff]
      simp [hlarge, hopen]
    rw [hopen] at hread
    refine ⟨[a], bytes, rfl, ⟨hnone, List.cons_ne_nil _ _, .inr rfl, ?_⟩, ?_⟩
    · rintro next more - - ⟨others, hothers⟩
      exact hstray _ hothers
    · rw [hread, read_text]
      rfl
  | some pending =>
    rw [hopen] at hread
    obtain ⟨head, rest, rfl, halong, hend, hrest⟩ :=
      read_open (open_of_open? hopen) [] bytes fun head rest hbytes hhead =>
        hnone (a :: head) rest (congrArg (a :: ·) hbytes)
          (sequence_cons_iff.mpr (.inr ⟨pending, hopen, hhead⟩))
    refine ⟨a :: head, rest, rfl, ⟨hnone, List.cons_ne_nil _ _,
      .inl ((begins_cons_iff hopen).mpr halong), ?_⟩, ?_⟩
    · rintro (_ | ⟨next, others⟩) more rfl hne
      · exact absurd rfl hne
      · rw [List.cons_append, begins_cons_iff hopen]
        rintro ⟨more, hmore⟩
        exact hend next _ rfl ⟨others ++ more, by simpa using hmore⟩
    · rw [hread]
      dsimp only
      rw [hrest, read_text]
      rfl

/-- **The machine repairs all bytes.** -/
theorem repairs_decode : ∀ bytes, Repairs bytes (decode bytes)
  | [] => .nil
  | a :: bytes => by
    rcases exists_first a bytes with ⟨c, rest, hbytes⟩ | ⟨part, rest, hbytes, hpart, hread⟩
    · have hshorter : rest.length < (a :: bytes).length := by
        have hpos : 0 < (encodeChar c).length := List.length_pos_iff.mpr fun hnil =>
          not_sequence_nil (hnil ▸ sequence_encodeChar c)
        rw [hbytes, List.length_append]
        omega
      rw [hbytes, decode_encodeChar_append]
      exact .char c (repairs_decode rest)
    · have hshorter : rest.length < (a :: bytes).length := by
        have hpos := List.length_pos_iff.mpr hpart.ne_nil
        rw [hbytes, List.length_append]
        omega
      rw [hread, hbytes]
      exact .subpart hpart (repairs_decode rest)
termination_by bytes => bytes.length
decreasing_by all_goals exact hshorter

/-- No maximal subpart is longer than another at the same place. -/
theorem Subpart.eq_nil {part next rest : List UInt8} (h : Subpart part (next ++ rest))
    (hlonger : Subpart (part ++ next) rest) : next = [] := by
  by_contra hne
  rcases hlonger.begins with hbegins | hlength
  · exact h.longest next rest rfl hne hbegins
  · have hpart := List.length_pos_iff.mpr h.ne_nil
    have hnext := List.length_pos_iff.mpr hne
    rw [List.length_append] at hlength
    omega

theorem Subpart.unique {part part' rest rest' : List UInt8} (h : Subpart part rest)
    (h' : Subpart part' rest') (hbytes : part ++ rest = part' ++ rest') : rest = rest' := by
  rcases List.append_eq_append_iff.mp hbytes with ⟨next, rfl, rfl⟩ | ⟨next, rfl, rfl⟩
  · rw [h.eq_nil h', List.nil_append]
  · rw [h'.eq_nil h, List.nil_append]

/-- A maximal subpart is replaced by one character. -/
theorem Subpart.decode {part rest : List UInt8} (h : Subpart part rest) :
    decode (part ++ rest) = replacement :: Utf8.decode rest := by
  obtain ⟨a, bytes, rfl⟩ := List.exists_cons_of_ne_nil h.ne_nil
  rcases exists_first a (bytes ++ rest) with ⟨c, more, hbytes⟩ | ⟨part, more, hbytes, hpart, hread⟩
  · exact absurd (sequence_encodeChar c) (h.illFormed _ more hbytes)
  · rw [List.cons_append, hread, h.unique hpart hbytes]

/-- **The text that a machine reads is the only one to which bytes are repaired.** -/
theorem repairs_iff {bytes : List UInt8} {text : List Char} :
    Repairs bytes text ↔ decode bytes = text := by
  refine ⟨fun h => ?_, fun h => h ▸ repairs_decode bytes⟩
  induction h with
  | nil => rfl
  | char c _ ih => rw [decode_encodeChar_append, ih]
  | subpart hpart _ ih => rw [hpart.decode, ih]

/-- A sequence that breaks off is one subpart; an overlong form is as many as it has bytes. -/
example : decode [0xE2, 0x82, 0x41, 0xC0, 0x80] = [replacement, 'A', replacement, replacement] := by
  decide

end ByteLayout.Utf8
