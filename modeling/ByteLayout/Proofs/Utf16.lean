import ByteLayout.Proofs.Text

/-!
# Surrogates and their partners

In UTF-16 a surrogate has its partner next to it: a high one stands in front of a low one. One
that does not is **unpaired** (`Utf16.Unpaired`), and a lossy decoder replaces each of these by
U+FFFD and reads the rest as characters (`Utf16.Repairs`). **Theorem (`Utf16.repairs_iff`).** That
is what the machine does, whatever units it reads. A single byte left over after the last unit gives
one more U+FFFD (`Utf16.decode_eq`).

**Theorem (`Utf16.paired_iff`).** The units of texts, which are those that can be cut into the units
of characters, are those in which no surrogate is unpaired.
-/

namespace ByteLayout.Utf16

/-! ## Unpaired surrogates -/

/-- A surrogate without its partner stands at an index. -/
def Unpaired (units : List Nat) (index : Nat) : Prop :=
  ∃ unit, units[index]? = some unit ∧
    ((isHighSurrogate unit = true ∧
        ∀ next, units[index + 1]? = some next → isLowSurrogate next = false) ∨
      (isLowSurrogate unit = true ∧
        ∀ before, 0 < index → units[index - 1]? = some before → isHighSurrogate before = false))

variable {unit next : Nat} {rest : List Nat}

/-- No surrogate is both high and low. -/
theorem not_low_of_high (h : isHighSurrogate unit = true) : isLowSurrogate unit = false := by
  rw [isHighSurrogate_iff] at h
  rw [Bool.eq_false_iff, Ne, isLowSurrogate_iff]
  omega

theorem not_high_of_low (h : isLowSurrogate unit = true) : isHighSurrogate unit = false := by
  rw [isLowSurrogate_iff] at h
  rw [Bool.eq_false_iff, Ne, isHighSurrogate_iff]
  omega

theorem unpaired_zero :
    Unpaired (unit :: rest) 0 ↔
      (isHighSurrogate unit = true ∧
        ∀ next, rest.head? = some next → isLowSurrogate next = false) ∨
      isLowSurrogate unit = true := by
  simp [Unpaired, List.head?_eq_getElem?]

/-- Behind a unit that is no high surrogate, what is unpaired does not depend on that unit. -/
theorem unpaired_succ (h : isHighSurrogate unit = false) (index : Nat) :
    Unpaired (unit :: rest) (index + 1) ↔ Unpaired rest index := by
  cases index with
  | zero => simp [Unpaired, h]
  | succ index => simp [Unpaired]

theorem unpaired_add_two (index : Nat) :
    Unpaired (unit :: next :: rest) (index + 2) ↔ Unpaired (next :: rest) (index + 1) := by
  simp [Unpaired]

/-- **Every surrogate has its partner exactly if none is unpaired.** -/
theorem paired_iff (units : List Nat) : Paired units ↔ ∀ index, ¬Unpaired units index := by
  fun_induction Paired units with
  | case1 => simp [Unpaired]
  | case2 unit =>
    have hbehind (index : Nat) : ¬Unpaired [unit] (index + 1) := by simp [Unpaired]
    rw [← Nat.and_forall_add_one, unpaired_zero]
    simp [hbehind]
  | case3 high low rest hhigh ih =>
    have hlow := not_low_of_high hhigh
    rw [← Nat.and_forall_add_one, ← Nat.and_forall_add_one, unpaired_zero]
    simp only [List.head?_cons, hhigh, hlow, unpaired_add_two]
    constructor
    · rintro ⟨hnext, hrest⟩
      have hnot := not_high_of_low hnext
      refine ⟨by simp [hnext], ?_, fun index => ?_⟩
      · simp [Unpaired, hhigh, hnot]
      · rw [unpaired_succ hnot]
        exact ih.mp hrest index
    · rintro ⟨hfirst, -, hrest⟩
      have hnext : isLowSurrogate low = true := by simpa using hfirst
      refine ⟨hnext, ih.mpr fun index => ?_⟩
      rw [← unpaired_succ (not_high_of_low hnext)]
      exact hrest index
  | case4 unit next rest hhigh ih =>
    have hnot := Bool.eq_false_iff.mpr hhigh
    rw [← Nat.and_forall_add_one, unpaired_zero, ih]
    simp only [hnot, unpaired_succ]
    simp

/-! ## What the machine repairs -/

/-- Units and the text that they are repaired to: the characters of the units that are no surrogates
and of the pairs, and U+FFFD for each unpaired surrogate. -/
inductive Repairs : List Nat → List Char → Prop where
  | nil : Repairs [] []
  | char (c : Char) {rest : List Nat} {text : List Char} (hrest : Repairs rest text) :
    Repairs (charUnits c ++ rest) (c :: text)
  | unpaired {unit : Nat} {rest : List Nat} {text : List Char}
    (hunit : Unpaired (unit :: rest) 0) (hrest : Repairs rest text) :
    Repairs (unit :: rest) (Utf8.replacement :: text)

/-- The text that a machine reads from units. -/
def Machine.read (machine : Machine) (units : List Nat) : List Char :=
  (units.foldl Machine.step machine).finish.reverse

/-- A step puts characters in front of what was read before, and looks at none of it. -/
theorem step_text (text : List Char) (high : Option Nat) (unit : Nat) :
    Machine.step ⟨text, high⟩ unit =
      ⟨(Machine.step ⟨[], high⟩ unit).text ++ text, (Machine.step ⟨[], high⟩ unit).high⟩ := by
  have hstart (text : List Char) : Machine.start text unit =
      ⟨(Machine.start [] unit).text ++ text, (Machine.start [] unit).high⟩ := by
    unfold Machine.start
    split_ifs <;> rfl
  cases high with
  | none => exact hstart text
  | some high =>
    unfold Machine.step
    dsimp only
    split
    · rfl
    · rw [hstart (Utf8.replacement :: text), hstart [Utf8.replacement], List.append_assoc]
      rfl

/-- What was read before comes first in the text. -/
theorem read_text (text : List Char) (high : Option Nat) (units : List Nat) :
    Machine.read ⟨text, high⟩ units = text.reverse ++ Machine.read ⟨[], high⟩ units := by
  induction units generalizing text high with
  | nil => cases high <;> simp [Machine.read, Machine.finish]
  | cons unit rest ih =>
    have hstep (machine : Machine) :
      machine.read (unit :: rest) = (machine.step unit).read rest := rfl
    rw [hstep, hstep, step_text, ih, ih (Machine.step ⟨[], high⟩ unit).text,
      List.reverse_append, List.append_assoc]

/-- The units of a character are read as the character, whatever follows. -/
theorem read_charUnits_append (c : Char) (rest : List Nat) :
    Machine.read {} (charUnits c ++ rest) = c :: Machine.read {} rest := by
  have hread : Machine.read {} (charUnits c ++ rest) = Machine.read ⟨[c], none⟩ rest := by
    unfold Machine.read
    rw [List.foldl_append, read_charUnits]
  rw [hread, read_text]
  rfl

/-- An unpaired surrogate is read as U+FFFD. -/
theorem read_unpaired (h : Unpaired (unit :: rest) 0) :
    Machine.read {} (unit :: rest) = Utf8.replacement :: Machine.read {} rest := by
  have hread : Machine.read {} (unit :: rest) = Machine.read ⟨[Utf8.replacement], none⟩ rest := by
    rcases unpaired_zero.mp h with ⟨hhigh, hnext⟩ | hlow
    · have hwait : Machine.read {} (unit :: rest) = Machine.read ⟨[], some unit⟩ rest := by
        unfold Machine.read
        rw [List.foldl_cons, step_high [] hhigh]
      rw [hwait]
      cases rest with
      | nil => rfl
      | cons next rest =>
        have hstep : Machine.step ⟨[], some unit⟩ next =
            Machine.step ⟨[Utf8.replacement], none⟩ next := by
          unfold Machine.step
          dsimp only
          rw [if_neg (Bool.eq_false_iff.mp (hnext next rfl))]
        unfold Machine.read
        rw [List.foldl_cons, hstep]
        rfl
    · have hstep : Machine.step {} unit = ⟨[Utf8.replacement], none⟩ := by
        unfold Machine.step Machine.start
        dsimp only
        rw [if_neg (Bool.eq_false_iff.mp (not_high_of_low hlow)), if_pos hlow]
      unfold Machine.read
      rw [List.foldl_cons, hstep]
  rw [hread, read_text]
  rfl

/-- **What lies at the beginning of units**: those of a character, or an unpaired surrogate. -/
theorem exists_first (hunits : ∀ other ∈ unit :: rest, other < 0x10000) :
    (∃ c more, unit :: rest = charUnits c ++ more) ∨ Unpaired (unit :: rest) 0 := by
  have hunit := hunits unit List.mem_cons_self
  by_cases hhigh : isHighSurrogate unit = true
  · cases rest with
    | nil => exact .inr (unpaired_zero.mpr (.inl ⟨hhigh, by simp⟩))
    | cons next rest =>
      by_cases hlow : isLowSurrogate next = true
      · obtain ⟨c, hc⟩ := exists_charUnits_pair hhigh hlow
        exact .inl ⟨c, rest, by rw [hc]; rfl⟩
      · exact .inr (unpaired_zero.mpr (.inl ⟨hhigh, by simpa using hlow⟩))
  · by_cases hlow : isLowSurrogate unit = true
    · exact .inr (unpaired_zero.mpr (.inr hlow))
    · obtain ⟨c, hc⟩ := exists_charUnits hunit hhigh hlow
      exact .inl ⟨c, rest, by rw [hc]; rfl⟩

theorem length_charUnits_pos (c : Char) : 0 < (charUnits c).length := by
  unfold charUnits
  dsimp only
  split <;> exact Nat.succ_pos _

/-- **The machine repairs all units.** -/
theorem repairs_read : ∀ {units : List Nat}, (∀ unit ∈ units, unit < 0x10000) →
    Repairs units (Machine.read {} units)
  | [], _ => .nil
  | unit :: rest, hunits => by
    rcases exists_first hunits with ⟨c, more, heq⟩ | hunpaired
    · have hshorter : more.length < (unit :: rest).length := by
        have hpos := length_charUnits_pos c
        rw [heq, List.length_append]
        omega
      rw [heq] at hunits ⊢
      rw [read_charUnits_append]
      exact .char c (repairs_read fun other hother => hunits other (List.mem_append_right _ hother))
    · rw [read_unpaired hunpaired]
      exact .unpaired hunpaired
        (repairs_read fun other hother => hunits other (List.mem_cons_of_mem _ hother))
termination_by units => units.length
decreasing_by
  · exact hshorter
  · exact Nat.lt_succ_self rest.length

/-- **The text that a machine reads is the only one to which units are repaired.** -/
theorem repairs_iff {units : List Nat} (h : ∀ unit ∈ units, unit < 0x10000) {text : List Char} :
    Repairs units text ↔ Machine.read {} units = text := by
  refine ⟨fun hrepairs => ?_, fun htext => htext ▸ repairs_read h⟩
  clear h
  induction hrepairs with
  | nil => rfl
  | char c _ ih => rw [read_charUnits_append, ih]
  | unpaired hunit _ ih => rw [read_unpaired hunit, ih]

/-! ## Bytes -/

/-- The units of bytes; a single byte left over belongs to none. -/
def pairs : List UInt8 → List Nat
  | low :: high :: rest => (low.toNat + 256 * high.toNat) :: pairs rest
  | [_] => []
  | [] => []

theorem pairs_lt (bytes : List UInt8) : ∀ unit ∈ pairs bytes, unit < 0x10000 := by
  fun_induction pairs bytes with
  | case1 low high rest ih =>
    have hlow := low.toNat_lt
    have hhigh := high.toNat_lt
    rintro unit (_ | ⟨_, hunit⟩)
    · omega
    · exact ih unit hunit
  | case2 => simp
  | case3 => simp

/-- **What the bytes are read as**: their units, and a byte left over as U+FFFD. -/
theorem decode_eq (bytes : List UInt8) :
    decode bytes = Machine.read {} (pairs bytes) ++
      if bytes.length % 2 = 0 then [] else [Utf8.replacement] := by
  have hread (machine : Machine) : (bytes.foldl ByteMachine.step ⟨machine, none⟩).finish =
      machine.read (pairs bytes) ++ if bytes.length % 2 = 0 then [] else [Utf8.replacement] := by
    fun_induction pairs bytes generalizing machine with
    | case1 low high rest ih =>
      have hlength : (low :: high :: rest).length % 2 = rest.length % 2 := by
        simp only [List.length_cons]
        omega
      rw [hlength]
      exact ih (machine.step (low.toNat + 256 * high.toNat))
    | case2 byte => simp [ByteMachine.step, ByteMachine.finish, Machine.read]
    | case3 => simp [ByteMachine.finish, Machine.read]
  exact hread {}

/-- The bytes of units have these units. -/
theorem pairs_flatMap {units : List Nat} (h : ∀ unit ∈ units, unit < 0x10000) :
    pairs (units.flatMap unitBytes) = units := by
  induction units with
  | nil => rfl
  | cons unit rest ih =>
    have hunit := h unit List.mem_cons_self
    have hlow : (UInt8.ofNat unit).toNat = unit % 256 := UInt8.toNat_ofNat'
    have hhigh : (UInt8.ofNat (unit / 256)).toNat = unit / 256 :=
      UInt8.toNat_ofNat_of_lt' (show _ < 256 by omega)
    have hsum : unit % 256 + 256 * (unit / 256) = unit := Nat.mod_add_div unit 256
    rw [List.flatMap_cons]
    show (_ + 256 * _) :: pairs (rest.flatMap unitBytes) = _
    rw [hlow, hhigh, hsum, ih fun other hother => h other (List.mem_cons_of_mem _ hother)]

/-- An even number of bytes are those of their units. -/
theorem flatMap_pairs {bytes : List UInt8} (h : bytes.length % 2 = 0) :
    (pairs bytes).flatMap unitBytes = bytes := by
  fun_induction pairs bytes with
  | case1 low high rest ih =>
    have hrest : rest.length % 2 = 0 := by
      simp only [List.length_cons] at h
      omega
    have hlow : UInt8.ofNat (low.toNat + 256 * high.toNat) = low := by
      apply UInt8.toNat_inj.mp
      have hlt := low.toNat_lt
      rw [UInt8.toNat_ofNat']
      omega
    have hhigh : (low.toNat + 256 * high.toNat) / 256 = high.toNat := by
      have hlt := low.toNat_lt
      omega
    rw [List.flatMap_cons, ih hrest, unitBytes, hlow, hhigh, UInt8.ofNat_toNat]
    rfl
  | case2 => cases h
  | case3 => rfl

/-- The units of a character are no surrogate, or two that are partners. -/
theorem charUnits_cases (c : Char) :
    (∃ unit, charUnits c = [unit] ∧ isHighSurrogate unit = false ∧ isLowSurrogate unit = false) ∨
      ∃ high low, charUnits c = [high, low] ∧ isHighSurrogate high = true ∧
        isLowSurrogate low = true := by
  have hrange := char_range c
  unfold charUnits
  generalize c.toNat = n at hrange ⊢
  dsimp only
  by_cases hone : n < 0x10000
  · rw [if_pos hone]
    refine .inl ⟨n, rfl, ?_, ?_⟩
    · rw [Bool.eq_false_iff, Ne, isHighSurrogate_iff]
      omega
    · rw [Bool.eq_false_iff, Ne, isLowSurrogate_iff]
      omega
  · rw [if_neg hone]
    refine .inr ⟨_, _, rfl, ?_, ?_⟩
    · rw [isHighSurrogate_iff]
      omega
    · rw [isLowSurrogate_iff]
      omega

/-- In the units of a text every surrogate has its partner. -/
theorem paired_units (chars : List Char) : Paired (units chars) := by
  unfold units
  induction chars with
  | nil => trivial
  | cons c rest ih =>
    rw [List.flatMap_cons]
    rcases charUnits_cases c with ⟨unit, hc, hhigh, hlow⟩ | ⟨high, low, hc, hhigh, hlow⟩
    · rw [hc, List.singleton_append]
      cases hrest : rest.flatMap charUnits with
      | nil => exact ⟨hhigh, hlow⟩
      | cons next more =>
        rw [hrest] at ih
        rw [Paired, if_neg (Bool.eq_false_iff.mp hhigh)]
        exact ⟨hlow, ih⟩
    · rw [hc, List.cons_append, List.singleton_append, Paired, if_pos hhigh]
      exact ⟨hlow, ih⟩

/-- An even number of bytes, and no surrogate among their units without its partner. -/
def Valid (bytes : List UInt8) : Prop :=
  bytes.length % 2 = 0 ∧ ∀ index, ¬Unpaired (pairs bytes) index

/-- **Valid bytes are those of a text.** -/
theorem valid_iff {bytes : List UInt8} : Valid bytes ↔ ∃ chars, encode chars = bytes := by
  unfold Valid encode
  rw [← paired_iff]
  constructor
  · rintro ⟨heven, hpaired⟩
    obtain ⟨chars, hchars⟩ := exists_units (pairs_lt bytes) hpaired
    exact ⟨chars, by rw [← hchars, flatMap_pairs heven]⟩
  · rintro ⟨chars, rfl⟩
    have hunits : ∀ unit ∈ units chars, unit < 0x10000 := fun _ => unit_lt
    refine ⟨?_, ?_⟩
    · rw [length_flatMap_unitBytes, Nat.mul_mod_right]
    · rw [pairs_flatMap hunits]
      exact paired_units chars

end ByteLayout.Utf16
