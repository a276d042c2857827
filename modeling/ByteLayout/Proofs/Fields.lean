import ByteLayout.Fields

/-!
# Sorted records

A record is **sorted** if its names increase (`Fields.Sorted`), as they do in every record that was
built by `insert`. **Theorem (`Fields.Sorted.ext`).** Sorted records with the same entries are the
same.
-/

namespace ByteLayout

namespace Fields

variable {α : Type} {name other : String} {entry : α}

/-! ## Lookup -/

theorem get?_insert (fields : Fields α) (name other : String) (entry : α) :
    get? (insert fields name entry) other =
      if other = name then some entry else get? fields other := by
  by_cases h : other = name
  · rw [if_pos h, h, get?_insert_self]
  · rw [if_neg h, get?_insert_of_ne fields entry (Ne.symm h)]

theorem get?_foldl_insert_of_not_mem (entries : List (String × α)) (fields : Fields α)
    (h : name ∉ entries.map Prod.fst) :
    get? (entries.foldl (fun fields entry => insert fields entry.1 entry.2) fields) name =
      get? fields name := by
  induction entries generalizing fields with
  | nil => rfl
  | cons head rest ih =>
    rw [List.map_cons, List.mem_cons, not_or] at h
    rw [List.foldl_cons, ih _ h.2, get?_insert, if_neg h.1]

/-- What was put last under a name is found. -/
theorem get?_ofList_of_mem {entries : List (String × α)} (hnodup : (entries.map Prod.fst).Nodup)
    (h : (name, entry) ∈ entries) : get? (ofList entries) name = some entry := by
  obtain ⟨before, after, rfl⟩ := List.append_of_mem h
  rw [List.map_append, List.map_cons, List.nodup_append, List.nodup_cons] at hnodup
  unfold ofList
  rw [List.foldl_append, List.foldl_cons, get?_foldl_insert_of_not_mem after _ hnodup.2.1.1,
    get?_insert_self]

/-! ## Order -/

/-- Whether the names increase. -/
def Sorted (fields : Fields α) : Prop := fields.Pairwise fun first second => first.1 < second.1

theorem sorted_nil : Sorted ([] : Fields α) := List.Pairwise.nil

/-- An entry below all others is not among them. -/
theorem get?_eq_none {fields : Fields α} (h : ∀ field ∈ fields, name < field.1) :
    get? fields name = none := by
  induction fields with
  | nil => rfl
  | cons head rest ih =>
    have hne : head.1 ≠ name := fun heq =>
      String.lt_irrefl name (heq ▸ h head List.mem_cons_self)
    rw [get?, if_neg hne, ih fun field hfield => h field (List.mem_cons_of_mem _ hfield)]

theorem lt_insert {fields : Fields α} {key : String} (hkey : key < name)
    (h : ∀ field ∈ fields, key < field.1) : ∀ field ∈ insert fields name entry, key < field.1 := by
  induction fields with
  | nil =>
    intro field hfield
    rw [insert, List.mem_singleton] at hfield
    rw [hfield]
    exact hkey
  | cons head rest ih =>
    obtain ⟨first, old⟩ := head
    have hrest : ∀ field ∈ rest, key < field.1 := fun field hfield =>
      h field (List.mem_cons_of_mem _ hfield)
    intro field hfield
    rw [insert] at hfield
    split at hfield
    · rcases List.mem_cons.mp hfield with rfl | hfield
      · exact hkey
      · exact h field hfield
    · split at hfield
      · rcases List.mem_cons.mp hfield with rfl | hfield
        · exact hkey
        · exact hrest field hfield
      · rcases List.mem_cons.mp hfield with rfl | hfield
        · exact h _ List.mem_cons_self
        · exact ih hrest field hfield

theorem sorted_insert {fields : Fields α} (h : Sorted fields) (name : String) (entry : α) :
    Sorted (insert fields name entry) := by
  induction fields with
  | nil => exact List.pairwise_singleton _ _
  | cons head rest ih =>
    obtain ⟨key, old⟩ := head
    obtain ⟨hkey, hrest⟩ := List.pairwise_cons.mp h
    rw [insert]
    split
    · next hless =>
      refine List.pairwise_cons.mpr ⟨fun field hfield => ?_, h⟩
      rcases List.mem_cons.mp hfield with rfl | hfield
      · exact hless
      · exact String.lt_trans hless (hkey field hfield)
    · next hless =>
      split
      · next heq =>
        subst heq
        exact List.pairwise_cons.mpr ⟨hkey, hrest⟩
      · next hne =>
        have hgreater : key < name := Std.lt_of_le_of_ne (Std.not_lt.mp hless) (Ne.symm hne)
        exact List.pairwise_cons.mpr ⟨lt_insert hgreater hkey, ih hrest⟩

/-- **Sorted records with the same entries are the same.** -/
theorem Sorted.ext {first second : Fields α} (h : Sorted first) (h' : Sorted second)
    (hget : ∀ name, get? first name = get? second name) : first = second := by
  induction first generalizing second with
  | nil =>
    cases second with
    | nil => rfl
    | cons head rest =>
      have hfound := hget head.1
      rw [get?_nil, get?, if_pos rfl] at hfound
      cases hfound
  | cons head rest ih =>
    obtain ⟨key, entry⟩ := head
    obtain ⟨hkey, hrest⟩ := List.pairwise_cons.mp h
    cases second with
    | nil =>
      have hfound := hget key
      rw [get?_nil, get?, if_pos rfl] at hfound
      cases hfound
    | cons head' rest' =>
      obtain ⟨key', entry'⟩ := head'
      obtain ⟨hkey', hrest'⟩ := List.pairwise_cons.mp h'
      -- The least name of either record is in the other, so neither is less.
      have hnot : ¬key < key' := by
        intro hless
        have hfound := hget key
        rw [get?, if_pos rfl, get?_eq_none fun field hfield => ?_] at hfound
        · cases hfound
        · rcases List.mem_cons.mp hfield with rfl | hfield
          · exact hless
          · exact String.lt_trans hless (hkey' field hfield)
      have hnot' : ¬key' < key := by
        intro hless
        have hfound := hget key'
        rw [get?_eq_none fun field hfield => ?_, get?, if_pos rfl] at hfound
        · cases hfound
        · rcases List.mem_cons.mp hfield with rfl | hfield
          · exact hless
          · exact String.lt_trans hless (hkey field hfield)
      obtain rfl : key = key' := String.le_antisymm (String.not_lt.mp hnot') (String.not_lt.mp hnot)
      have hentry := hget key
      rw [get?, get?, if_pos rfl, if_pos rfl, Option.some.injEq] at hentry
      have htail : rest = rest' := by
        refine ih hrest hrest' fun name => ?_
        by_cases hname : key = name
        · rw [get?_eq_none (hname ▸ hkey), get?_eq_none (hname ▸ hkey')]
        · have hfound := hget name
          rwa [get?, get?, if_neg hname, if_neg hname] at hfound
      rw [hentry, htail]

/-! ## Records with given names -/

theorem mem_names_of_get? {fields : Fields α} (h : get? fields name = some entry) :
    name ∈ names fields := by
  induction fields with
  | nil => cases h
  | cons head rest ih =>
    rw [get?] at h
    split at h
    · next heq => exact List.mem_cons.mpr (.inl heq.symm)
    · exact List.mem_cons_of_mem _ (ih h)

/-- Whether a record has the given names and no others. -/
structure Exactly (fields : Fields α) (given : List String) : Prop where
  sorted : Sorted fields
  names : ∀ name, name ∈ Fields.names fields ↔ name ∈ given

/-- Whether `after` is a record together with what another record has under the given names. -/
structure Copies (source : Fields α) (given : List String) (before after : Fields α) : Prop where
  sorted : Sorted before → Sorted after
  lookup : ∀ name, get? after name = if name ∈ given then get? source name else get? before name

theorem copies_nil (source before : Fields α) : Copies source [] before before :=
  ⟨id, fun _ => (if_neg List.not_mem_nil).symm⟩

theorem copies_insert {source : Fields α} (before : Fields α) (h : get? source name = some entry) :
    Copies source [name] before (insert before name entry) := by
  refine ⟨fun hbefore => sorted_insert hbefore name entry, fun other => ?_⟩
  rw [get?_insert]
  by_cases hother : other = name
  · rw [if_pos hother, if_pos (List.mem_singleton.mpr hother), hother, h]
  · rw [if_neg hother, if_neg fun hmem => hother (List.mem_singleton.mp hmem)]

theorem Copies.append {source before middle after : Fields α} {first second : List String}
    (h : Copies source first before middle) (h' : Copies source second middle after) :
    Copies source (first ++ second) before after := by
  refine ⟨fun hbefore => h'.sorted (h.sorted hbefore), fun name => ?_⟩
  rw [h'.lookup, h.lookup]
  by_cases hsecond : name ∈ second
  · rw [if_pos hsecond, if_pos (List.mem_append_right _ hsecond)]
  · rw [if_neg hsecond]
    by_cases hfirst : name ∈ first
    · rw [if_pos hfirst, if_pos (List.mem_append_left _ hfirst)]
    · rw [if_neg hfirst, if_neg fun hmem => (List.mem_append.mp hmem).elim hfirst hsecond]

/-- What is copied of a record under all its names is the record. -/
theorem Copies.eq {source after : Fields α} {given : List String} (h : Copies source given [] after)
    (hsource : source.Exactly given) : after = source := by
  refine Sorted.ext (h.sorted sorted_nil) hsource.sorted fun name => ?_
  rw [h.lookup]
  by_cases hname : name ∈ given
  · rw [if_pos hname]
  · rw [if_neg hname, get?_nil]
    cases hfound : get? source name with
    | none => rfl
    | some entry => exact absurd ((hsource.names name).mp (mem_names_of_get? hfound)) hname

end Fields

end ByteLayout
