import ByteLayout.Proofs.Fields
import ByteLayout.Proofs.Forms

/-!
# Providers with a gap

A provider in which one field of one record is left open is `Gapped`; to fill the gap is to give
something for the field, or nothing. What a node finds there is known up to the gap (`Finding`): it
is the same whatever is in the gap, or it is the field itself, or the gap is somewhere inside.

A pass knows where a node looks for its value (`Input`). In a provider with a gap that is an
`Outlook`, and all that a pass does with an input it does with the outlook (`Outlook.lookup?_fill`,
`Outlook.below_fill`, `Outlook.itemInput_fill`).
-/

namespace ByteLayout

namespace Fields

variable {α : Type}

/-- The entries but for those under `name`. -/
def erase (fields : Fields α) (name : String) : Fields α :=
  fields.filter fun entry => entry.1 != name

theorem get?_erase (fields : Fields α) (name other : String) :
    get? (erase fields name) other = if other = name then none else get? fields other := by
  induction fields with
  | nil => split <;> rfl
  | cons entry rest ih =>
    obtain ⟨key, value⟩ := entry
    by_cases hkey : key = name
    · subst hkey
      rw [erase, List.filter_cons_of_neg (by simp), ← erase, ih, get?]
      by_cases hother : other = key
      · rw [if_pos hother, if_pos hother]
      · rw [if_neg hother, if_neg hother, if_neg (Ne.symm hother)]
    · rw [erase, List.filter_cons_of_pos (by simpa using hkey), ← erase, get?, get?, ih]
      by_cases hother : key = other
      · rw [if_pos hother, if_neg (hother ▸ hkey), if_pos hother]
      · rw [if_neg hother, if_neg hother]

end Fields

/-! ## Providers with a gap -/

/-- A provider with a gap: one field of one record in it is left open. -/
inductive Gapped where
  /-- The record itself, with its other fields. -/
  | record (others : Fields Provider) (field : String)
  /-- The record is in an entry of another record. -/
  | entry (others : Fields Provider) (key : String) (inner : Gapped)
  /-- The record is in an item of a list. -/
  | item (before : List Provider) (inner : Gapped) (after : List Provider)

/-- What is found in a provider with a gap. -/
inductive Finding where
  /-- The gap is not in it. -/
  | given (found : Option Provider)
  /-- It is the field that is left open. -/
  | gap
  /-- The gap is in it. -/
  | around (gapped : Gapped)

namespace Gapped

/-- The provider with something in the gap, or with the field missing. -/
def fill (content : Option Provider) : Gapped → Provider
  | record others field =>
    match content with
    | none => .record (Fields.erase others field)
    | some given => .record (Fields.insert others field given)
  | entry others key inner => .record (Fields.insert others key (inner.fill content))
  | item before inner after => .list (before ++ inner.fill content :: after)

/-- The shape of the provider, whatever is in the gap. -/
def shape : Gapped → Shape
  | record _ _ => .record
  | entry _ _ _ => .record
  | item _ _ _ => .list

/-- The entry under a name. -/
def find : Gapped → String → Finding
  | record others field, name => if name = field then .gap else .given (Fields.get? others name)
  | entry others key inner, name =>
    if name = key then .around inner else .given (Fields.get? others name)
  | item _ _ _, _ => .given none

end Gapped

namespace Finding

/-- What is found once there is something in the gap, or once the field is missing. -/
def fill (content : Option Provider) : Finding → Option Provider
  | given found => found
  | gap => content
  | around gapped => some (gapped.fill content)

end Finding

namespace Gapped

variable (content : Option Provider)

theorem field?_fill (gapped : Gapped) (name : String) :
    (gapped.fill content).field? name = (gapped.find name).fill content := by
  cases gapped with
  | record others field =>
    cases content with
    | none =>
      show Fields.get? (Fields.erase others field) name = _
      rw [Fields.get?_erase, find]
      split <;> rfl
    | some given =>
      show Fields.get? (Fields.insert others field given) name = _
      rw [Fields.get?_insert, find]
      split <;> rfl
  | entry others key inner =>
    show Fields.get? (Fields.insert others key (inner.fill content)) name = _
    rw [Fields.get?_insert, find]
    split <;> rfl
  | item before inner after => rfl

/-- As a value it is a record or a list. -/
theorem toValue?_fill (gapped : Gapped) : ∃ value : Value,
    (gapped.fill content).toValue? = some value ∧ value.isNull = false ∧
      value.shape = gapped.shape ∧ (gapped.shape = .record ∨ gapped.shape = .list) := by
  cases gapped with
  | record others field =>
    cases content with
    | none => exact ⟨_, rfl, rfl, rfl, .inl rfl⟩
    | some given => exact ⟨_, rfl, rfl, rfl, .inl rfl⟩
  | entry others key inner => exact ⟨_, rfl, rfl, rfl, .inl rfl⟩
  | item before inner after => exact ⟨_, rfl, rfl, rfl, .inr rfl⟩

theorem isComputed_fill (gapped : Gapped) : (gapped.fill content).isComputed = false := by
  cases gapped with
  | record others field => cases content <;> rfl
  | entry others key inner => rfl
  | item before inner after => rfl

end Gapped

namespace Input

theorem below_eq (input : Input) (key : String) :
    input.below key = match input.enter.lookup? (some key) with
      | some inner => .within inner
      | none => .absent := by
  cases input <;> rfl

end Input

/-- The place where a node looks for its value, in a provider with a gap. -/
inductive Outlook where
  /-- The gap is somewhere else. -/
  | plain (input : Input)
  /-- Named nodes look their entry up, unnamed ones take the whole. -/
  | within (gapped : Gapped)
  /-- Taken whatever the name. -/
  | exactly (gapped : Gapped)

namespace Outlook

/-- The place in the provider with something in the gap, or with the field missing. -/
def fill (content : Option Provider) : Outlook → Input
  | plain input => input
  | within gapped => .within (gapped.fill content)
  | exactly gapped => .exactly (gapped.fill content)

/-- What a node of the given name finds. -/
def find : Outlook → Option String → Finding
  | plain input, name => .given (input.lookup? name)
  | exactly gapped, _ => .around gapped
  | within gapped, none => .around gapped
  | within gapped, some name => gapped.find name

/-- The outlook of the children of a node that has no entry of its own. -/
def enter : Outlook → Outlook
  | plain input => plain input.enter
  | exactly gapped => within gapped
  | within gapped => within gapped

/-- The outlook below the entry `key`. -/
def below (outlook : Outlook) (key : String) : Outlook :=
  match outlook.enter.find (some key) with
  | .given (some inner) => plain (.within inner)
  | .given none => plain .absent
  | .gap => plain .absent
  | .around inner => within inner

/-- The outlook of the elements of an item. -/
def ofItem (elements : Nat) (item : Gapped) (index : Nat) : Outlook :=
  match item with
  | .item before inner after =>
    if 1 < elements then
      ((before.map fun given => plain (.exactly given)) ++
        exactly inner :: after.map fun given => plain (.exactly given))[index]?.getD (plain .absent)
    else within item
  | _ => within item

variable (content : Option Provider) (outlook : Outlook)

theorem lookup?_fill (name : Option String) :
    (outlook.fill content).lookup? name = (outlook.find name).fill content := by
  cases outlook with
  | plain input => rfl
  | exactly gapped => rfl
  | within gapped =>
    cases name with
    | none => rfl
    | some name => exact gapped.field?_fill content name

theorem enter_fill : (outlook.fill content).enter = outlook.enter.fill content := by
  cases outlook <;> rfl

/-- Below an entry that is not left open. -/
theorem below_fill {key : String} (h : outlook.enter.find (some key) ≠ .gap) :
    (outlook.fill content).below key = (outlook.below key).fill content := by
  rw [Input.below_eq, enter_fill, lookup?_fill, below]
  cases hfind : outlook.enter.find (some key) with
  | given found => cases found <;> rfl
  | gap => exact absurd hfind h
  | around inner => rfl

theorem itemInput_fill (elements : Nat) (item : Gapped) (index : Nat) :
    Write.Pass.itemInput elements (item.fill content) index =
      (ofItem elements item index).fill content := by
  cases item with
  | record others field => cases content <;> rfl
  | entry others key inner => rfl
  | item before inner after =>
    unfold Write.Pass.itemInput ofItem
    dsimp only [Gapped.fill]
    split
    · have hfill : ∀ found : Option Outlook, (found.getD (plain .absent)).fill content =
          (found.map (fill content)).getD .absent := fun found => by cases found <;> rfl
      rw [hfill, ← List.getElem?_map, List.map_append, List.map_cons, List.map_map, List.map_map]
      have hitems : before.map (Input.exactly) ++ Input.exactly (inner.fill content) ::
          after.map Input.exactly = (before ++ inner.fill content :: after).map Input.exactly := by
        rw [List.map_append, List.map_cons]
      show _ = Option.getD (before.map Input.exactly ++ Input.exactly (inner.fill content) ::
          after.map Input.exactly)[index]? .absent
      rw [hitems, List.getElem?_map]
      cases (before ++ inner.fill content :: after)[index]? <;> rfl
    · rfl

end Outlook

end ByteLayout
