import ByteLayout.Options

/-!
# Views of a journal

What can be said of a pass speaks of a part of its journal: the callbacks it made, those of them
that picked a node, the fields it announced with their offsets, the files it opened, and what it
found in its provider. Each part is a **view**, the list of what single events show (`Event.call?`,
`Event.select?`, `Event.field?`, `Event.opened?`, `Event.found?`).

What a stream does to its sink or source is **quiet**, and no view sees it (`view_append_quiet`).
-/

namespace ByteLayout

namespace Event

/-- The callback that was made. -/
def call? : Event → Option Call
  | call made => some made
  | _ => none

/-- What a callback saw that picked a node. -/
def select? : Event → Option FieldContext
  | call (.select context) => some context
  | _ => none

/-- The path, the kind and the offset of a field that was announced. -/
def field? : Event → Option (String × String × Nat)
  | trace (.field _ _ path kind offset) => some (path, kind, offset)
  | _ => none

/-- The path of a file that was opened. -/
def opened? : Event → Option String
  | opened path => some path
  | _ => none

/-- What was found in the provider: the value of a field, or the extent of a lazy sequence. -/
def found? : Event → Option Event
  | resolved path kind value => some (resolved path kind value)
  | generated path count length => some (generated path count length)
  | _ => none

/-- Whether a pass writes an event down itself, with no stream involved. -/
def Own : Event → Prop
  | note _ | call _ | resolved .. | generated .. | pulled .. | itemDone .. => True
  | trace (.opening _) | trace (.singleFile ..) => True
  | _ => False

/-- Whether an event concerns a sink or a source only: it is no field, and no part of the pass. -/
def Quiet : Event → Prop
  | sink _ _ => True
  | trace (.field ..) => False
  | trace _ => True
  | _ => False

theorem quiet_append {first second : List Event} (h : ∀ event ∈ first, event.Quiet)
    (h' : ∀ event ∈ second, event.Quiet) : ∀ event ∈ first ++ second, event.Quiet :=
  List.forall_mem_append.mpr ⟨h, h'⟩

theorem quiet_reverse {events : List Event} (h : ∀ event ∈ events, event.Quiet) :
    ∀ event ∈ events.reverse, event.Quiet :=
  fun event he => h event (List.mem_reverse.mp he)

/-- Whether an event is neither the choice of a node nor a field. -/
def Unseen (event : Event) : Prop := event.select? = none ∧ event.field? = none

end Event

/-- A way to look at events that does not see the quiet ones. -/
def Attentive {α : Type} (look : Event → Option α) : Prop :=
  ∀ event : Event, event.Quiet → look event = none

theorem attentive_call? : Attentive Event.call? := by
  intro event h
  cases event with
  | call made => cases h
  | _ => rfl

theorem attentive_select? : Attentive Event.select? := by
  intro event h
  cases event with
  | call made => cases h
  | _ => rfl

theorem attentive_field? : Attentive Event.field? := by
  intro event h
  cases event with
  | trace shown =>
    cases shown with
    | field side debug path kind offset => cases h
    | _ => rfl
  | _ => rfl

theorem attentive_opened? : Attentive Event.opened? := by
  intro event h
  cases event with
  | opened path => cases h
  | _ => rfl

theorem attentive_found? : Attentive Event.found? := by
  intro event h
  cases event with
  | resolved path kind value => cases h
  | generated path count length => cases h
  | _ => rfl

namespace Journal

variable {α : Type}

/-- What the events of a journal show. -/
def view (look : Event → Option α) (journal : Journal) : List α :=
  journal.toList.filterMap look

/-- The callbacks made, with what they were given. -/
def calls (journal : Journal) : List Call := journal.view Event.call?

/-- What the callbacks saw that picked nodes. -/
def selects (journal : Journal) : List FieldContext := journal.view Event.select?

/-- The fields announced: path, kind and offset. -/
def fields (journal : Journal) : List (String × String × Nat) := journal.view Event.field?

/-- The files opened. -/
def openings (journal : Journal) : List String := journal.view Event.opened?

@[simp] theorem view_append (look : Event → Option α) (journal : Journal) (events : List Event) :
    view look (journal ++ events) = view look journal ++ events.filterMap look := by
  unfold view
  rw [Array.toList_appendList, List.filterMap_append]

@[simp] theorem view_push (look : Event → Option α) (journal : Journal) (event : Event) :
    view look (journal.push event) = view look journal ++ [event].filterMap look := by
  unfold view
  rw [Array.toList_push, List.filterMap_append]

theorem filterMap_quiet {look : Event → Option α} (hlook : Attentive look) {events : List Event}
    (h : ∀ event ∈ events, event.Quiet) : events.filterMap look = [] :=
  List.filterMap_eq_nil_iff.mpr fun event he => hlook event (h event he)

theorem view_append_quiet {look : Event → Option α} (hlook : Attentive look) (journal : Journal)
    {events : List Event} (h : ∀ event ∈ events, event.Quiet) :
    view look (journal ++ events) = view look journal := by
  rw [view_append, filterMap_quiet hlook h, List.append_nil]

end Journal

/-- Journals that show the same, apart from what is quiet. -/
def Journal.Alike (journal other : Journal) : Prop :=
  ∀ (α : Type) (look : Event → Option α), Attentive look → other.view look = journal.view look

namespace Journal.Alike

variable {journal other : Journal}

theorem view_isPrefix (h : journal.Alike other) {α : Type} {look : Event → Option α}
    (hlook : Attentive look) : journal.view look <+: other.view look :=
  h α look hlook ▸ List.prefix_rfl

theorem append (h : journal.Alike other) {events events' : List Event}
    (hevents : ∀ (α : Type) (look : Event → Option α), Attentive look →
      events'.filterMap look = events.filterMap look) :
    Alike (journal ++ events) (other ++ events') := by
  intro α look hlook
  simp only [view_append, h α look hlook, hevents α look hlook]

/-- What is quiet may differ. -/
theorem append_quiet (h : journal.Alike other) {events events' : List Event}
    (hquiet : ∀ event ∈ events, event.Quiet) (hquiet' : ∀ event ∈ events', event.Quiet) :
    Alike (journal ++ events) (other ++ events') :=
  h.append fun _ _ hlook => by rw [filterMap_quiet hlook hquiet, filterMap_quiet hlook hquiet']

end Journal.Alike

theorem Options.filterMap_warnings {α : Type} {look : Event → Option α} (hlook : Attentive look)
    (options : Options) (side : Side) : (options.warnings side).filterMap look = [] := by
  refine Journal.filterMap_quiet hlook fun event he => ?_
  unfold warnings at he
  split at he
  · rcases List.mem_singleton.mp he with rfl
    exact trivial
  · cases he

end ByteLayout
