import ByteLayout.Proofs.Tree

/-!
# Well-formed trees

The rules for a tree, said without a check: `Node.Occurs` is the relation between a tree and each of
its nodes, with the nodes above it, and `Node.Obeys` is what the rules ask of a node at such a
place. A tree is well-formed if all its nodes obey.

**Theorem (`Node.check_root_eq_ok`).** The check accepts exactly the well-formed trees.
-/

namespace ByteLayout

namespace Node

/-- A node occurs in a tree, attached in some way, below the nodes `above`, the nearest first. -/
inductive Occurs (root : Node) : Placement → List Node → Node → Prop where
  | root : Occurs root .root [] root
  | text {placement : Placement} {above : List Node} {node text : Node} :
    Occurs root placement above node → node.payload = .text text →
    Occurs root .payload (node :: above) text
  | element {placement : Placement} {above elements : List Node} {node element : Node} :
    Occurs root placement above node → node.payload = .sequence elements → element ∈ elements →
    Occurs root .element (node :: above) element
  | child {placement : Placement} {above : List Node} {node child : Node} :
    Occurs root placement above node → child ∈ node.kind.children →
    Occurs root .child (node :: above) child

/-- What the rules ask of a node at its place. -/
structure Obeys (placement : Placement) (above : List Node) (node : Node) : Prop where
  /-- A field has a name, unless it is an element of a sequence. -/
  named : node.kind.isField = true → node.name.isSome = true ∨ placement = .element
  /-- A text is a payload. -/
  isPayload : node.kind.isText = true → placement = .payload
  /-- Only unsigned integers carry strings, and these are texts. -/
  carriesText : ∀ text, node.payload = .text text →
    text.kind.isText = true ∧ ∃ kind : IntKind, node.kind = .int kind ∧ kind.isUnsigned = true
  /-- Only integers carry sequences, and these have elements. -/
  carriesSequence : ∀ elements, node.payload = .sequence elements →
    elements ≠ [] ∧ ∃ kind : IntKind, node.kind = .int kind
  /-- A file lies in no other file. -/
  unnested : node.kind.isFile = true → ∀ other ∈ above, other.kind.isFile = false

/-- Whether all nodes of a tree obey the rules. -/
def WellFormed (root : Node) : Prop :=
  ∀ placement above node, root.Occurs placement above node → node.Obeys placement above

end Node

/-! ## The rules for one node -/

/-- The site of a node below others, the nearest first. -/
def Site.under (placement : Placement) (above : List Node) : Site :=
  ⟨placement, above.any fun node => node.kind.isFile, above.map Node.segment⟩

theorem Site.below_under (placement below : Placement) (above : List Node) (node : Node) :
    (Site.under placement above).below below node = Site.under below (node :: above) := by
  unfold Site.under Site.below
  rw [List.any_cons, List.map_cons, Bool.or_comm]

namespace Node

variable {placement : Placement} {above : List Node} {node : Node}

theorem checkKind_eq_ok : node.checkKind (Site.under placement above) = .ok () ↔
    (node.kind.isField = true → node.name.isSome = true ∨ placement = .element) ∧
      (node.kind.isText = true → placement = .payload) ∧
      (node.kind.isFile = true → ∀ other ∈ above, other.kind.isFile = false) := by
  unfold checkKind Site.under
  split
  · next hfield =>
    simp only [Bool.and_eq_true, Option.isNone_iff_eq_none, bne_iff_ne] at hfield
    simp [hfield]
  · next hfield =>
    simp only [Bool.and_eq_true, Option.isNone_iff_eq_none, bne_iff_ne, not_and,
      Decidable.not_not] at hfield
    have hnamed : node.kind.isField = true → node.name.isSome = true ∨ placement = .element := by
      intro hkind
      by_cases hname : node.name = none
      · exact .inr (hfield ⟨hkind, hname⟩)
      · exact .inl (Option.isSome_iff_ne_none.mpr hname)
    split
    · next htext =>
      simp only [Bool.and_eq_true, bne_iff_ne] at htext
      simp [htext]
    · next htext =>
      simp only [Bool.and_eq_true, bne_iff_ne, not_and, Decidable.not_not] at htext
      split
      · next hfile =>
        simp only [Bool.and_eq_true, List.any_eq_true] at hfile
        obtain ⟨hfile, other, hother, hother'⟩ := hfile
        refine ⟨nofun, fun ⟨_, _, hunnested⟩ => ?_⟩
        rw [hunnested hfile other hother] at hother'
        cases hother'
      · next hfile =>
        simp only [Bool.and_eq_true, List.any_eq_true, not_and, not_exists,
          Bool.not_eq_true] at hfile
        exact ⟨fun _ => ⟨hnamed, htext, hfile⟩, fun _ => rfl⟩

theorem checkPayload_eq_ok (site : Site) : node.checkPayload site = .ok () ↔
    (∀ text, node.payload = .text text →
      text.kind.isText = true ∧ ∃ kind : IntKind, node.kind = .int kind ∧ kind.isUnsigned = true) ∧
    (∀ elements, node.payload = .sequence elements →
      elements ≠ [] ∧ ∃ kind : IntKind, node.kind = .int kind) := by
  unfold checkPayload
  cases node.payload with
  | none => simp
  | text text =>
    cases node.kind with
    | int kind =>
      by_cases htext : text.kind.isText = true
      · by_cases hunsigned : kind.isUnsigned = true
        · simp [htext, hunsigned]
        · simp [htext, hunsigned]
      · simp [htext]
    | _ => simp
  | sequence elements =>
    cases node.kind with
    | int kind => cases elements <;> simp
    | _ => simp

/-- A node passes its own checks if it obeys the rules. -/
theorem checkSelf_under :
    node.checkSelf (Site.under placement above) = .ok () ↔ node.Obeys placement above := by
  rw [checkSelf_eq_ok, checkKind_eq_ok, checkPayload_eq_ok]
  constructor
  · rintro ⟨⟨hnamed, htext, hfile⟩, hcarriesText, hcarriesSequence⟩
    exact ⟨hnamed, htext, hcarriesText, hcarriesSequence, hfile⟩
  · rintro ⟨hnamed, htext, hcarriesText, hcarriesSequence, hfile⟩
    exact ⟨⟨hnamed, htext, hfile⟩, hcarriesText, hcarriesSequence⟩

/-! ## Occurrences in the order of declaration -/

theorem mem_occurrencesInAll {site : Site} {nodes : List Node} {occurrence : Occurrence} :
    occurrence ∈ occurrencesInAll site nodes ↔
      ∃ node ∈ nodes, occurrence ∈ node.occurrences site := by
  induction nodes with
  | nil => simp [occurrencesInAll]
  | cons node rest ih => simp [occurrencesInAll, ih]

theorem mem_occurrences {site : Site} {node : Node} {occurrence : Occurrence} :
    occurrence ∈ node.occurrences site ↔ occurrence = ⟨site, node⟩ ∨
      (∃ part ∈ node.payload.nodes,
        occurrence ∈ part.occurrences (site.below node.payload.placement node)) ∨
      ∃ child ∈ node.kind.children, occurrence ∈ child.occurrences (site.below .child node) := by
  rw [occurrences_eq, List.mem_cons, List.mem_append, mem_occurrencesInAll, mem_occurrencesInAll]

/-- The nodes of a part of a tree are nodes of the tree. -/
theorem occurrences_trans {site : Site} {root : Node} {part occurrence : Occurrence}
    (hpart : part ∈ root.occurrences site)
    (h : occurrence ∈ part.node.occurrences part.site) : occurrence ∈ root.occurrences site := by
  induction root using induct generalizing site with
  | node root hpayload hchildren =>
  rcases mem_occurrences.mp hpart with rfl | ⟨node, hnode, hpart⟩ | ⟨node, hnode, hpart⟩
  · exact h
  · exact mem_occurrences.mpr (.inr (.inl ⟨node, hnode, hpayload node hnode hpart⟩))
  · exact mem_occurrences.mpr (.inr (.inr ⟨node, hnode, hchildren node hnode hpart⟩))

variable {root : Node}

theorem Occurs.mem_occurrences (h : root.Occurs placement above node) :
    (⟨.under placement above, node⟩ : Occurrence) ∈ root.occurrences .root := by
  induction h with
  | root => exact Node.mem_occurrences.mpr (.inl rfl)
  | @text placement above node text hnode hpayload ih =>
    refine occurrences_trans ih (Node.mem_occurrences.mpr (.inr (.inl ⟨text, ?_, ?_⟩)))
    · rw [hpayload]
      exact List.mem_singleton.mpr rfl
    · rw [Site.below_under, hpayload]
      exact Node.mem_occurrences.mpr (.inl rfl)
  | @element placement above elements node element hnode hpayload helement ih =>
    refine occurrences_trans ih (Node.mem_occurrences.mpr (.inr (.inl ⟨element, ?_, ?_⟩)))
    · rw [hpayload]
      exact helement
    · rw [Site.below_under, hpayload]
      exact Node.mem_occurrences.mpr (.inl rfl)
  | @child placement above node child hnode hchild ih =>
    refine occurrences_trans ih (Node.mem_occurrences.mpr (.inr (.inr ⟨child, hchild, ?_⟩)))
    rw [Site.below_under]
    exact Node.mem_occurrences.mpr (.inl rfl)

/-- A node of a payload occurs below its owner. -/
theorem Occurs.part {part : Node} (h : root.Occurs placement above node)
    (hpart : part ∈ node.payload.nodes) :
    root.Occurs node.payload.placement (node :: above) part := by
  cases hpayload : node.payload with
  | none =>
    rw [hpayload] at hpart
    cases hpart
  | text text =>
    rw [hpayload] at hpart
    obtain rfl := List.mem_singleton.mp hpart
    exact h.text hpayload
  | sequence elements =>
    rw [hpayload] at hpart
    exact h.element hpayload hpart

theorem Occurs.of_mem_occurrences {occurrence : Occurrence}
    (hnode : root.Occurs placement above node)
    (h : occurrence ∈ node.occurrences (.under placement above)) :
    ∃ placement above, occurrence.site = .under placement above ∧
      root.Occurs placement above occurrence.node := by
  induction node using induct generalizing placement above with
  | node node hpayload hchildren =>
  rcases Node.mem_occurrences.mp h with rfl | ⟨part, hpart, h⟩ | ⟨child, hchild, h⟩
  · exact ⟨placement, above, rfl, hnode⟩
  · rw [Site.below_under] at h
    exact hpayload part hpart (hnode.part hpart) h
  · rw [Site.below_under] at h
    exact hchildren child hchild (hnode.child hchild) h

/-! ## Whole trees -/

theorem wellFormed_iff_forall_violation? : root.WellFormed ↔
    ∀ occurrence ∈ root.occurrences .root, occurrence.violation? = none := by
  constructor
  · rintro h ⟨site, node⟩ hmem
    obtain ⟨placement, above, rfl, hnode⟩ := Occurs.of_mem_occurrences Occurs.root hmem
    exact violation?_eq_none.mpr (checkSelf_under.mpr (h placement above node hnode))
  · intro h placement above node hnode
    exact checkSelf_under.mp (violation?_eq_none.mp (h _ hnode.mem_occurrences))

/-- **The check accepts exactly the well-formed trees.** -/
theorem check_root_eq_ok : root.check .root = .ok () ↔ root.WellFormed := by
  rw [check_eq, verdict_eq_ok, List.findSome?_eq_none_iff, wellFormed_iff_forall_violation?]

end Node

/-! ## Refused trees -/

/-- Whether an error is about how a tree is put together. -/
def Error.Structural : Error → Prop
  | .missingName .. | .misplacedString .. | .invalidPayload .. | .emptySequence ..
  | .nestedFile .. => True
  | _ => False

theorem Error.Structural.category {error : Error} (h : error.Structural) :
    error.category = .configuration := by
  cases error <;> first | rfl | cases h

namespace Node

variable {site : Site} {node : Node} {error : Error}

theorem structural_of_checkKind (h : node.checkKind site = .error error) : error.Structural := by
  unfold checkKind at h
  split at h
  · cases h
    trivial
  · split at h
    · cases h
      trivial
    · split at h
      · cases h
        trivial
      · cases h

theorem structural_of_checkPayload (h : node.checkPayload site = .error error) :
    error.Structural := by
  unfold checkPayload at h
  split at h
  case h_1 => cases h
  case h_2 =>
    split at h
    · split at h
      · cases h
        trivial
      · split at h
        · cases h
          trivial
        · cases h
    · cases h
      trivial
  case h_3 =>
    split at h
    · split at h
      · cases h
        trivial
      · cases h
    · cases h
      trivial

theorem structural_of_violation? {occurrence : Occurrence}
    (h : occurrence.violation? = some error) : error.Structural := by
  rw [← verdict_eq_error, Occurrence.verdict_violation?] at h
  unfold checkSelf at h
  cases hkind : occurrence.node.checkKind occurrence.site with
  | error other =>
    rw [hkind] at h
    cases h
    exact structural_of_checkKind hkind
  | ok =>
    rw [hkind] at h
    exact structural_of_checkPayload h

/-- **A refused tree breaks a rule.** -/
theorem structural_of_check (h : node.check site = .error error) : error.Structural := by
  rw [check_eq, verdict_eq_error, List.findSome?_eq_some_iff] at h
  obtain ⟨before, occurrence, after, -, hviolation, -⟩ := h
  exact structural_of_violation? hviolation

end Node

end ByteLayout
