import ByteLayout.Proofs.Table
import ByteLayout.Proofs.WellFormed
import Mathlib.Tactic.Set

/-!
# Selected nodes in place of their selects

`Node.splice` puts a tree in the place of a node of another, given by its number. The result of a
`select` is checked by itself, at a site that the links upward give; here this is compared with the
check of the spliced tree, which carries sites downward.

**Theorem (`Node.findSome?_splice`).** If a tree obeys the rules and a node in it that is no text is
replaced, the first violation is that of the new tree at the site of the node.

**Theorem (`Schema.attach_splice`).** A node may take the place of a `select` if and only if the
spliced tree is accepted; and if not, both checks fail at the same node with the same error, up to
the path it names.
-/

namespace ByteLayout

namespace Node

mutual

/-- The tree with `new` in the place of the node with the number `id`. -/
def splice (new : Node) (id : Nat) : Node → Node
  | mk kind name default payload =>
    if id = 0 then new
    else if id ≤ sizePayload payload then
      mk kind name default (splicePayload new (id - 1) payload)
    else mk (spliceKind new (id - 1 - sizePayload payload) kind) name default payload

def splicePayload (new : Node) (id : Nat) : Payload → Payload
  | .none => .none
  | .text node => .text (splice new id node)
  | .sequence elements => .sequence (spliceAll new id elements)

def spliceKind (new : Node) (id : Nat) : Kind → Kind
  | .order order children => .order order (spliceAll new id children)
  | .directory path children => .directory path (spliceAll new id children)
  | .file path children => .file path (spliceAll new id children)
  | .group children => .group (spliceAll new id children)
  | .select choose => .select choose
  | .custom codec => .custom codec
  | .text encoding => .text encoding
  | .int kind => .int kind
  | .float kind => .float kind

def spliceAll (new : Node) (id : Nat) : List Node → List Node
  | [] => []
  | node :: rest =>
    if id < node.size then splice new id node :: rest
    else node :: spliceAll new (id - node.size) rest

end

/-! ## What a node above a replaced one keeps -/

variable {new : Node} {site : Site}

theorem segment_spliceKind (id : Nat) (kind : Kind) (name : Option String)
    (default : Option Value) (payload : Payload) :
    (mk (spliceKind new id kind) name default payload).segment =
      (mk kind name default payload).segment := by
  cases name with
  | some name => rfl
  | none =>
    cases kind with
    | order order children => cases order <;> rfl
    | _ => rfl

theorem below_spliceKind (site : Site) (placement : Placement) (id : Nat) (kind : Kind)
    (name : Option String) (default : Option Value) (payload : Payload) :
    site.below placement (mk (spliceKind new id kind) name default payload) =
      site.below placement (mk kind name default payload) := by
  unfold Site.below
  rw [segment_spliceKind]
  cases kind <;> rfl

theorem checkSelf_spliceKind (site : Site) (id : Nat) (kind : Kind) (name : Option String)
    (default : Option Value) (payload : Payload) :
    (mk (spliceKind new id kind) name default payload).checkSelf site =
      (mk kind name default payload).checkSelf site := by
  unfold checkSelf checkKind checkPayload Site.path
  rw [segment_spliceKind]
  cases kind with
  | order order children => cases order <;> rfl
  | _ => rfl

theorem children_spliceKind (id : Nat) (kind : Kind) :
    (spliceKind new id kind).children = spliceAll new id kind.children := by
  cases kind <;> rfl

theorem isEmpty_spliceAll (id : Nat) (nodes : List Node) :
    (spliceAll new id nodes).isEmpty = nodes.isEmpty := by
  cases nodes with
  | nil => rfl
  | cons node rest =>
    rw [spliceAll]
    split <;> rfl

theorem checkSelf_spliceSequence (site : Site) (id : Nat) (kind : Kind) (name : Option String)
    (default : Option Value) (elements : List Node) :
    (mk kind name default (.sequence (spliceAll new id elements))).checkSelf site =
      (mk kind name default (.sequence elements)).checkSelf site := by
  unfold checkSelf checkPayload
  simp only [Node.payload, isEmpty_spliceAll]
  rfl

/-! ## The first violation of a spliced tree -/

section

variable {β : Type} {hit : Occurrence → Option β}

/-- Whether replacing any node but a text within `node`, of which all obey the rules, leaves what
`hit` finds first in `new` at the site of the replaced one. -/
def Splices (new : Node) (hit : Occurrence → Option β) (node : Node) : Prop :=
  ∀ (site : Site) (id : Nat) (occurrence : Occurrence),
    (∀ other ∈ node.occurrences site, other.violation? = none) →
    (node.occurrences site)[id]? = some occurrence → occurrence.node.kind.isText = false →
    ((splice new id node).occurrences site).findSome? hit =
      (new.occurrences occurrence.site).findSome? hit

variable {id : Nat} {occurrence : Occurrence} {kind : Kind} {name : Option String}
  {default : Option Value} {payload : Payload}

theorem findSome?_spliceAll (hhit : ∀ other, other.violation? = none → hit other = none)
    {nodes : List Node} (h : ∀ node ∈ nodes, Splices new hit node)
    (hok : ∀ other ∈ occurrencesInAll site nodes, other.violation? = none)
    (hoccurrence : (occurrencesInAll site nodes)[id]? = some occurrence)
    (htext : occurrence.node.kind.isText = false) :
    (occurrencesInAll site (spliceAll new id nodes)).findSome? hit =
      (new.occurrences occurrence.site).findSome? hit := by
  induction nodes generalizing id with
  | nil => cases hoccurrence
  | cons node rest ih =>
    rw [occurrencesInAll] at hok hoccurrence
    rw [spliceAll]
    by_cases hid : id < node.size
    · have hnode := h node List.mem_cons_self site id occurrence
        (fun other hother => hok other (List.mem_append_left _ hother))
        (by rwa [List.getElem?_append_left (by rwa [length_occurrences])] at hoccurrence) htext
      have hrest : (occurrencesInAll site rest).findSome? hit = none :=
        List.findSome?_eq_none_iff.mpr fun other hother =>
          hhit other (hok other (List.mem_append_right _ hother))
      rw [if_pos hid, occurrencesInAll, List.findSome?_append, hnode, hrest, Option.or_none]
    · have hle := Nat.le_of_not_lt hid
      have hnode : (node.occurrences site).findSome? hit = none :=
        List.findSome?_eq_none_iff.mpr fun other hother =>
          hhit other (hok other (List.mem_append_left _ hother))
      rw [List.getElem?_append_right (by rwa [length_occurrences]), length_occurrences]
        at hoccurrence
      rw [if_neg hid, occurrencesInAll, List.findSome?_append, hnode, Option.none_or]
      exact ih (fun other hother => h other (List.mem_cons_of_mem _ hother))
        (fun other hother => hok other (List.mem_append_right _ hother)) hoccurrence

/-- A text that obeys the rules has nothing below it. -/
theorem occurrences_of_isText {node : Node} (htext : node.kind.isText = true)
    (hok : node.checkSelf site = .ok ()) : node.occurrences site = [⟨site, node⟩] := by
  obtain ⟨kind, name, default, payload⟩ := node
  obtain ⟨encoding, rfl⟩ : ∃ encoding, kind = .text encoding := by
    cases kind with
    | text encoding => exact ⟨encoding, rfl⟩
    | _ => cases htext
  have hpayload := (checkSelf_eq_ok.mp hok).2
  cases payload with
  | none => rfl
  | text text => cases hpayload
  | sequence elements => cases hpayload

/-- Replacing a node in a payload, which is a sequence then, keeps its owner as it is. -/
theorem splicePayload_spec (hhit : ∀ other, other.violation? = none → hit other = none)
    (hself : (mk kind name default payload).checkSelf site = .ok ()) {below : Site}
    (h : ∀ part ∈ payload.nodes, Splices new hit part)
    (hok : ∀ other ∈ occurrencesInAll below payload.nodes, other.violation? = none)
    (hoccurrence : (occurrencesInAll below payload.nodes)[id]? = some occurrence)
    (htext : occurrence.node.kind.isText = false) :
    (mk kind name default (splicePayload new id payload)).checkSelf site = .ok () ∧
      (splicePayload new id payload).placement = payload.placement ∧
      (occurrencesInAll below (splicePayload new id payload).nodes).findSome? hit =
        (new.occurrences occurrence.site).findSome? hit := by
  cases payload with
  | none => cases hoccurrence
  | text text =>
    have hisText := (((checkPayload_eq_ok site).mp (checkSelf_eq_ok.mp hself).2).1 text rfl).1
    have hhead : (⟨below, text⟩ : Occurrence) ∈ occurrencesInAll below [text] :=
      mem_occurrencesInAll.mpr ⟨text, List.mem_singleton_self _, mem_occurrences.mpr (.inl rfl)⟩
    have hlone := occurrences_of_isText hisText (violation?_eq_none.mp (hok _ hhead))
    have hmem : occurrence ∈ occurrencesInAll below [text] := List.mem_of_getElem? hoccurrence
    rw [occurrencesInAll, occurrencesInAll, List.append_nil, hlone] at hmem
    rw [List.mem_singleton.mp hmem, hisText] at htext
    cases htext
  | sequence elements =>
    exact ⟨(checkSelf_spliceSequence site id kind name default elements).trans hself, rfl,
      findSome?_spliceAll hhit h hok hoccurrence htext⟩

/-- If a node passes its own checks, what is found is found below it. -/
theorem findSome?_occurrences (hhit : ∀ other, other.violation? = none → hit other = none)
    {node : Node} (hself : node.checkSelf site = .ok ()) : (node.occurrences site).findSome? hit =
      ((occurrencesInAll (site.below node.payload.placement node) node.payload.nodes).findSome?
        hit).or ((occurrencesInAll (site.below .child node) node.kind.children).findSome? hit) := by
  rw [occurrences_eq, List.findSome?_cons, hhit _ (violation?_eq_none.mpr hself),
    List.findSome?_append]

/-- **The first violation of a spliced tree is that of the new tree at its site.** -/
theorem findSome?_splice (hhit : ∀ other, other.violation? = none → hit other = none)
    (root : Node) : Splices new hit root := by
  induction root using induct with
  | node root hpayload hchildren =>
  obtain ⟨kind, name, default, payload⟩ := root
  intro site id occurrence hok hoccurrence htext
  rw [occurrences_eq] at hok hoccurrence
  set root := mk kind name default payload with hroot
  have hself := violation?_eq_none.mp (hok ⟨site, root⟩ List.mem_cons_self)
  have hparts : ∀ other ∈ occurrencesInAll (site.below payload.placement root) payload.nodes,
      other.violation? = none :=
    fun other hother => hok other (List.mem_cons_of_mem _ (List.mem_append_left _ hother))
  have hbelow : ∀ other ∈ occurrencesInAll (site.below .child root) kind.children,
      other.violation? = none :=
    fun other hother => hok other (List.mem_cons_of_mem _ (List.mem_append_right _ hother))
  have hnone : ∀ {list : List Occurrence}, (∀ other ∈ list, other.violation? = none) →
      list.findSome? hit = none := fun hlist =>
    List.findSome?_eq_none_iff.mpr fun other hother => hhit other (hlist other hother)
  cases id with
  | zero =>
    rw [List.getElem?_cons_zero, Option.some.injEq] at hoccurrence
    rw [← hoccurrence, hroot, splice, if_pos rfl]
  | succ k =>
  rw [List.getElem?_cons_succ] at hoccurrence
  have hlength : (occurrencesInAll (site.below payload.placement root) payload.nodes).length =
      sizePayload payload := by
    rw [length_occurrencesInAll fun _ _ _ => length_occurrences ..]
    cases payload <;> rfl
  rw [hroot, splice, if_neg (Nat.succ_ne_zero k), Nat.add_sub_cancel]
  -- the number is one of the payload or of the children; the other list has no violation
  by_cases hk : k < sizePayload payload
  · have hat : (occurrencesInAll (site.below payload.placement root) payload.nodes)[k]? =
        some occurrence := by
      rwa [← List.getElem?_append_left (hlength.symm ▸ hk)]
    obtain ⟨hself', hplacement, hfound⟩ := splicePayload_spec hhit hself hpayload hparts hat htext
    rw [if_pos (Nat.succ_le_of_lt hk), findSome?_occurrences hhit hself']
    show ((occurrencesInAll (site.below (splicePayload new k payload).placement root) _).findSome?
      hit).or ((occurrencesInAll (site.below .child root) kind.children).findSome? hit) = _
    rw [hplacement, hnone hbelow, Option.or_none]
    exact hfound
  · have hat : (occurrencesInAll (site.below .child root) kind.children)[k - sizePayload payload]? =
        some occurrence := by
      rw [← hlength]
      rwa [← List.getElem?_append_right (hlength.symm ▸ Nat.le_of_not_lt hk)]
    have hfound := findSome?_spliceAll hhit hchildren hbelow hat htext
    rw [if_neg fun h => hk (Nat.lt_of_succ_le h), findSome?_occurrences hhit
      ((checkSelf_spliceKind site _ kind name default payload).trans hself), below_spliceKind,
      below_spliceKind]
    show ((occurrencesInAll (site.below payload.placement root) payload.nodes).findSome? hit).or
      ((occurrencesInAll (site.below .child root)
        (spliceKind new _ kind).children).findSome? hit) = _
    rw [children_spliceKind, hnone hparts, Option.none_or]
    exact hfound

end

end Node

/-! ## Sites that differ in their trails -/

/-- The error without the path it names. -/
def Error.pathless : Error → Error
  | missingName kind _ => missingName kind ""
  | misplacedString kind _ => misplacedString kind ""
  | invalidPayload kind payload _ => invalidPayload kind payload ""
  | emptySequence _ => emptySequence ""
  | nestedFile _ => nestedFile ""
  | missingByteOrder _ => missingByteOrder ""
  | noFileScope kind _ => noFileScope kind ""
  | unexpectedNode kind _ => unexpectedNode kind ""
  | invalidTarget _ => invalidTarget ""
  | invalidValue _ reason => invalidValue "" reason
  | io _ cause => io "" cause
  | unexpectedEnd _ needed => unexpectedEnd "" needed
  | poisoned _ => poisoned ""
  | custom _ cause => custom "" cause

/-- A node that breaks a rule, with the error without its path. -/
def Occurrence.fault? (occurrence : Occurrence) : Option (Node × Error) :=
  occurrence.violation?.map fun error => (occurrence.node, error.pathless)

/-- Sites that differ at most in their trails. -/
structure Site.Alike (site other : Site) : Prop where
  placement : site.placement = other.placement
  inFile : site.inFile = other.inFile

theorem Site.Alike.below {site other : Site} (h : site.Alike other) (placement : Placement)
    (node : Node) : (site.below placement node).Alike (other.below placement node) :=
  ⟨rfl, congrArg (· || node.kind.isFile) h.inFile⟩

namespace Node

variable {site other : Site}

theorem checkKind_alike (h : site.Alike other) (node : Node) :
    (node.checkKind site).mapError Error.pathless =
      (node.checkKind other).mapError Error.pathless := by
  unfold checkKind
  rw [h.placement, h.inFile]
  split
  · rfl
  · split
    · rfl
    · split <;> rfl

theorem checkPayload_alike (site other : Site) (node : Node) :
    (node.checkPayload site).mapError Error.pathless =
      (node.checkPayload other).mapError Error.pathless := by
  unfold checkPayload
  cases node.payload with
  | none => rfl
  | text text =>
    cases node.kind with
    | int kind =>
      dsimp only
      split
      · rfl
      · split <;> rfl
    | _ => rfl
  | sequence elements =>
    cases node.kind with
    | int kind => cases elements <;> rfl
    | _ => rfl

theorem fault?_eq (site : Site) (node : Node) : Occurrence.fault? ⟨site, node⟩ =
    match (node.checkSelf site).mapError Error.pathless with
    | .ok _ => none
    | .error error => some (node, error) := by
  unfold Occurrence.fault? Occurrence.violation?
  cases node.checkSelf site <;> rfl

theorem fault?_alike (h : site.Alike other) (node : Node) :
    Occurrence.fault? ⟨site, node⟩ = Occurrence.fault? ⟨other, node⟩ := by
  have hself : (node.checkSelf site).mapError Error.pathless =
      (node.checkSelf other).mapError Error.pathless := by
    have hkind := checkKind_alike h node
    have hpayload := checkPayload_alike site other node
    unfold checkSelf
    cases hsite : node.checkKind site with
    | error error =>
      cases hother : node.checkKind other with
      | error error' => rwa [hsite, hother] at hkind
      | ok => rw [hsite, hother] at hkind; cases hkind
    | ok =>
      cases hother : node.checkKind other with
      | error error => rw [hsite, hother] at hkind; cases hkind
      | ok => exact hpayload
  rw [fault?_eq, fault?_eq, hself]

theorem findSome?_fault?_alikeAll {nodes : List Node} (h : site.Alike other)
    (hnodes : ∀ node ∈ nodes, ∀ site other : Site, site.Alike other →
      (node.occurrences site).findSome? Occurrence.fault? =
        (node.occurrences other).findSome? Occurrence.fault?) :
    (occurrencesInAll site nodes).findSome? Occurrence.fault? =
      (occurrencesInAll other nodes).findSome? Occurrence.fault? := by
  induction nodes with
  | nil => rfl
  | cons node rest ih =>
    rw [occurrencesInAll, occurrencesInAll, List.findSome?_append, List.findSome?_append,
      hnodes node List.mem_cons_self site other h,
      ih fun node hnode => hnodes node (List.mem_cons_of_mem _ hnode)]

/-- At sites that differ in their trails the same node is at fault, in the same way. -/
theorem findSome?_fault?_alike (h : site.Alike other) (node : Node) :
    (node.occurrences site).findSome? Occurrence.fault? =
      (node.occurrences other).findSome? Occurrence.fault? := by
  induction node using induct generalizing site other with
  | node node hpayload hchildren =>
  rw [occurrences_eq, occurrences_eq, List.findSome?_cons, List.findSome?_cons, fault?_alike h,
    List.findSome?_append, List.findSome?_append,
    findSome?_fault?_alikeAll (h.below _ node) fun part hpart _ _ h => hpayload part hpart h,
    findSome?_fault?_alikeAll (h.below _ node) fun child hchild _ _ h => hchildren child hchild h]

end Node

/-- Whether a check comes out as it must if no node is at fault, or if this is the first one. -/
def Answers {α : Type} (result : Except Error α) : Option (Node × Error) → Prop
  | none => ∃ a, result = .ok a
  | some (node, fault) => ∃ error, result = .error error ∧ fault = error.pathless ∧
    ∃ site, Occurrence.violation? ⟨site, node⟩ = some error

/-- A check answers for the first node at fault. -/
theorem Node.check_answers (site : Site) (node : Node) :
    Answers (node.check site) ((node.occurrences site).findSome? Occurrence.fault?) := by
  rw [check_eq]
  induction node.occurrences site with
  | nil => exact ⟨(), rfl⟩
  | cons occurrence rest ih =>
    rw [List.findSome?_cons, List.findSome?_cons, Occurrence.fault?]
    cases hviolation : occurrence.violation? with
    | none => exact ih
    | some error => exact ⟨error, rfl, rfl, occurrence.site, hviolation⟩

namespace Schema

theorem attachAt_answers (site : Site) (node : Node) :
    Answers (attachAt site node) ((node.occurrences site).findSome? Occurrence.fault?) := by
  have h := node.check_answers site
  cases hfault : (node.occurrences site).findSome? Occurrence.fault? with
  | none =>
    rw [hfault] at h
    obtain ⟨_, hok⟩ := h
    exact ⟨_, attachAt_of_ok hok⟩
  | some fault =>
    rw [hfault] at h
    obtain ⟨error, herror, h⟩ := h
    exact ⟨error, attachAt_of_error herror, h⟩

/-- The first fault of the spliced tree is that of the new one at the site of the replaced entry. -/
theorem findSome?_fault?_splice {root : Node} (new : Node) {schema : Schema} {id : Nat}
    {entry : Entry} (hschema : ofNode root = .ok schema) (hentry : schema.entryAt? id = some entry)
    (htext : entry.node.kind.isText = false) :
    (new.occurrences ⟨entry.placement,
        (schema.ancestors id).any fun above => above.node.kind.isFile,
        [entry.node.label]⟩).findSome? Occurrence.fault? =
      ((Node.splice new id root).occurrences .root).findSome? Occurrence.fault? := by
  obtain ⟨hroot, hsite⟩ := of_attachAt hschema
  have hok : ∀ other ∈ root.occurrences .root, other.violation? = none := by
    have hchecked := schema.checked
    rw [hroot, hsite, Node.check_eq, verdict_eq_ok] at hchecked
    exact List.findSome?_eq_none_iff.mp hchecked
  have hrootSite : schema.rootSite = .root := by
    rw [rootSite, hsite]
    rfl
  obtain ⟨occurrence, hoccurrence, hplacement, hnode⟩ := occurrence_of_entryAt? hentry
  have hinFile := any_isFile_ancestors hentry hoccurrence
  rw [hroot, hrootSite] at hoccurrence
  have hspliced : Node.Splices new Occurrence.fault? root :=
    Node.findSome?_splice (fun other hother => congrArg (Option.map _) hother) root
  rw [hspliced .root id occurrence hok hoccurrence (hnode ▸ htext)]
  exact Node.findSome?_fault?_alike ⟨hplacement.symm, hinFile⟩ new

/-- **A node may take the place of a `select` if and only if the spliced tree is accepted.** If
not, both checks fail at the same node with the same error, up to its path. -/
theorem attach_splice {root new : Node} {schema : Schema} {id : Nat} {entry : Entry}
    {choose : FieldContext → Noted Node} (hschema : ofNode root = .ok schema)
    (hentry : schema.entryAt? id = some entry) (hselect : entry.node.kind = .select choose) :
    ∃ result, schema.attach id new = some result ∧
      ((∃ attached spliced, result = .ok attached ∧
          ofNode (Node.splice new id root) = .ok spliced) ∨
        ∃ error error', result = .error error ∧ ofNode (Node.splice new id root) = .error error' ∧
          error.pathless = error'.pathless ∧
          ∃ node site site', Occurrence.violation? ⟨site, node⟩ = some error ∧
            Occurrence.violation? ⟨site', node⟩ = some error') := by
  have htext : entry.node.kind.isText = false := by
    rw [hselect]
    rfl
  have hfault := findSome?_fault?_splice new hschema hentry htext
  set site : Site := ⟨entry.placement,
    (schema.ancestors id).any fun above => above.node.kind.isFile, [entry.node.label]⟩
  refine ⟨attachAt site new, by rw [attach, hentry, Option.map_some], ?_⟩
  have hattached := attachAt_answers site new
  have hspliced := attachAt_answers .root (Node.splice new id root)
  rw [hfault] at hattached
  cases hfound : ((Node.splice new id root).occurrences .root).findSome? Occurrence.fault? with
  | none =>
    rw [hfound] at hattached hspliced
    obtain ⟨attached, hattached⟩ := hattached
    obtain ⟨spliced, hspliced⟩ := hspliced
    exact .inl ⟨attached, spliced, hattached, hspliced⟩
  | some fault =>
    rw [hfound] at hattached hspliced
    obtain ⟨error, hattached, hpathless, site, hviolation⟩ := hattached
    obtain ⟨error', hspliced, hpathless', site', hviolation'⟩ := hspliced
    exact .inr ⟨error, error', hattached, hspliced, hpathless.symm.trans hpathless', fault.1, site,
      site', hviolation, hviolation'⟩

/-- A file whose content is picked, and a file in its place. -/
def pickedContent : Node :=
  .ofKind (.file "a.bin" [.ofKind (.select fun _ => ⟨.ofKind (.group []), []⟩)])

theorem attach_splice_pickedContent : ∃ schema, ofNode pickedContent = .ok schema ∧
    (∃ path, ofNode (Node.splice (.ofKind (.file "b.bin" [])) 1 pickedContent) =
      .error (.nestedFile path)) ∧
    ∃ path, schema.attach 1 (.ofKind (.file "b.bin" [])) = some (.error (.nestedFile path)) := by
  have hschema : ofNode pickedContent = .ok ⟨pickedContent, .root, rfl⟩ := rfl
  have hentry : entryAt? ⟨pickedContent, .root, rfl⟩ 1 = some _ := rfl
  refine ⟨⟨pickedContent, .root, rfl⟩, rfl, ⟨_, rfl⟩, ?_⟩
  obtain ⟨result, hresult, ⟨attached, spliced, -, hspliced⟩ |
      ⟨error, error', rfl, hspliced, hpathless, -⟩⟩ :=
    @attach_splice pickedContent (.ofKind (.file "b.bin" [])) _ 1 _ _ hschema hentry rfl
  · cases hspliced
  · cases hspliced
    cases error with
    | nestedFile path => exact ⟨path, hresult⟩
    | _ => cases hpathless

end Schema

end ByteLayout
