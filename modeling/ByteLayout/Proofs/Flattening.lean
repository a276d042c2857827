import ByteLayout.Proofs.Progress
import ByteLayout.Proofs.Rewriting
import ByteLayout.Proofs.Splicing

/-!
# Layouts without groups and repeated byte orders

`Node.flat` gives the flat form of a tree: the children of every group among children stand in its
place, and a byte order that is in force already becomes a group. Groups among the elements of a
sequence stay, since the number of elements decides how an item is looked up and what it becomes.

**Theorem (`Schema.flat_transparent`).** A layout and its flat form are written and read alike.

The induction is over the tree, with two forms for lists. Elements are planned one for one. Children
share one input, so that it only matters which nodes there are and in which order, and only the
record after them is kept (`Pass.among`); therefore a group can be taken out of the list. A walk
knows of its site only the placement and whether it lies in a file, and both are the same within a
group as around it.
-/

namespace ByteLayout

namespace Node

/-- What stands among children for a node and its flat form: the children of a group, and otherwise
the flat form itself. -/
def unwrapped (node flat : Node) : List Node :=
  match node.kind with
  | .group _ => flat.kind.children
  | _ => [flat]

mutual

/-- The flat form of a tree that lies below the byte order `order`. -/
def flat (order : Option ByteOrder) : Node → Node
  | mk kind name default payload =>
    mk (flatKind order kind) name default (flatPayload order payload)

def flatPayload (order : Option ByteOrder) : Payload → Payload
  | .none => .none
  | .text node => .text node
  | .sequence elements => .sequence (flatEach order elements)

/-- A byte order that is in force already becomes a group. -/
def flatKind (order : Option ByteOrder) : Kind → Kind
  | .order inner children =>
    if order = some inner then .group (flatAll (some inner) children)
    else .order inner (flatAll (some inner) children)
  | .directory path children => .directory path (flatAll order children)
  | .file path children => .file path (flatAll order children)
  | .group children => .group (flatAll order children)
  | .select choose => .select choose
  | .custom codec => .custom codec
  | .text encoding => .text encoding
  | .int kind => .int kind
  | .float kind => .float kind

/-- The elements of a sequence stay as many as they are. -/
def flatEach (order : Option ByteOrder) : List Node → List Node
  | [] => []
  | node :: rest => flat order node :: flatEach order rest

/-- Among children the children of a group stand in its place. -/
def flatAll (order : Option ByteOrder) : List Node → List Node
  | [] => []
  | node :: rest => unwrapped node (flat order node) ++ flatAll order rest

end

theorem isField_flatKind (order : Option ByteOrder) (kind : Kind) :
    (flatKind order kind).isField = kind.isField := by
  cases kind with
  | order inner children => rw [flatKind]; split <;> rfl
  | _ => rfl

theorem isText_flatKind (order : Option ByteOrder) (kind : Kind) :
    (flatKind order kind).isText = kind.isText := by
  cases kind with
  | order inner children => rw [flatKind]; split <;> rfl
  | _ => rfl

theorem isFile_flatKind (order : Option ByteOrder) (kind : Kind) :
    (flatKind order kind).isFile = kind.isFile := by
  cases kind with
  | order inner children => rw [flatKind]; split <;> rfl
  | _ => rfl

theorem isFile_flat (order : Option ByteOrder) (node : Node) :
    (node.flat order).kind.isFile = node.kind.isFile := by
  obtain ⟨kind, name, default, payload⟩ := node
  exact isFile_flatKind order kind

theorem isEmpty_flatEach (order : Option ByteOrder) (elements : List Node) :
    (flatEach order elements).isEmpty = elements.isEmpty := by
  cases elements <;> rfl

/-! ## Accepted trees -/

variable {site other : Site} {order : Option ByteOrder}

theorem checkAll_append (site : Site) (first second : List Node) :
    checkAll site (first ++ second) = .ok () ↔
      checkAll site first = .ok () ∧ checkAll site second = .ok () := by
  induction first with
  | nil => exact ⟨fun h => ⟨rfl, h⟩, fun h => h.2⟩
  | cons node rest ih =>
    rw [List.cons_append, checkAll, checkAll, bind_unit_eq_ok, bind_unit_eq_ok, ih, and_assoc]

theorem filesInAll_append (first second : List Node) :
    filesInAll (first ++ second) = filesInAll first + filesInAll second := by
  induction first with
  | nil => exact (Nat.zero_add _).symm
  | cons node rest ih => rw [List.cons_append, filesInAll, filesInAll, ih, Nat.add_assoc]

/-- One test of a check is passed, and so are those behind it. -/
theorem ite_error_eq_ok {p : Prop} [Decidable p] {error : Error} {rest : Except Error Unit} :
    (if p then .error error else rest) = .ok () ↔ ¬p ∧ rest = .ok () := by
  by_cases hp : p
  · simp [hp]
  · simp [hp]

theorem checkKind_flat (h : site.Alike other) (node : Node) :
    (node.flat order).checkKind other = .ok () ↔ node.checkKind site = .ok () := by
  obtain ⟨kind, name, default, payload⟩ := node
  unfold checkKind
  rw [ite_error_eq_ok, ite_error_eq_ok, ite_error_eq_ok, ite_error_eq_ok, ite_error_eq_ok,
    ite_error_eq_ok, ← h.placement, ← h.inFile]
  simp only [flat, Node.kind, Node.name, isField_flatKind, isText_flatKind, isFile_flatKind]

theorem checkPayload_flat {node : Node} (h : node.checkPayload site = .ok ()) :
    (node.flat order).checkPayload other = .ok () := by
  obtain ⟨kind, name, default, payload⟩ := node
  rw [checkPayload_eq_ok] at h ⊢
  refine ⟨fun text htext => ?_, fun elements helements => ?_⟩
  · cases payload with
    | text node =>
      cases htext
      obtain ⟨hisText, unsigned, rfl, hunsigned⟩ := h.1 _ rfl
      exact ⟨hisText, unsigned, rfl, hunsigned⟩
    | _ => cases htext
  · cases payload with
    | sequence nodes =>
      cases helements
      obtain ⟨hnodes, count, rfl⟩ := h.2 _ rfl
      refine ⟨fun hempty => hnodes ?_, count, rfl⟩
      rwa [← List.isEmpty_iff, ← isEmpty_flatEach order, List.isEmpty_iff]
    | _ => cases helements

/-- Whether nodes can stand in the place of others: they are accepted, and hold as many files. -/
structure Replaces (site : Site) (others nodes : List Node) : Prop where
  accepted : checkAll site others = .ok ()
  files : filesInAll others = filesInAll nodes

theorem Replaces.append {first second others more : List Node}
    (h : Replaces site first others) (h' : Replaces site second more) :
    Replaces site (first ++ second) (others ++ more) := by
  refine ⟨(checkAll_append site first second).mpr ⟨h.accepted, h'.accepted⟩, ?_⟩
  rw [filesInAll_append, filesInAll_append, h.files, h'.files]

theorem checkAll_cons_eq_ok {node : Node} {rest : List Node} :
    checkAll site (node :: rest) = .ok () ↔
      node.check site = .ok () ∧ checkAll site rest = .ok () := by
  rw [checkAll, bind_unit_eq_ok]

theorem check_alike (h : site.Alike other) {node : Node} (hcheck : node.check site = .ok ()) :
    node.check other = .ok () := by
  have hsite := node.check_answers site
  have hother := node.check_answers other
  rw [← findSome?_fault?_alike h node] at hother
  rw [hcheck] at hsite
  cases hfault : (node.occurrences site).findSome? Occurrence.fault? with
  | none =>
    rw [hfault] at hother
    obtain ⟨_, hok⟩ := hother
    exact hok
  | some fault =>
    rw [hfault] at hsite
    obtain ⟨error, herror, -⟩ := hsite
    cases herror

/-- Only integers carry payloads. -/
theorem payload_eq_none {node : Node} (h : node.checkPayload site = .ok ())
    (hkind : ∀ kind : IntKind, node.kind ≠ .int kind) : node.payload = .none := by
  rw [checkPayload_eq_ok] at h
  cases hpayload : node.payload with
  | none => rfl
  | text text =>
    obtain ⟨-, kind, hint, -⟩ := h.1 text hpayload
    exact absurd hint (hkind kind)
  | sequence elements =>
    obtain ⟨-, kind, hint⟩ := h.2 elements hpayload
    exact absurd hint (hkind kind)

theorem check_eq_ok_iff {node : Node} : node.check site = .ok () ↔ node.checkSelf site = .ok () ∧
    checkAll (site.below node.payload.placement node) node.payload.nodes = .ok () ∧
      checkAll (site.below .child node) node.kind.children = .ok () := by
  rw [check_eq_bind]
  exact bind_unit_eq_ok.trans (and_congr_right fun _ => bind_unit_eq_ok)

theorem placement_flatPayload (order : Option ByteOrder) (payload : Payload) :
    (flatPayload order payload).placement = payload.placement := by
  cases payload <;> rfl

theorem checkSelf_flat (h : site.Alike other) {node : Node} (hself : node.checkSelf site = .ok ()) :
    (node.flat order).checkSelf other = .ok () := by
  obtain ⟨hkind, hpayload⟩ := checkSelf_eq_ok.mp hself
  exact checkSelf_eq_ok.mpr ⟨(checkKind_flat h node).mpr hkind, checkPayload_flat hpayload⟩

/-- A flat node takes the place of a node if its parts take the places of the parts. -/
theorem replaces_of_parts (h : site.Alike other) {node : Node}
    (hself : node.checkSelf site = .ok ())
    (hpayload : Replaces (other.below node.payload.placement (node.flat order))
      (node.flat order).payload.nodes node.payload.nodes)
    (hchildren : Replaces (other.below .child (node.flat order))
      (node.flat order).kind.children node.kind.children) :
    Replaces other [node.flat order] [node] := by
  obtain ⟨kind, name, default, payload⟩ := node
  refine ⟨?_, ?_⟩
  · rw [checkAll_singleton, check_eq_ok_iff]
    refine ⟨checkSelf_flat h hself, ?_, hchildren.accepted⟩
    show checkAll (other.below (flatPayload order payload).placement _) _ = _
    rw [placement_flatPayload]
    exact hpayload.accepted
  · have hfile : (flat order (mk kind name default payload)).kind.isFile = kind.isFile :=
      isFile_flatKind order kind
    rw [filesInAll, filesInAll, filesInAll, fileCount_eq, fileCount_eq, hpayload.files,
      hchildren.files, hfile]
    rfl

/-- Below a site it only matters of a node whether it is a file. -/
theorem alike_below (h : site.Alike other) (placement : Placement) {node node' : Node}
    (hfile : node'.kind.isFile = node.kind.isFile) :
    (site.below placement node).Alike (other.below placement node') := by
  refine ⟨rfl, ?_⟩
  show (site.inFile || node.kind.isFile) = (other.inFile || node'.kind.isFile)
  rw [h.inFile, hfile]

mutual

theorem replaces_flat {site other : Site} (h : site.Alike other) (order : Option ByteOrder) :
    ∀ node : Node, node.check site = .ok () → Replaces other [node.flat order] [node]
  | .mk kind name default payload => by
    intro hcheck
    obtain ⟨hself, hpayload, hchildren⟩ := check_eq_ok_iff.mp hcheck
    exact replaces_of_parts h hself (replacesPayload_flat (alike_below h _ (isFile_flat order _))
      order payload hpayload) (replacesKind_flat (alike_below h _ (isFile_flat order _)) order rfl
        kind hchildren)
termination_by structural node => node

theorem replacesPayload_flat {site other : Site} (h : site.Alike other) (order : Option ByteOrder) :
    ∀ payload : Payload, checkAll site payload.nodes = .ok () →
      Replaces other (flatPayload order payload).nodes payload.nodes
  | .none => fun _ => ⟨rfl, rfl⟩
  | .text text => fun hcheck => by
    refine ⟨?_, rfl⟩
    rw [Payload.nodes, checkAll_singleton] at hcheck
    exact (checkAll_singleton other text).trans (check_alike h hcheck)
  | .sequence elements => replacesEach_flat h order elements
termination_by structural payload => payload

theorem replacesKind_flat {site other : Site} (h : site.Alike other) (order : Option ByteOrder)
    (hplace : site.placement = .child) : ∀ kind : Kind, checkAll site kind.children = .ok () →
      Replaces other (flatKind order kind).children kind.children
  | .order inner children => by
    intro hcheck
    have hchildren := replacesAll_flat h (some inner) hplace children hcheck
    rw [flatKind]
    split <;> exact hchildren
  | .directory _ children => replacesAll_flat h order hplace children
  | .file _ children => replacesAll_flat h order hplace children
  | .group children => replacesAll_flat h order hplace children
  | .select _ => fun _ => ⟨rfl, rfl⟩
  | .custom _ => fun _ => ⟨rfl, rfl⟩
  | .text _ => fun _ => ⟨rfl, rfl⟩
  | .int _ => fun _ => ⟨rfl, rfl⟩
  | .float _ => fun _ => ⟨rfl, rfl⟩
termination_by structural kind => kind

theorem replacesEach_flat {site other : Site} (h : site.Alike other) (order : Option ByteOrder) :
    ∀ nodes : List Node, checkAll site nodes = .ok () → Replaces other (flatEach order nodes) nodes
  | [] => fun _ => ⟨rfl, rfl⟩
  | node :: rest => fun hcheck =>
    (replaces_flat h order node (checkAll_cons_eq_ok.mp hcheck).1).append
      (replacesEach_flat h order rest (checkAll_cons_eq_ok.mp hcheck).2)
termination_by structural nodes => nodes

theorem replacesAll_flat {site other : Site} (h : site.Alike other) (order : Option ByteOrder)
    (hplace : site.placement = .child) : ∀ nodes : List Node, checkAll site nodes = .ok () →
      Replaces other (flatAll order nodes) nodes
  | [] => fun _ => ⟨rfl, rfl⟩
  | .mk kind name default payload :: rest => by
    intro hcheck
    obtain ⟨hnode, hrest⟩ := checkAll_cons_eq_ok.mp hcheck
    have hothers := replacesAll_flat h order hplace rest hrest
    show Replaces other (unwrapped (mk kind name default payload) _ ++ flatAll order rest)
      ([mk kind name default payload] ++ rest)
    refine .append ?_ hothers
    cases kind with
    | group children =>
      obtain ⟨hself, -, hchildren⟩ := check_eq_ok_iff.mp hnode
      have hinside : (site.below .child (mk (.group children) name default payload)).Alike other :=
        ⟨hplace.symm.trans h.placement, (Bool.or_false _).trans h.inFile⟩
      obtain ⟨haccepted, hfiles⟩ := replacesAll_flat hinside order rfl children hchildren
      have hpayload := payload_eq_none (checkSelf_eq_ok.mp hself).2 nofun
      refine ⟨haccepted, hfiles.trans ?_⟩
      rw [filesInAll, filesInAll, fileCount_eq, hpayload]
      exact (Nat.zero_add _).symm
    | _ => exact replaces_flat h order _ hnode
termination_by structural nodes => nodes

end

end Node

/-! ## Scopes -/

theorem Scope.withOrder_of_order {scope : Scope} {order : ByteOrder}
    (h : scope.order = some order) : scope.withOrder order = scope := by
  rw [withOrder, ← h]

theorem Scope.order_enterFile {scope inner : Scope} {relative : String}
    (h : scope.enterFile relative = .ok inner) : inner.order = scope.order := by
  unfold enterFile at h
  split at h
  · cases h
  · cases h
    rfl

theorem Node.isKeyed_flat (order : Option ByteOrder) (node : Node) :
    (node.flat order).isKeyed = node.isKeyed := by
  obtain ⟨kind, name, default, payload⟩ := node
  show (name.isSome || !(flatKind order kind).isField) = (name.isSome || !kind.isField)
  rw [isField_flatKind]

theorem Node.all_isKeyed_flatEach (order : Option ByteOrder) (elements : List Node) :
    (flatEach order elements).all isKeyed = elements.all isKeyed := by
  induction elements with
  | nil => rfl
  | cons node rest ih => rw [flatEach, List.all_cons, List.all_cons, ih, isKeyed_flat]

theorem Node.itemValue_flatEach (order : Option ByteOrder) (elements : List Node) :
    itemValue (flatEach order elements) = itemValue elements := by
  funext record results
  unfold itemValue
  rw [all_isKeyed_flatEach]
  cases elements with
  | nil => rfl
  | cons node rest => cases rest <;> cases results <;> rfl

theorem Node.length_flatEach (order : Option ByteOrder) (elements : List Node) :
    (flatEach order elements).length = elements.length := by
  induction elements with
  | nil => rfl
  | cons node rest ih => exact congrArg (· + 1) ih

theorem Input.enter_enter (input : Input) : input.enter.enter = input.enter := by
  cases input <;> rfl

theorem Input.enter_below (input : Input) (key : String) :
    (input.below key).enter = input.below key := by
  unfold below
  split
  · split <;> rfl
  · rfl

/-! ## Write passes -/

namespace Write

theorem Script.bind_pure {α : Type} (script : Script α) : script >>= Pure.pure = script :=
  Dialogue.andThen_ok script

namespace Pass

variable (pass : Pass)

/-- Plans nodes that share an input. It gives the record after them. -/
def among (site : Site) (scope : Scope) (input : Input) :
    Fields Value → List Node → Script (Fields Value)
  | record, [] => return record
  | record, node :: rest => do
    let kept ← pass.walk site scope input record node
    among site scope input kept.2 rest

theorem arrange_walkAll (site : Site) (scope : Scope) (input : Input) :
    ∀ (index : Nat) (record : Fields Value) (nodes : List Node),
      arrange (pass.walkAll site scope (fun _ => input) index record nodes) =
        pass.among site scope input record nodes >>= fun record => return (.null, record)
  | _, _, [] => rfl
  | index, record, node :: rest => by
    rw [walkAll, among, arrange, Script.bind_assoc, Script.bind_assoc]
    refine congrArg (pass.walk site scope input record node >>= ·) (funext fun kept => ?_)
    rw [← arrange_walkAll site scope input (index + 1) kept.2 rest]
    exact Script.bind_assoc _ _ _

theorem among_append (site : Site) (scope : Scope) (input : Input) :
    ∀ (record : Fields Value) (first second : List Node),
      pass.among site scope input record (first ++ second) =
        pass.among site scope input record first >>= fun record =>
          pass.among site scope input record second
  | _, [], _ => rfl
  | record, node :: rest, second => by
    rw [List.cons_append, among, among, Script.bind_assoc]
    exact congrArg (pass.walk site scope input record node >>= ·) (funext fun kept =>
      among_append site scope input kept.2 rest second)

/-- A file needs of its content the record alone. -/
theorem inFile_congr {relative : String} {scope : Scope} {record : Fields Value}
    {content content' : Scope → Fields Value → Script (List Value × Fields Value)}
    (h : ∀ inner record, inner.order = scope.order →
      arrange (content' inner record) = arrange (content inner record)) :
    pass.inFile relative scope record content' = pass.inFile relative scope record content := by
  unfold inFile
  dsimp only
  cases hinner : scope.enterFile relative with
  | error error => rfl
  | ok inner =>
    have hwritten : ∀ walked : Script (List Value × Fields Value), (walked >>= fun results => do
        .step (.closeFile (Path.resolve scope.dir relative))
        return if pass.nest then Fields.insert record relative (.record results.2)
          else results.2) = arrange walked >>= fun kept => do
        .step (.closeFile (Path.resolve scope.dir relative))
        return if pass.nest then Fields.insert record relative (.record kept.2) else kept.2 :=
      fun walked => by
        rw [arrange, Script.bind_assoc]
        rfl
    refine congrArg (Script.event _ >>= ·) (funext fun _ => congrArg (Script.step _ >>= ·)
      (funext fun _ => ?_))
    exact (hwritten _).trans ((congrArg (· >>= _) (h inner _ (Scope.order_enterFile hinner))).trans
      (hwritten _).symm)

/-- A sequence of the same items. -/
theorem sequence_congr {kind : IntKind} {elements elements' : List Node}
    (hvalue : Node.itemValue elements' = Node.itemValue elements) {name : Option String}
    {default : Option Value} {scope : Scope} {input : Input} {record : Fields Value}
    {content content' : Scope → Provider → Script (List Value × Fields Value)}
    (h : ∀ inner item, inner.order = scope.order → content' inner item = content inner item) :
    pass.sequence kind elements' name default scope input record content' =
      pass.sequence kind elements name default scope input record content := by
  have hitem : ∀ index, content' (scope.item index) = content (scope.item index) :=
    fun index => funext fun item => h (scope.item index) item rfl
  unfold sequence
  simp only [hvalue, hitem]

mutual

/-- **A tree and its flat form are planned alike.** -/
theorem walk_flat {site other : Site} (h : site.Alike other) (scope : Scope) (input : Input)
    (record : Fields Value) : ∀ node : Node,
      pass.walk other scope input record (node.flat scope.order) =
        pass.walk site scope input record node
  | .mk kind name default payload => by
    cases kind with
    | order inner children =>
      have hchildren : ∀ node' : Node, node'.kind.isFile = false →
          pass.among (other.below .child node') (scope.withOrder inner) input.enter record
              (Node.flatAll (some inner) children) =
            pass.among (site.below .child (.mk (.order inner children) name default payload))
              (scope.withOrder inner) input.enter record children := fun node' hfile =>
        among_flat (Node.alike_below h _ hfile) rfl (scope.withOrder inner) input.enter
          input.enter_enter record children
      rw [Node.flat, Node.flatKind]
      by_cases horder : scope.order = some inner
      · rw [if_pos horder, walk, walk, arrange_walkAll, arrange_walkAll]
        rw [Scope.withOrder_of_order horder] at hchildren ⊢
        exact congrArg (· >>= _) (hchildren _ rfl)
      · rw [if_neg horder, walk, walk, arrange_walkAll, arrange_walkAll]
        exact congrArg (· >>= _) (hchildren _ rfl)
    | group children =>
      rw [Node.flat, Node.flatKind, walk, walk, arrange_walkAll, arrange_walkAll]
      exact congrArg (· >>= _) (among_flat (Node.alike_below h _ (by rfl)) rfl scope input.enter
        input.enter_enter record children)
    | directory path children =>
      rw [Node.flat, Node.flatKind, walk, walk, arrange_walkAll, arrange_walkAll]
      exact congrArg (· >>= _) (among_flat (Node.alike_below h _ (by rfl)) rfl (scope.enterDir path)
        (input.below path) (input.enter_below path) record children)
    | file path children =>
      rw [Node.flat, Node.flatKind, walk, walk]
      refine congrArg (· >>= _) (pass.inFile_congr fun inner record hinner => ?_)
      rw [arrange_walkAll, arrange_walkAll, ← hinner]
      exact congrArg (· >>= _) (among_flat (Node.alike_below h _ (by rfl)) rfl inner
        (input.below path) (input.enter_below path) record children)
    | select choose =>
      rw [Node.flat, Node.flatKind, walk, walk]
      unfold Site.ofSelect
      rw [h.placement, h.inFile]
      rfl
    | custom codec =>
      rw [Node.flat, Node.flatKind, walk, walk]
      rfl
    | text encoding =>
      rw [Node.flat, Node.flatKind, walk, walk]
    | float kind =>
      rw [Node.flat, Node.flatKind, walk, walk]
      rfl
    | int kind =>
      cases payload with
      | none =>
        rw [Node.flat, Node.flatKind, Node.flatPayload, walk, walk]
      | text text =>
        rw [Node.flat, Node.flatKind, Node.flatPayload, walk, walk]
      | sequence elements =>
        rw [Node.flat, Node.flatKind, Node.flatPayload, walk, walk, Node.length_flatEach]
        refine pass.sequence_congr (Node.itemValue_flatEach _ elements) fun inner item hinner => ?_
        have horder : inner.order = scope.order := hinner
        rw [← horder]
        exact walkEach_flat (Node.alike_below h _ (by rfl)) inner _ 0 [] elements
termination_by structural node => node

theorem walkEach_flat {site other : Site} (h : site.Alike other) (scope : Scope)
    (inputs : Nat → Input) : ∀ (index : Nat) (record : Fields Value) (nodes : List Node),
      pass.walkAll other scope inputs index record (Node.flatEach scope.order nodes) =
        pass.walkAll site scope inputs index record nodes
  | _, _, [] => rfl
  | index, record, node :: rest => by
    rw [Node.flatEach, walkAll, walkAll, walk_flat h scope _ record node]
    exact congrArg (_ >>= ·) (funext fun kept => congrArg (· >>= _)
      (walkEach_flat h scope inputs (index + 1) kept.2 rest))
termination_by structural _ _ nodes => nodes

theorem among_flat {site other : Site} (h : site.Alike other) (hplace : site.placement = .child)
    (scope : Scope) (input : Input) (hinput : input.enter = input) :
    ∀ (record : Fields Value) (nodes : List Node),
      pass.among other scope input record (Node.flatAll scope.order nodes) =
        pass.among site scope input record nodes
  | _, [] => rfl
  | record, .mk kind name default payload :: rest => by
    have hfirst : pass.among other scope input record
        (Node.unwrapped (.mk kind name default payload)
          (Node.flat scope.order (.mk kind name default payload))) =
        pass.walk site scope input record (.mk kind name default payload) >>= fun kept =>
            return kept.2 := by
      cases kind with
      | group children =>
        rw [walk, arrange_walkAll, hinput, Script.bind_assoc]
        exact (among_flat ⟨hplace.symm.trans h.placement, (Bool.or_false _).trans h.inFile⟩ rfl
          scope input hinput record children).trans (Script.bind_pure _).symm
      | _ => exact congrArg (· >>= _) (walk_flat h scope input record _)
    rw [Node.flatAll, among_append, among, hfirst, Script.bind_assoc]
    exact congrArg (_ >>= ·) (funext fun kept =>
      among_flat h hplace scope input hinput kept.2 rest)
termination_by structural _ nodes => nodes

end

end Pass

end Write

/-! ## Read passes -/

namespace Read

namespace Plan

variable {α β γ : Type}

theorem bind_assoc (plan : Plan α) (f : α → Plan β) (g : β → Plan γ) :
    (plan >>= f) >>= g = plan >>= fun a => f a >>= g :=
  Dialogue.andThen_assoc plan f g

theorem bind_pure (plan : Plan α) : plan >>= Pure.pure = plan := Dialogue.andThen_ok plan

end Plan

namespace Pass

variable (pass : Pass)

/-- Plans nodes one after the other. It gives the record after them. -/
def among (site : Site) (scope : Scope) (transform : Option Transform) :
    Fields Value → List Node → Plan (Fields Value)
  | record, [] => return record
  | record, node :: rest => do
    let kept ← pass.walk site scope transform record node
    among site scope transform kept.2 rest

theorem arrange_walkAll (site : Site) (scope : Scope) (transform : Option Transform) :
    ∀ (record : Fields Value) (nodes : List Node),
      arrange (pass.walkAll site scope transform record nodes) =
        pass.among site scope transform record nodes >>= fun record => return (.null, record)
  | _, [] => rfl
  | record, node :: rest => by
    rw [walkAll, among, arrange, Plan.bind_assoc, Plan.bind_assoc]
    refine congrArg (pass.walk site scope transform record node >>= ·) (funext fun kept => ?_)
    rw [← arrange_walkAll site scope transform kept.2 rest]
    exact Plan.bind_assoc _ _ _

theorem among_append (site : Site) (scope : Scope) (transform : Option Transform) :
    ∀ (record : Fields Value) (first second : List Node),
      pass.among site scope transform record (first ++ second) =
        pass.among site scope transform record first >>= fun record =>
          pass.among site scope transform record second
  | _, [], _ => rfl
  | record, node :: rest, second => by
    rw [List.cons_append, among, among, Plan.bind_assoc]
    exact congrArg (pass.walk site scope transform record node >>= ·) (funext fun kept =>
      among_append site scope transform kept.2 rest second)

/-- A file needs of its content the record alone. -/
theorem inFile_congr {relative : String} {scope : Scope} {record : Fields Value}
    {content content' : Scope → Fields Value → Plan (List Value × Fields Value)}
    (h : ∀ inner record, inner.order = scope.order →
      arrange (content' inner record) = arrange (content inner record)) :
    pass.inFile relative scope record content' = pass.inFile relative scope record content := by
  unfold inFile
  dsimp only
  cases hinner : scope.enterFile relative with
  | error error => rfl
  | ok inner =>
    have hread : ∀ walked : Plan (List Value × Fields Value), (walked >>= fun results => do
        .closeFile (Path.resolve scope.dir relative)
        return if pass.nest then Fields.insert record relative (.record results.2)
          else results.2) = arrange walked >>= fun kept => do
        .closeFile (Path.resolve scope.dir relative)
        return if pass.nest then Fields.insert record relative (.record kept.2) else kept.2 :=
      fun walked => by
        rw [arrange, Plan.bind_assoc]
        rfl
    refine congrArg (Plan.event _ >>= ·) (funext fun _ => congrArg (Plan.openFile _ >>= ·)
      (funext fun _ => ?_))
    exact (hread _).trans ((congrArg (· >>= _) (h inner _ (Scope.order_enterFile hinner))).trans
      (hread _).symm)

/-- A sequence of the same items. -/
theorem sequence_congr {kind : IntKind} {elements elements' : List Node}
    (hvalue : Node.itemValue elements' = Node.itemValue elements) {name : Option String}
    {scope : Scope} {transform : Option Transform} {record : Fields Value}
    {content content' : Scope → Option Transform → Plan (List Value × Fields Value)}
    (h : ∀ inner transform, inner.order = scope.order →
      content' inner transform = content inner transform) :
    pass.sequence kind elements' name scope transform record content' =
      pass.sequence kind elements name scope transform record content := by
  have hitem : ∀ index, content' (scope.item index) = content (scope.item index) :=
    fun index => funext fun item => h (scope.item index) item rfl
  unfold sequence
  simp only [hvalue, hitem]

mutual

/-- **A tree and its flat form are planned alike.** -/
theorem walk_flat {site other : Site} (h : site.Alike other) (scope : Scope)
    (transform : Option Transform) (record : Fields Value) : ∀ node : Node,
      pass.walk other scope transform record (node.flat scope.order) =
        pass.walk site scope transform record node
  | .mk kind name default payload => by
    cases kind with
    | order inner children =>
      have hchildren : ∀ node' : Node, node'.kind.isFile = false →
          pass.among (other.below .child node') (scope.withOrder inner) transform record
              (Node.flatAll (some inner) children) =
            pass.among (site.below .child (.mk (.order inner children) name default payload))
              (scope.withOrder inner) transform record children := fun node' hfile =>
        among_flat (Node.alike_below h _ hfile) rfl (scope.withOrder inner) transform record
          children
      rw [Node.flat, Node.flatKind]
      by_cases horder : scope.order = some inner
      · rw [if_pos horder, walk, walk, arrange_walkAll, arrange_walkAll]
        rw [Scope.withOrder_of_order horder] at hchildren ⊢
        exact congrArg (· >>= _) (hchildren _ rfl)
      · rw [if_neg horder, walk, walk, arrange_walkAll, arrange_walkAll]
        exact congrArg (· >>= _) (hchildren _ rfl)
    | group children =>
      rw [Node.flat, Node.flatKind, walk, walk, arrange_walkAll, arrange_walkAll]
      exact congrArg (· >>= _) (among_flat (Node.alike_below h _ (by rfl)) rfl scope transform
        record children)
    | directory path children =>
      rw [Node.flat, Node.flatKind, walk, walk, arrange_walkAll, arrange_walkAll]
      exact congrArg (· >>= _) (among_flat (Node.alike_below h _ (by rfl)) rfl
        (scope.enterDir path) _ record children)
    | file path children =>
      rw [Node.flat, Node.flatKind, walk, walk]
      refine congrArg (· >>= _) (pass.inFile_congr fun inner record hinner => ?_)
      rw [arrange_walkAll, arrange_walkAll, ← hinner]
      exact congrArg (· >>= _) (among_flat (Node.alike_below h _ (by rfl)) rfl inner _ record
        children)
    | select choose =>
      rw [Node.flat, Node.flatKind, walk, walk]
      unfold Site.ofSelect
      rw [h.placement, h.inFile]
      rfl
    | custom codec =>
      rw [Node.flat, Node.flatKind, walk, walk]
      rfl
    | text encoding =>
      rw [Node.flat, Node.flatKind, walk, walk]
    | float kind =>
      rw [Node.flat, Node.flatKind, walk, walk]
      rfl
    | int kind =>
      cases payload with
      | none =>
        rw [Node.flat, Node.flatKind, Node.flatPayload, walk, walk]
      | text text =>
        rw [Node.flat, Node.flatKind, Node.flatPayload, walk, walk]
      | sequence elements =>
        rw [Node.flat, Node.flatKind, Node.flatPayload, walk, walk]
        refine pass.sequence_congr (Node.itemValue_flatEach _ elements) fun inner item hinner => ?_
        have horder : inner.order = scope.order := hinner
        rw [← horder]
        exact walkEach_flat (Node.alike_below h _ (by rfl)) inner _ [] elements
termination_by structural node => node

theorem walkEach_flat {site other : Site} (h : site.Alike other) (scope : Scope)
    (transform : Option Transform) : ∀ (record : Fields Value) (nodes : List Node),
      pass.walkAll other scope transform record (Node.flatEach scope.order nodes) =
        pass.walkAll site scope transform record nodes
  | _, [] => rfl
  | record, node :: rest => by
    rw [Node.flatEach, walkAll, walkAll, walk_flat h scope _ record node]
    exact congrArg (_ >>= ·) (funext fun kept => congrArg (· >>= _)
      (walkEach_flat h scope transform kept.2 rest))
termination_by structural _ nodes => nodes

theorem among_flat {site other : Site} (h : site.Alike other) (hplace : site.placement = .child)
    (scope : Scope) (transform : Option Transform) : ∀ (record : Fields Value) (nodes : List Node),
      pass.among other scope transform record (Node.flatAll scope.order nodes) =
        pass.among site scope transform record nodes
  | _, [] => rfl
  | record, .mk kind name default payload :: rest => by
    have hfirst : pass.among other scope transform record
        (Node.unwrapped (.mk kind name default payload)
          (Node.flat scope.order (.mk kind name default payload))) =
        pass.walk site scope transform record (.mk kind name default payload) >>= fun kept =>
          return kept.2 := by
      cases kind with
      | group children =>
        rw [walk, arrange_walkAll, Plan.bind_assoc]
        exact (among_flat ⟨hplace.symm.trans h.placement, (Bool.or_false _).trans h.inFile⟩ rfl
          scope transform record children).trans (Plan.bind_pure _).symm
      | _ => exact congrArg (· >>= _) (walk_flat h scope transform record _)
    rw [Node.flatAll, among_append, among, hfirst, Plan.bind_assoc]
    exact congrArg (_ >>= ·) (funext fun kept => among_flat h hplace scope transform kept.2 rest)
termination_by structural _ nodes => nodes

end

end Pass

end Read

/-! ## Passes of accepted layouts -/

namespace Schema

variable {root : Node} {schema : Schema}

/-- The flat form of an accepted tree is accepted, at the same site and with as many files. -/
theorem ofNode_flat (h : ofNode root = .ok schema) : ∃ flat : Schema,
    ofNode (root.flat none) = .ok flat ∧ flat.root = root.flat none ∧
      flat.rootSite = schema.rootSite ∧ flat.fileCount = schema.fileCount := by
  obtain ⟨rfl, hsite⟩ := of_attachAt h
  have halike : Site.Alike .root .root := ⟨rfl, rfl⟩
  have hreplaces := Node.replaces_flat halike none schema.root (hsite ▸ schema.checked)
  have hcheck : (schema.root.flat none).check .root = .ok () :=
    (Node.checkAll_singleton _ _).symm.trans hreplaces.accepted
  refine ⟨_, attachAt_of_ok hcheck, rfl, ?_, ?_⟩
  · unfold rootSite
    rw [hsite]
  · exact hreplaces.files

theorem writeScript_flat {flat : Schema} (hroot : flat.root = schema.root.flat none)
    (hsite : flat.rootSite = schema.rootSite) (hfiles : flat.fileCount = schema.fileCount)
    (provider : Provider) (options : Options) :
    flat.writeScript provider options = schema.writeScript provider options := by
  have halike : schema.rootSite.Alike schema.rootSite := ⟨rfl, rfl⟩
  have hwhole : ∀ (pass : Write.Pass) (dir : String),
      pass.walk schema.rootSite (.base dir) (.within provider) [] (schema.root.flat none) =
        pass.walk schema.rootSite (.base dir) (.within provider) [] schema.root :=
    fun pass dir => pass.walk_flat halike (.base dir) _ [] schema.root
  have hsingle : ∀ (pass : Write.Pass) (dir name : String),
      (pass.inFile name (.base dir) [] fun scope record => pass.walkAll schema.rootSite scope
        (fun _ => .within provider) 0 record [schema.root.flat none]) =
      pass.inFile name (.base dir) [] fun scope record => pass.walkAll schema.rootSite scope
        (fun _ => .within provider) 0 record [schema.root] := by
    refine fun pass dir name => pass.inFile_congr fun inner record hinner => ?_
    have hnone : inner.order = none := hinner
    rw [← hnone]
    exact congrArg _ (pass.walkEach_flat halike inner _ 0 record [schema.root])
  unfold writeScript
  simp only [hfiles, hsite, hroot, hwhole, hsingle]

theorem readPlan_flat {flat : Schema} (hroot : flat.root = schema.root.flat none)
    (hsite : flat.rootSite = schema.rootSite) (hfiles : flat.fileCount = schema.fileCount)
    (transform : Option Transform) (options : Options) :
    flat.readPlan transform options = schema.readPlan transform options := by
  have halike : schema.rootSite.Alike schema.rootSite := ⟨rfl, rfl⟩
  have hwhole : ∀ (pass : Read.Pass) (dir : String),
      pass.walk schema.rootSite (.base dir) transform [] (schema.root.flat none) =
        pass.walk schema.rootSite (.base dir) transform [] schema.root :=
    fun pass dir => pass.walk_flat halike (.base dir) _ [] schema.root
  have hsingle : ∀ (pass : Read.Pass) (dir name : String),
      (pass.inFile name (.base dir) [] fun scope record =>
        pass.walkAll schema.rootSite scope transform record [schema.root.flat none]) =
      pass.inFile name (.base dir) [] fun scope record =>
        pass.walkAll schema.rootSite scope transform record [schema.root] := by
    refine fun pass dir name => pass.inFile_congr fun inner record hinner => ?_
    have hnone : inner.order = none := hinner
    rw [← hnone]
    exact congrArg _ (pass.walkEach_flat halike inner _ record [schema.root])
  unfold readPlan
  simp only [hfiles, hsite, hroot, hwhole, hsingle]

/-- **Groups and repeated byte orders make no difference.** The flat form of an accepted layout is
accepted. From every provider it is written in the same way, with the same files, callbacks, events
and the same record or error, and from all sources it is read in the same way. -/
theorem flat_transparent (h : ofNode root = .ok schema) : ∃ flat : Schema,
    ofNode (root.flat none) = .ok flat ∧
      (∀ provider options opener,
        flat.write provider options opener = schema.write provider options opener) ∧
      ∀ transform options opener,
        flat.read transform options opener = schema.read transform options opener := by
  obtain ⟨flat, hflat, hroot, hsite, hfiles⟩ := ofNode_flat h
  rw [← (of_attachAt h).1] at hroot
  refine ⟨flat, hflat, fun provider options opener => ?_, fun transform options opener => ?_⟩
  · unfold write
    rw [writeScript_flat hroot hsite hfiles]
  · unfold read
    rw [readPlan_flat hroot hsite hfiles]

/-- A layout with groups in children lists and in an element list, and with a repeated order. -/
def layered : Node :=
  .ofKind (.order .big [
    .ofKind (.group [byteField "a", .ofKind (.group [byteField "b"])]),
    .ofKind (.order .big [.ofKind (.order .little [.ofKind (.group [byteField "c"])])]),
    (byteField "pairs").withSequence [.ofKind (.group [.ofKind (.group [byteField "d"])])]])

theorem flat_transparent_layered : ofNode layered = .ok ⟨layered, .root, rfl⟩ ∧
    layered.flat none = .ofKind (.order .big [byteField "a", byteField "b",
      .ofKind (.group [.ofKind (.order .little [byteField "c"])]),
      (byteField "pairs").withSequence [.ofKind (.group [byteField "d"])]]) ∧
    ∃ flat : Schema, ofNode (layered.flat none) = .ok flat ∧
      (∀ provider options opener, flat.write provider options opener =
        write ⟨layered, .root, rfl⟩ provider options opener) ∧
      ∀ transform options opener, flat.read transform options opener =
        read ⟨layered, .root, rfl⟩ transform options opener :=
  ⟨rfl, rfl, flat_transparent rfl⟩

end Schema

end ByteLayout
