import ByteLayout.Proofs.Lockstep

/-!
# What a read pass finds on its way

The result of a read pass shows of every item of a sequence one value. A **survey** is the same pass
that lists beside its result all items that it reads, with the fields that it finds for each of
their elements (`Schema.survey`). A field belongs to an item if it is reached through groups, byte
orders, directories and selects; the items of a sequence within an item have their own lists.

The survey asks the very questions of the pass, in the same order, so that it gives the same result
from the same sources (`Schema.surveyPlan_tells`).
-/

namespace ByteLayout

/-- A field that was read. It is bare if its value is also that of the node from which it was
reached, and not if that node only arranges others. -/
structure Found where
  name : Option String
  value : Value
  bare : Bool

/-- A field below a node that arranges others. -/
def Found.within (field : Found) : Found := { field with bare := false }

/-- An item of a sequence that was read: the elements of the sequence, the fields that were found
for each of them, and the value that the item has then. -/
structure ItemRead where
  elements : List Node
  found : List (List Found)
  value : Value

/-- What was found below a node: the fields that belong to what is around it, and the items. -/
structure Survey where
  found : List Found
  items : List ItemRead

namespace Survey

/-- A field that holds no items. -/
def field (name : Option String) (kept : Kept) : Survey := ⟨[⟨name, kept.1, true⟩], []⟩

/-- The parts of a node that arranges them. -/
def arranged (parts : List Survey) : Survey :=
  ⟨(parts.flatMap Survey.found).map Found.within, parts.flatMap Survey.items⟩

end Survey

/-- The value, the record and the survey of a node. -/
abbrev Surveyed : Type := Kept × Survey

/-- The values, the record and the surveys of several nodes. -/
abbrev SurveyedAll : Type := (List Value × Fields Value) × List Survey

namespace Read

namespace Pass

variable (pass : Pass)

/-- Surveys a field. -/
def surveyField (name : Option String) (read : Plan Kept) : Plan Surveyed := do
  let kept ← read
  return (kept, .field name kept)

/-- Surveys a node that arranges others. -/
def surveyArranged (surveyed : Plan SurveyedAll) : Plan Surveyed := do
  let walked ← surveyed
  return ((.null, walked.1.2), .arranged walked.2)

/-- Surveys a file. Its fields belong to nothing around it. -/
def surveyFile (relative : String) (scope : Scope) (record : Fields Value)
    (content : Scope → Fields Value → Plan SurveyedAll) :
    Plan (Fields Value × List ItemRead) := do
  let path := Path.resolve scope.dir relative
  let scope ← .ofExcept (scope.enterFile relative)
  .event (.trace (.opening path))
  .openFile path
  let walked ← content scope (if pass.nest then [] else record)
  .closeFile path
  let read := walked.1.2
  return (if pass.nest then Fields.insert record relative (.record read) else read,
    walked.2.flatMap Survey.items)

/-- Surveys an item, given what is found for its elements: the value that stands for it, and the
items, of which it is the first. -/
def surveyItem (elements : List Node) (ofName : Option Transform) (scope : Scope)
    (record : Fields Value) (index : Nat) (content : Plan SurveyedAll) :
    Plan (Value × List ItemRead) := do
  let walked ← content
  let item : ItemRead :=
    ⟨elements, walked.2.map Survey.found, Node.itemValue elements walked.1.2 walked.1.1⟩
  let value ← pass.transformed ofName (scope.item index) record item.value
  .event (.itemDone scope.trail index)
  return (value, item :: walked.2.flatMap Survey.items)

/-- Surveys a sequence. -/
def surveySequence (kind : IntKind) (elements : List Node) (name : Option String) (scope : Scope)
    (transform : Option Transform) (record : Fields Value)
    (content : Scope → Option Transform → Plan SurveyedAll) : Plan Surveyed := do
  let ofName := name.bind fun name => transform.bind (·.field? name)
  let perField := ofName.filter fun transform => transform.function?.isNone
  let n ← integer kind scope
  let count ← .ofExcept (countOf scope n)
  let items ← .collect count fun index =>
    pass.surveyItem elements ofName scope record index (content (scope.item index) perField)
  let kept := keep name record (.list (items.map Prod.fst))
  return (kept, ⟨[⟨name, kept.1, true⟩], items.flatMap Prod.snd⟩)

mutual

/-- Surveys a node. -/
def survey (site : Site) (scope : Scope) (transform : Option Transform) (record : Fields Value) :
    Node → Plan Surveyed
  | .mk kind name default payload =>
    let node := Node.mk kind name default payload
    match kind with
    | .order order children =>
      surveyArranged
        (surveyAll (site.below .child node) (scope.withOrder order) transform record children)
    | .group children =>
      surveyArranged (surveyAll (site.below .child node) scope transform record children)
    | .directory path children =>
      surveyArranged (surveyAll (site.below .child node) (scope.enterDir path)
        (transform.bind (·.field? path)) record children)
    | .file path children => do
      let read ← pass.surveyFile path scope record fun scope record =>
        surveyAll (site.below .child node) scope (transform.bind (·.field? path)) record children
      return ((.null, read.1), ⟨[], read.2⟩)
    | .select choose => do
      let context := scope.context pass.user record
      .event (.call (.select context))
      surveyChosen (site.ofSelect node) scope transform record (choose context)
    | .custom codec =>
      surveyField name
        (pass.custom codec kind.label name (scope.field node.label) transform record)
    | .text encoding => .fail (.unexpectedNode encoding.label scope.trail)
    | .float kind =>
      surveyField name (pass.float kind name (scope.field node.label) transform record)
    | .int kind =>
      match payload with
      | .none => surveyField name (pass.int kind name (scope.field node.label) transform record)
      | .text text =>
        surveyField name (pass.string kind text name (scope.field node.label) transform record)
      | .sequence elements =>
        pass.surveySequence kind elements name (scope.field node.label) transform record
          fun scope transform =>
            surveyAll (site.below .element node) scope transform [] elements
termination_by structural node => node

/-- Surveys the result of a `select`, once it is attached. -/
def surveyChosen (site : Site) (scope : Scope) (transform : Option Transform)
    (record : Fields Value) : Noted Node → Plan Surveyed
  | ⟨node, notes⟩ => do
    .notes notes
    let schema ← .ofExcept (Schema.attachAt site node)
    survey schema.rootSite scope transform record node
termination_by structural chosen => chosen

/-- Surveys nodes one after the other. -/
def surveyAll (site : Site) (scope : Scope) (transform : Option Transform)
    (record : Fields Value) : List Node → Plan SurveyedAll
  | [] => return (([], record), [])
  | node :: rest => do
    let first ← survey site scope transform record node
    let others ← surveyAll site scope transform first.1.2 rest
    return ((first.1.1 :: others.1.1, others.1.2), first.2 :: others.2)
termination_by structural nodes => nodes

end

end Pass

end Read

open Read

/-- The plan of a survey. -/
def Schema.surveyPlan (schema : Schema) (transform : Option Transform) (options : Options) :
    Plan (Fields Value × List ItemRead) :=
  let pass : Pass := { user := options.user, nest := 1 < schema.fileCount }
  if schema.fileCount = 0 then do
    let (dir, name) ← .ofExcept (splitTarget options.path)
    .event (.trace (.singleFile .read options.path))
    pass.surveyFile name (.base dir) [] fun scope record =>
      pass.surveyAll schema.rootSite scope transform record [schema.root]
  else do
    let read ← pass.survey schema.rootSite (.base options.path) transform [] schema.root
    return (read.1.2, read.2.items)

/-- Reads the files of a layout and lists the items. -/
def Schema.survey (schema : Schema) (transform : Option Transform) (options : Options)
    (opener : SourceOpener) : Report (Fields Value × List ItemRead) :=
  let effective := options.clamped
  (schema.surveyPlan transform options).answer
    { opener, chunk := effective.bufferSize, debug := options.debug } (options.warnings .read)

end ByteLayout
