import ByteLayout.Read.Field
import ByteLayout.Schema

/-!
# The walk of a read pass

`Pass.walk` plans a tree of nodes, by recursion on the tree; the result of a `select` is part of the
tree, in the branch for what its callback sees. It goes through the tree as the write pass does,
with the transform of the enclosing record in the place of an input.

A sequence reads as many items as its count says. The transform of its name changes each item as a
whole or, if it consists of fields, is handed down to the items.
-/

namespace ByteLayout.Read

namespace Pass

variable (pass : Pass)

/-- Opens a file, plans its content and closes it. -/
def inFile (relative : String) (scope : Scope) (record : Fields Value)
    (content : Scope → Fields Value → Plan (List Value × Fields Value)) :
    Plan (Fields Value) := do
  let path := Path.resolve scope.dir relative
  let scope ← .ofExcept (scope.enterFile relative)
  .event (.trace (.opening path))
  .openFile path
  let (_, read) ← content scope (if pass.nest then [] else record)
  .closeFile path
  return if pass.nest then Fields.insert record relative (.record read) else read

/-- Reads a sequence: its count, then its items. -/
def sequence (kind : IntKind) (elements : List Node) (name : Option String) (scope : Scope)
    (transform : Option Transform) (record : Fields Value)
    (content : Scope → Option Transform → Plan (List Value × Fields Value)) : Plan Kept := do
  let ofName := name.bind fun name => transform.bind (·.field? name)
  let perField := ofName.filter fun transform => transform.function?.isNone
  let n ← integer kind scope
  let count ← .ofExcept (countOf scope n)
  let items ← .collect count fun index => do
    let (results, itemRecord) ← content (scope.item index) perField
    let value ← pass.transformed ofName (scope.item index) record
      (Node.itemValue elements itemRecord results)
    .event (.itemDone scope.trail index)
    return value
  return keep name record (.list items)

/-- The value and the record of a node that only arranges others: the value is `null`. -/
def arrange (walked : Plan (List Value × Fields Value)) : Plan Kept := do
  let (_, record) ← walked
  return (.null, record)

mutual

/-- Plans a node. -/
def walk (site : Site) (scope : Scope) (transform : Option Transform) (record : Fields Value) :
    Node → Plan Kept
  | .mk kind name default payload =>
    let node := Node.mk kind name default payload
    match kind with
    | .order order children =>
      arrange (walkAll (site.below .child node) (scope.withOrder order) transform record children)
    | .group children =>
      arrange (walkAll (site.below .child node) scope transform record children)
    | .directory path children =>
      arrange (walkAll (site.below .child node) (scope.enterDir path)
        (transform.bind (·.field? path)) record children)
    | .file path children =>
      do
        let record ← pass.inFile path scope record fun scope record =>
          walkAll (site.below .child node) scope (transform.bind (·.field? path)) record children
        return (.null, record)
    | .select choose =>
      do
        let context := scope.context pass.user record
        .event (.call (.select context))
        walkChosen (site.ofSelect node) scope transform record (choose context)
    | .custom codec =>
      pass.custom codec kind.label name (scope.field node.label) transform record
    | .text encoding => .fail (.unexpectedNode encoding.label scope.trail)
    | .float kind => pass.float kind name (scope.field node.label) transform record
    | .int kind =>
      match payload with
      | .none => pass.int kind name (scope.field node.label) transform record
      | .text text => pass.string kind text name (scope.field node.label) transform record
      | .sequence elements =>
        pass.sequence kind elements name (scope.field node.label) transform record
          fun scope transform =>
            walkAll (site.below .element node) scope transform [] elements
termination_by structural node => node

/-- Plans the result of a `select`, once it is attached. -/
def walkChosen (site : Site) (scope : Scope) (transform : Option Transform)
    (record : Fields Value) : Noted Node → Plan Kept
  | ⟨node, notes⟩ => do
    .notes notes
    let schema ← .ofExcept (Schema.attachAt site node)
    walk schema.rootSite scope transform record node
termination_by structural chosen => chosen

/-- Plans nodes one after the other. -/
def walkAll (site : Site) (scope : Scope) (transform : Option Transform)
    (record : Fields Value) : List Node → Plan (List Value × Fields Value)
  | [] => return ([], record)
  | node :: rest => do
    let (value, record) ← walk site scope transform record node
    let (values, record) ← walkAll site scope transform record rest
    return (value :: values, record)
termination_by structural nodes => nodes

end

end Pass

end ByteLayout.Read
