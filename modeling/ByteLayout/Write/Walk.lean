import ByteLayout.Schema
import ByteLayout.Write.Field

/-!
# The walk of a write pass

`Pass.walk` plans a tree of nodes into a script, by recursion on the tree; the result of a `select`
is part of the tree, in the branch for what its callback sees. A node is given its site in the
schema, its scope, its input and the record so far; it gives its value and the record afterwards.

The children of a node are walked one after the other with one record. An item of a sequence starts
with an empty record, and its elements share it. Each file has its own record if the layout has more
than one.
-/

namespace ByteLayout.Write

namespace Pass

variable (pass : Pass)

/-- Opens a file, plans its content and closes it. -/
def inFile (relative : String) (scope : Scope) (record : Fields Value)
    (content : Scope → Fields Value → Script (List Value × Fields Value)) :
    Script (Fields Value) := do
  let path := Path.resolve scope.dir relative
  let scope ← .ofExcept (scope.enterFile relative)
  .event (.trace (.opening path))
  .step (.openFile path)
  let (_, written) ← content scope (if pass.nest then [] else record)
  .step (.closeFile path)
  return if pass.nest then Fields.insert record relative (.record written) else written

/-- Plans a sequence: its count, then its items. -/
def sequence (kind : IntKind) (elements : List Node) (name : Option String)
    (default : Option Value) (scope : Scope) (input : Input) (record : Fields Value)
    (content : Scope → Provider → Script (List Value × Fields Value)) : Script Kept := do
  let order ← .ofExcept (scope.fieldOrder kind.label)
  let provider ← pass.supplier name default scope input record
  let supply ← pass.supply scope record provider
  let count ← .ofCheck scope.trail (countOf kind supply.count)
  scalar scope kind.label (kind.encode order count)
  let items ← .collect supply.length fun index => do
    let item ← pass.pull scope supply index
    let (results, itemRecord) ← content (scope.item index) item
    .event (.itemDone scope.trail index)
    return Node.itemValue elements itemRecord results
  return keep name record (.list items)

/-- The value and the record of a node that only arranges others: the value is `null`. -/
def arrange (walked : Script (List Value × Fields Value)) : Script Kept := do
  let (_, record) ← walked
  return (.null, record)

mutual

/-- Plans a node. -/
def walk (site : Site) (scope : Scope) (input : Input) (record : Fields Value) :
    Node → Script Kept
  | .mk kind name default payload =>
    let node := Node.mk kind name default payload
    match kind with
    | .order order children =>
      arrange (walkAll (site.below .child node) (scope.withOrder order) (fun _ => input.enter) 0
        record children)
    | .group children =>
      arrange (walkAll (site.below .child node) scope (fun _ => input.enter) 0 record children)
    | .directory path children =>
      arrange (walkAll (site.below .child node) (scope.enterDir path) (fun _ => input.below path) 0
        record children)
    | .file path children =>
      do
        let record ← pass.inFile path scope record fun scope record =>
          walkAll (site.below .child node) scope (fun _ => input.below path) 0 record children
        return (.null, record)
    | .select choose =>
      do
        let context := scope.context pass.user record
        .event (.call (.select context))
        walkChosen (site.ofSelect node) scope input record (choose context)
    | .custom codec =>
      pass.custom codec kind.label name default (scope.field node.label) input record
    | .text encoding =>
      .fail (.unexpectedNode encoding.label scope.trail)
    | .float kind => pass.float kind name default (scope.field node.label) input record
    | .int kind =>
      match payload with
      | .none => pass.int kind name default (scope.field node.label) input record
      | .text text => pass.string kind text name default (scope.field node.label) input record
      | .sequence elements =>
        pass.sequence kind elements name default (scope.field node.label) input record
          fun scope item =>
            walkAll (site.below .element node) scope (itemInput elements.length item) 0 [] elements
termination_by structural node => node

/-- Plans the result of a `select`, once it is attached. -/
def walkChosen (site : Site) (scope : Scope) (input : Input) (record : Fields Value) :
    Noted Node → Script Kept
  | ⟨node, notes⟩ => do
    .notes notes
    let schema ← .ofExcept (Schema.attachAt site node)
    walk schema.rootSite scope input record node
termination_by structural chosen => chosen

/-- Plans nodes one after the other, of which the first has the number `index`. -/
def walkAll (site : Site) (scope : Scope) (inputs : Nat → Input) (index : Nat)
    (record : Fields Value) : List Node → Script (List Value × Fields Value)
  | [] => return ([], record)
  | node :: rest => do
    let (value, record) ← walk site scope (inputs index) record node
    let (values, record) ← walkAll site scope inputs (index + 1) record rest
    return (value :: values, record)
termination_by structural nodes => nodes

end

end Pass

end ByteLayout.Write
