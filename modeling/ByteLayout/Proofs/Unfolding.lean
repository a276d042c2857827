import ByteLayout.Proofs.Tree
import ByteLayout.Read.Pass
import ByteLayout.Write.Pass

/-!
# What a node adds to a walk

A walk goes down a tree, but what it plans for a single node depends on the plans of its parts
alone: those of its children, those of the elements of its sequence, and that of what a `select`
picks. `Pass.layer` is this dependence, with nothing recursive in it.

**Theorem (`Pass.walk_eq_layer`).** The walk of a node is its layer, with the walks of its parts.
-/

namespace ByteLayout

namespace Write.Pass

variable (pass : Pass)

/-- The plan of a list of nodes, given their scope, their inputs and the record before them. -/
abbrev Plans : Type :=
  Scope → (Nat → Input) → Fields Value → Script (List Value × Fields Value)

/-- What is planned for a node with some payload, given what is planned for its children, for its
elements and for what it picks. -/
def layer (node : Node) (payload : Payload) (children elements : Plans)
    (chosen : Noted Node → Script Kept) (scope : Scope) (input : Input) (record : Fields Value) :
    Script Kept :=
  match node.kind with
  | .order order _ => arrange (children (scope.withOrder order) (fun _ => input.enter) record)
  | .group _ => arrange (children scope (fun _ => input.enter) record)
  | .directory path _ =>
    arrange (children (scope.enterDir path) (fun _ => input.below path) record)
  | .file path _ => do
    let record ← pass.inFile path scope record fun scope record =>
      children scope (fun _ => input.below path) record
    return (.null, record)
  | .select choose => do
    let context := scope.context pass.user record
    .event (.call (.select context))
    chosen (choose context)
  | .custom codec =>
    pass.custom codec node.kind.label node.name node.default (scope.field node.label) input record
  | .text encoding => .fail (.unexpectedNode encoding.label scope.trail)
  | .float kind => pass.float kind node.name node.default (scope.field node.label) input record
  | .int kind =>
    match payload with
    | .none => pass.int kind node.name node.default (scope.field node.label) input record
    | .text text =>
      pass.string kind text node.name node.default (scope.field node.label) input record
    | .sequence nodes =>
      pass.sequence kind nodes node.name node.default (scope.field node.label) input record
        fun scope item => elements scope (itemInput nodes.length item) []

/-- The plan of the nodes of a list at one site. -/
def plansAt (site : Site) (nodes : List Node) : Plans := fun scope inputs record =>
  pass.walkAll site scope inputs 0 record nodes

/-- **The walk of a node is its layer.** -/
theorem walk_eq_layer (site : Site) (scope : Scope) (input : Input) (record : Fields Value)
    (node : Node) : pass.walk site scope input record node =
      pass.layer node node.payload (pass.plansAt (site.below .child node) node.kind.children)
        (pass.plansAt (site.below node.payload.placement node) node.payload.nodes)
        (pass.walkChosen (site.ofSelect node) scope input record) scope input record := by
  obtain ⟨kind, name, default, payload⟩ := node
  cases kind with
  | int kind => cases payload <;> (rw [walk]; rfl)
  | _ =>
    rw [walk]
    rfl

end Write.Pass

namespace Read.Pass

variable (pass : Pass)

/-- The plan of a list of nodes, given their scope, the transform and the record before them. -/
abbrev Plans : Type :=
  Scope → Option Transform → Fields Value → Plan (List Value × Fields Value)

/-- What is planned for a node with some payload, given what is planned for its children, for its
elements and for what it picks. -/
def layer (node : Node) (payload : Payload) (children elements : Plans)
    (chosen : Noted Node → Plan Kept) (scope : Scope) (transform : Option Transform)
    (record : Fields Value) : Plan Kept :=
  match node.kind with
  | .order order _ => arrange (children (scope.withOrder order) transform record)
  | .group _ => arrange (children scope transform record)
  | .directory path _ =>
    arrange (children (scope.enterDir path) (transform.bind (·.field? path)) record)
  | .file path _ => do
    let record ← pass.inFile path scope record fun scope record =>
      children scope (transform.bind (·.field? path)) record
    return (.null, record)
  | .select choose => do
    let context := scope.context pass.user record
    .event (.call (.select context))
    chosen (choose context)
  | .custom codec =>
    pass.custom codec node.kind.label node.name (scope.field node.label) transform record
  | .text encoding => .fail (.unexpectedNode encoding.label scope.trail)
  | .float kind => pass.float kind node.name (scope.field node.label) transform record
  | .int kind =>
    match payload with
    | .none => pass.int kind node.name (scope.field node.label) transform record
    | .text text => pass.string kind text node.name (scope.field node.label) transform record
    | .sequence nodes =>
      pass.sequence kind nodes node.name (scope.field node.label) transform record
        fun scope transform => elements scope transform []

/-- The plan of the nodes of a list at one site. -/
def plansAt (site : Site) (nodes : List Node) : Plans := fun scope transform record =>
  pass.walkAll site scope transform record nodes

/-- **The walk of a node is its layer.** -/
theorem walk_eq_layer (site : Site) (scope : Scope) (transform : Option Transform)
    (record : Fields Value) (node : Node) : pass.walk site scope transform record node =
      pass.layer node node.payload (pass.plansAt (site.below .child node) node.kind.children)
        (pass.plansAt (site.below node.payload.placement node) node.payload.nodes)
        (pass.walkChosen (site.ofSelect node) scope transform record) scope transform record := by
  obtain ⟨kind, name, default, payload⟩ := node
  cases kind with
  | int kind => cases payload <;> (rw [walk]; rfl)
  | _ =>
    rw [walk]
    rfl

end Read.Pass

end ByteLayout
