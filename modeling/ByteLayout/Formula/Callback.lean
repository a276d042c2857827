import ByteLayout.Formula
import ByteLayout.Node
import ByteLayout.Provider

/-!
# Callbacks from formulas

Computed and lazy entries of a provider, choices of nodes and functions of transforms, each given by
formulas over the context that the callback sees.
-/

namespace ByteLayout

/-- The environment of a callback. -/
def FieldContext.environment (context : FieldContext) : Environment where
  path := context.path
  index := context.index
  order := context.order
  user := context.user
  record := context.record

namespace Provider

/-- An entry computed by a formula; lists and records can be looked into. -/
def ofFormula (formula : Formula) : Provider :=
  computed fun context => (formula.eval context.environment).map ofValue

/-- An entry computed by a formula and taken as one literal. -/
def ofLiteralFormula (formula : Formula) : Provider :=
  computed fun context => (formula.eval context.environment).map value

/-- An entry computed to be always the same provider. -/
def constant (provider : Provider) : Provider := computed fun _ => ⟨provider, []⟩

/-- A lazy sequence of given items, with the count of a formula. -/
def lazyItems (count : Formula) (items : List Provider) : Provider :=
  let items := items.toArray
  lazy fun context =>
    (count.eval context.environment).map fun count =>
      { count, length := items.size, item := fun index => ⟨items.getD index empty, []⟩ }

/-- The item number `index` of a sequence given by a formula over that number alone. -/
def generated (item : Formula) (index : Nat) : Noted Provider :=
  (item.eval { bindings := [("i", .int index)] }).map ofValue

/-- A lazy sequence of `length` items of a formula, with the count of another one. -/
def lazyFormula (count item : Formula) (length : Nat) : Provider :=
  lazy fun context =>
    (count.eval context.environment).map fun count =>
      { count, length, item := generated item }

end Provider

namespace Node

/-- The first node whose condition is true, or else the last one. -/
def firstTrue (context : FieldContext) (otherwise : Node) : List (Formula × Node) → Noted Node
  | [] => ⟨otherwise, []⟩
  | (condition, node) :: rest =>
    (condition.eval context.environment).bind fun value =>
      if value.isTrue then ⟨node, []⟩ else firstTrue context otherwise rest

/-- A choice among nodes, by conditions that are tried in order. -/
def choice (cases : List (Formula × Node)) (otherwise : Node) : Node :=
  ofKind (.select fun context => firstTrue context otherwise cases)

end Node

/-- A transform that changes a value by a formula over it. -/
def Transform.ofFormula (formula : Formula) : Transform :=
  map fun value context =>
    formula.eval { context.environment with bindings := [("value", value)] }

end ByteLayout
