import ByteLayout.Proofs.WellFormed
import ByteLayout.Scope

/-!
# The files of a layout

Outside of its files a layout only arranges them, by byte orders, directories and groups; a field
there ends a pass. `Node.files` lists the file nodes of a tree in the order of declaration, each
with the scope in front of it and with its **keys**: the paths of the directories above it, and then
its own. The keys lead to the data of the file in a provider, and to the file itself below the base
directory (`Node.lies_files`).
-/

namespace ByteLayout

/-- A file node, as the walks of both passes meet it. -/
structure FileNode where
  keys : List String
  /-- The site of its children. -/
  site : Site
  /-- The scope in front of it. -/
  scope : Scope
  path : String
  children : List Node

namespace FileNode

/-- The path of the file itself. -/
def target (file : FileNode) : String := Path.resolve file.scope.dir file.path

/-- The scope of the content. -/
def inner (file : FileNode) : Scope :=
  { file.scope with trail := file.target, file := some file.target, index := none }

theorem enterFile_eq {file : FileNode} (h : file.scope.file = none) :
    file.scope.enterFile file.path = .ok file.inner := by
  unfold Scope.enterFile
  rw [h]
  rfl

end FileNode

namespace Node

mutual

/-- The file nodes of a tree in the order of declaration, given the keys of the directories above
it. Below a file there is none. -/
def files (site : Site) (scope : Scope) (keys : List String) : Node → List FileNode
  | mk kind name default payload =>
    filesOfKind (site.below .child (mk kind name default payload)) scope keys kind

def filesOfKind (site : Site) (scope : Scope) (keys : List String) : Kind → List FileNode
  | .order order children => filesOfAll site (scope.withOrder order) keys children
  | .directory path children => filesOfAll site (scope.enterDir path) (keys ++ [path]) children
  | .group children => filesOfAll site scope keys children
  | .file path children => [⟨keys ++ [path], site, scope, path, children⟩]
  | .select _ | .custom _ | .text _ | .int _ | .float _ => []

def filesOfAll (site : Site) (scope : Scope) (keys : List String) : List Node → List FileNode
  | [] => []
  | node :: rest => files site scope keys node ++ filesOfAll site scope keys rest

end

mutual

/-- The keys of the files of a tree in the order of declaration. -/
def fileKeys (keys : List String) : Node → List (List String)
  | mk kind _ _ _ => fileKeysOfKind keys kind

def fileKeysOfKind (keys : List String) : Kind → List (List String)
  | .order _ children | .group children => fileKeysOfAll keys children
  | .directory path children => fileKeysOfAll (keys ++ [path]) children
  | .file path _ => [keys ++ [path]]
  | .select _ | .custom _ | .text _ | .int _ | .float _ => []

def fileKeysOfAll (keys : List String) : List Node → List (List String)
  | [] => []
  | node :: rest => fileKeys keys node ++ fileKeysOfAll keys rest

end

variable {site : Site} {scope : Scope} {keys : List String}

theorem fileKeysOfAll_eq {nodes : List Node} (h : ∀ node ∈ nodes, ∀ site scope keys,
      node.fileKeys keys = (node.files site scope keys).map FileNode.keys)
    (site : Site) (scope : Scope) (keys : List String) :
    fileKeysOfAll keys nodes = (filesOfAll site scope keys nodes).map FileNode.keys := by
  induction nodes with
  | nil => rfl
  | cons node rest ih =>
    rw [fileKeysOfAll, filesOfAll, List.map_append, h node List.mem_cons_self site scope,
      ih fun other hother => h other (List.mem_cons_of_mem _ hother)]

theorem fileKeys_eq (node : Node) (site : Site) (scope : Scope) (keys : List String) :
    node.fileKeys keys = (node.files site scope keys).map FileNode.keys := by
  induction node using induct generalizing site scope keys with
  | node node _ hchildren =>
    obtain ⟨kind, name, default, payload⟩ := node
    cases kind with
    | order order children => exact fileKeysOfAll_eq hchildren _ _ _
    | directory path children => exact fileKeysOfAll_eq hchildren _ _ _
    | group children => exact fileKeysOfAll_eq hchildren _ _ _
    | _ => rfl

/-! ## Where they lie -/

/-- How the files of a tree lie in the scope `scope`, below the keys `keys` and the directory
`dir`. -/
structure Lies (dir : String) (file : FileNode) : Prop where
  outside : file.scope.file = none
  target : file.target = file.keys.foldl Path.resolve dir
  name : file.keys.getLast? = some file.path

theorem lies_of_all {dir : String} {nodes : List Node} {scope : Scope}
    (h : ∀ node ∈ nodes, ∀ file ∈ node.files site scope keys, Lies dir file) :
    ∀ file ∈ filesOfAll site scope keys nodes, Lies dir file := by
  induction nodes with
  | nil =>
    intro file hfile
    cases hfile
  | cons node rest ih =>
    intro file hfile
    rcases List.mem_append.mp hfile with hfile | hfile
    · exact h node List.mem_cons_self file hfile
    · exact ih (fun other hother => h other (List.mem_cons_of_mem _ hother)) file hfile

/-- **The keys of a file lead to it**, from the base directory on. -/
theorem lies_files (node : Node) (dir : String) (hscope : scope.file = none)
    (hdir : scope.dir = keys.foldl Path.resolve dir) :
    ∀ file ∈ node.files site scope keys, Lies dir file := by
  induction node using induct generalizing site scope keys with
  | node node _ hchildren =>
    obtain ⟨kind, name, default, payload⟩ := node
    cases kind with
    | order order children =>
      exact lies_of_all fun child hchild => hchildren child hchild hscope hdir
    | group children => exact lies_of_all fun child hchild => hchildren child hchild hscope hdir
    | directory path children =>
      refine lies_of_all fun child hchild => hchildren child hchild hscope ?_
      rw [List.foldl_append, ← hdir]
      rfl
    | file path children =>
      intro file hfile
      obtain rfl := List.mem_singleton.mp hfile
      refine ⟨hscope, ?_, List.getLast?_concat⟩
      rw [List.foldl_append, ← hdir]
      rfl
    | _ =>
      intro file hfile
      cases hfile

/-! ## Accepted trees -/

/-- What an accepted tree holds is accepted. -/
theorem check_child {node child : Node} (h : node.check site = .ok ())
    (hchild : child ∈ node.kind.children) : child.check (site.below .child node) = .ok () := by
  rw [check_eq, verdict_eq_ok, List.findSome?_eq_none_iff] at h ⊢
  exact fun occurrence hoccurrence => h occurrence
    (mem_occurrences.mpr (.inr (.inr ⟨child, hchild, hoccurrence⟩)))

/-- In an accepted tree only integers carry something. -/
theorem payload_of_check {node : Node} (h : node.check site = .ok ())
    (hkind : ∀ kind, node.kind ≠ .int kind) : node.payload = .none := by
  rw [check_eq, verdict_eq_ok, List.findSome?_eq_none_iff] at h
  have hself := violation?_eq_none.mp (h ⟨site, node⟩ (mem_occurrences.mpr (.inl rfl)))
  obtain ⟨htext, hsequence⟩ := (checkPayload_eq_ok site).mp (checkSelf_eq_ok.mp hself).2
  cases hpayload : node.payload with
  | none => rfl
  | text text =>
    obtain ⟨-, kind, hint, -⟩ := htext text hpayload
    exact absurd hint (hkind kind)
  | sequence elements =>
    obtain ⟨-, kind, hint⟩ := hsequence elements hpayload
    exact absurd hint (hkind kind)

/-- The number of files in an accepted tree whose root is no integer. -/
theorem fileCount_of_payload {node : Node} (h : node.check site = .ok ())
    (hkind : ∀ kind, node.kind ≠ .int kind) :
    node.fileCount = filesInAll node.kind.children + node.kind.isFile.toNat := by
  rw [fileCount_eq, payload_of_check h hkind]
  exact congrArg (· + _) (Nat.zero_add _)

/-! ## Layouts that pick nothing outside of their files -/

/-- Whether all selects of a tree lie in its files. -/
def SelectsInFiles (site : Site) (node : Node) : Prop :=
  ∀ occurrence ∈ node.occurrences site, ∀ choose, occurrence.node.kind = .select choose →
    occurrence.site.inFile = true

theorem SelectsInFiles.child {node child : Node} (h : node.SelectsInFiles site)
    (hchild : child ∈ node.kind.children) : child.SelectsInFiles (site.below .child node) :=
  fun occurrence hoccurrence => h occurrence
    (mem_occurrences.mpr (.inr (.inr ⟨child, hchild, hoccurrence⟩)))

/-- A node outside of all files is no select. -/
theorem SelectsInFiles.not_select {node : Node} (h : node.SelectsInFiles site)
    (hsite : site.inFile = false) (choose : FieldContext → Noted Node) :
    node.kind ≠ .select choose := by
  intro hkind
  have hinFile := h ⟨site, node⟩ (mem_occurrences.mpr (.inl rfl)) choose hkind
  rw [hsite] at hinFile
  cases hinFile

end Node

/-- Whether no `select` of a layout lies outside of its files. -/
def Schema.SelectsInFiles (schema : Schema) : Prop := schema.root.SelectsInFiles schema.rootSite

end ByteLayout
