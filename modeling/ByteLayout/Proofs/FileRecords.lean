import ByteLayout.Proofs.Enclosed
import ByteLayout.Proofs.Fields
import ByteLayout.Proofs.Isolation

/-!
# The records of several files

A read pass over several files makes a record of each from its own source, with what the keys of the
file reach in the transform, and as if nothing had been read before (`Pass.decoded`). It then puts
the record under the path of the file node, and directories leave no trace there. So of two files
with one path, in different directories, the record of the later one takes the place of the other.

**Theorem (`Pass.walk_gathers`).** A walk that ends well adds the records of the files of a tree to
the record before it, in the order of declaration.

**Theorem (`Schema.read_files`).** Every file whose path is not that of a later file has its whole
record in the result, under that path.
-/

namespace ByteLayout

/-- What a transform holds under some keys, each within what the one before it reaches. -/
def Transform.under (transform : Option Transform) (keys : List String) : Option Transform :=
  keys.foldl (fun transform key => transform.bind (·.field? key)) transform

@[simp] theorem Transform.under_nil (transform : Option Transform) :
    under transform [] = transform := rfl

theorem Transform.bind_under (transform : Option Transform) (keys : List String) (key : String) :
    ((under transform keys).bind fun inner => inner.field? key) =
      under transform (keys ++ [key]) := by
  unfold under
  rw [List.foldl_append]
  rfl

/-- In an accepted tree no file holds another. -/
theorem Node.filesInAll_of_file {site : Site} {node : Node} (h : node.check site = .ok ())
    (hfile : node.kind.isFile = true) : filesInAll node.kind.children = 0 := by
  have hbelow : (site.below .child node).inFile = true := by
    show (site.inFile || node.kind.isFile) = true
    rw [hfile, Bool.or_true]
  have hchildren : ∀ child ∈ node.kind.children, child.fileCount = 0 := fun child hchild =>
    fileCount_of_check hbelow (check_child h hchild)
  generalize node.kind.children = children at hchildren
  induction children with
  | nil => rfl
  | cons child rest ih =>
    rw [filesInAll, hchildren child List.mem_cons_self,
      ih fun other hother => hchildren other (List.mem_cons_of_mem _ hother)]

namespace Read

variable {α β : Type}

/-! ## One file -/

namespace Pass

variable (pass : Pass) (setup : Setup) (whole : Option Transform)

/-- The plan of the content of a file. -/
def content (file : FileNode) : Plan (List Value × Fields Value) :=
  pass.walkAll file.site file.inner (Transform.under whole file.keys) [] file.children

theorem content_inside (file : FileNode) : Inside (pass.content whole file) :=
  walkAll_closed pass.inside_closed file.site rfl _ [] file.children
    (Node.everyAll_iff.mpr fun node _ => node.every_of_forall fun _ => trivial)

/-- The record of a file: what the plan of its content makes of its source alone, given the files
opened before. -/
def decoded (earlier : List String) (file : FileNode) : Except Error (Fields Value) :=
  match setup.opener earlier file.target with
  | .error error => .error error
  | .ok behaviour =>
    let stage := Stage.alone (.create behaviour setup.chunk file.target)
    (stage.follow setup (pass.content whole file)).1.map Prod.snd

/-- The records of files that are read one after the other. -/
inductive Decodes (pass : Pass) (setup : Setup) (whole : Option Transform) :
    List String → List FileNode → List (Fields Value) → Prop
  | nil {earlier : List String} : Decodes pass setup whole earlier [] []
  | cons {earlier : List String} {file : FileNode} {record : Fields Value} {files : List FileNode}
    {records : List (Fields Value)} : pass.decoded setup whole earlier file = .ok record →
    Decodes pass setup whole (earlier ++ [file.target]) files records →
    Decodes pass setup whole earlier (file :: files) (record :: records)

variable {pass setup whole} {earlier : List String} {files more : List FileNode}
  {records others : List (Fields Value)}

theorem Decodes.length_eq (h : Decodes pass setup whole earlier files records) :
    files.length = records.length := by
  induction h with
  | nil => rfl
  | cons _ _ ih => exact congrArg Nat.succ ih

theorem Decodes.append (h : Decodes pass setup whole earlier files records)
    (hmore : Decodes pass setup whole (earlier ++ files.map FileNode.target) more others) :
    Decodes pass setup whole earlier (files ++ more) (records ++ others) := by
  induction h with
  | nil =>
    rw [List.map_nil, List.append_nil] at hmore
    exact hmore
  | cons hfirst _ ih =>
    rw [List.map_cons, ← List.singleton_append, ← List.append_assoc] at hmore
    exact .cons hfirst (ih hmore)

/-- The record of each file, by its place. -/
theorem Decodes.getElem? (h : Decodes pass setup whole earlier files records) {index : Nat}
    {file : FileNode} (hfile : files[index]? = some file) :
    ∃ record, records[index]? = some record ∧ pass.decoded setup whole
      (earlier ++ (files.take index).map FileNode.target) file = .ok record := by
  induction h generalizing index with
  | nil => cases hfile
  | cons hfirst _ ih =>
    cases index with
    | zero =>
      obtain rfl := Option.some.inj hfile
      rw [List.take_zero, List.map_nil, List.append_nil]
      exact ⟨_, rfl, hfirst⟩
    | succ index =>
      obtain ⟨record, hrecord, hdecoded⟩ := ih hfile
      rw [List.append_assoc] at hdecoded
      exact ⟨record, hrecord, hdecoded⟩

end Pass

/-! ## Several files -/

/-- A record with those of some files added, each under the path of its file. -/
def gather (record : Fields Value) (files : List FileNode) (records : List (Fields Value)) :
    Fields Value :=
  (files.zip records).foldl
    (fun fields entry => Fields.insert fields entry.1.path (.record entry.2)) record

theorem gather_append {record : Fields Value} {files more : List FileNode}
    {records others : List (Fields Value)} (h : files.length = records.length) :
    gather record (files ++ more) (records ++ others) =
      gather (gather record files records) more others := by
  unfold gather
  rw [List.zip_append h, List.foldl_append]

theorem gather_cons (record own : Fields Value) (file : FileNode) (files : List FileNode)
    (records : List (Fields Value)) :
    gather record (file :: files) (own :: records) =
      gather (Fields.insert record file.path (.record own)) files records := rfl

theorem gather_nil (files : List FileNode) (records : List (Fields Value)) :
    gather [] files records =
      Fields.ofList ((files.map FileNode.path).zip (records.map Value.record)) := by
  unfold gather Fields.ofList
  rw [List.zip_map, List.foldl_map]
  rfl

/-- Files of other paths do not matter. -/
theorem get?_gather_of_ne {record : Fields Value} {files : List FileNode} {name : String}
    (h : ∀ file ∈ files, file.path ≠ name) (records : List (Fields Value)) :
    Fields.get? (gather record files records) name = Fields.get? record name := by
  induction files generalizing record records with
  | nil => rfl
  | cons file rest ih =>
    cases records with
    | nil => rfl
    | cons own others =>
      rw [gather_cons, ih (fun other hother => h other (List.mem_cons_of_mem _ hother)),
        Fields.get?_insert, if_neg (h file List.mem_cons_self).symm]

/-- The record of a file stays if no later file has its path. -/
theorem get?_gather {record : Fields Value} {files : List FileNode}
    {records : List (Fields Value)} {index : Nat} {file : FileNode} {own : Fields Value}
    (hfile : files[index]? = some file) (hown : records[index]? = some own)
    (hlater : ∀ later other, index < later → files[later]? = some other → other.path ≠ file.path) :
    Fields.get? (gather record files records) file.path = some (.record own) := by
  induction files generalizing record records index with
  | nil => cases hfile
  | cons head rest ih =>
    cases records with
    | nil => cases hown
    | cons first others =>
      rw [gather_cons]
      cases index with
      | zero =>
        obtain rfl := Option.some.inj hfile
        obtain rfl := Option.some.inj hown
        have hrest : ∀ other ∈ rest, other.path ≠ head.path := by
          intro other hother
          obtain ⟨place, hplace⟩ := List.mem_iff_getElem?.mp hother
          exact hlater (place + 1) other (Nat.succ_pos place) hplace
        rw [get?_gather_of_ne hrest, Fields.get?_insert_self]
      | succ index =>
        exact ih hfile hown fun later other hless hother =>
          hlater (later + 1) other (Nat.succ_lt_succ hless) hother

/-- What comes of a plan that gathers records: it ended well outside of files, and the records of
some files were added to the one before. -/
structure Gathered (pass : Pass) (setup : Setup) (whole : Option Transform) (stage later : Stage)
    (files : List FileNode) (count : Nat) (record kept : Fields Value) : Prop where
  current : later.current = none
  openedPaths : later.openedPaths = stage.openedPaths ++ files.map FileNode.target
  kept : ∃ records, pass.Decodes setup whole stage.openedPaths files records ∧
    kept = gather record files records
  length : files.length = count

/-- A plan that, if it ends well, gathers the records of some files. -/
def Gathers (pass : Pass) (setup : Setup) (whole : Option Transform) (files : List FileNode)
    (count : Nat) (record : Fields Value) (plan : Plan α) (kept : α → Fields Value) : Prop :=
  ∀ stage : Stage, stage.current = none → ∀ a later, stage.follow setup plan = (.ok a, later) →
    Gathered pass setup whole stage later files count record (kept a)

section Gathers

variable {pass : Pass} {setup : Setup} {whole : Option Transform} {files more : List FileNode}
  {count extra : Nat} {record : Fields Value} {kept : α → Fields Value} {kept' : β → Fields Value}

/-- What cannot end well may be said to gather anything. -/
theorem gathers_refused (error : Error) :
    Gathers pass setup whole files count record (.ofExcept (.error error) : Plan α) kept := by
  intro stage _ a later hok
  cases hok

theorem gathers_pure {a : α} (h : kept a = record) :
    Gathers pass setup whole [] 0 record (Pure.pure a : Plan α) kept := by
  intro stage hcurrent b later hok
  cases hok
  exact ⟨hcurrent, (List.append_nil _).symm, ⟨[], .nil, h⟩, rfl⟩

theorem Gathers.bind {plan : Plan α} {f : α → Plan β}
    (h : Gathers pass setup whole files count record plan kept)
    (hf : ∀ a, Gathers pass setup whole more extra (kept a) (f a) kept') :
    Gathers pass setup whole (files ++ more) (count + extra) record (plan >>= f) kept' := by
  intro stage hcurrent b last hok
  rw [Stage.follow_bind] at hok
  cases hfirst : stage.follow setup plan with | mk result later
  rw [hfirst] at hok
  cases result with
  | error error => cases hok
  | ok a =>
    obtain ⟨hlater, hpaths, ⟨records, hrecords, hkept⟩, hlength⟩ := h stage hcurrent a later hfirst
    obtain ⟨hlast, hpaths', ⟨others, hothers, hkept'⟩, hextra⟩ := hf a later hlater b last hok
    rw [hpaths] at hpaths' hothers
    refine ⟨hlast, ?_, ⟨records ++ others, hrecords.append hothers, ?_⟩, ?_⟩
    · rw [hpaths', List.map_append, List.append_assoc]
    · rw [hkept', hkept, gather_append hrecords.length_eq]
    · rw [List.length_append, hlength, hextra]

/-- What is done with the result gathers nothing. -/
theorem Gathers.map {plan : Plan α} (h : Gathers pass setup whole files count record plan kept)
    {f : α → β} (hf : ∀ a, kept' (f a) = kept a) :
    Gathers pass setup whole files count record (plan >>= fun a => Pure.pure (f a)) kept' := by
  have hbind := h.bind fun a => gathers_pure (hf a)
  rwa [List.append_nil, Nat.add_zero] at hbind

end Gathers

/-! ## Trees -/

namespace Pass

variable {pass : Pass} {setup : Setup} {whole : Option Transform} {site : Site} {scope : Scope}
  {keys : List String}

/-- **A file gathers its record.** -/
theorem inFile_gathers (hnest : pass.nest = true) (file : FileNode) (h : file.scope.file = none)
    (record : Fields Value) :
    Gathers pass setup whole [file] 1 record
      (pass.inFile file.path file.scope record fun inner record =>
        pass.walkAll file.site inner (Transform.under whole file.keys) record file.children)
      id := by
  intro stage hcurrent kept later hok
  obtain ⟨journal, streams, current⟩ := stage
  obtain rfl : current = none := hcurrent
  unfold inFile at hok
  rw [FileNode.enterFile_eq h, hnest] at hok
  let entered : Stage := .log ⟨journal, streams, none⟩ [.trace (.opening file.target)]
  change entered.follow setup
    (.openFile file.target >>= fun _ => pass.content whole file >>= _) = _ at hok
  rw [Stage.follow_bind, Stage.follow_openFile] at hok
  cases hopen : setup.opener entered.openedPaths file.target with
  | error error =>
    rw [hopen] at hok
    cases hok
  | ok behaviour =>
    rw [hopen] at hok
    -- the plan of the content ends as it does with the stream alone
    obtain ⟨moved, events, hpath, hfollow⟩ := Stage.follow_enclosed (pass.content_inside whole file)
      setup (show (entered.opened setup file.target behaviour).current = _ from rfl)
    change Stage.follow _ (entered.opened setup file.target behaviour)
      (pass.content whole file >>= _) = _ at hok
    rw [Stage.follow_bind, hfollow] at hok
    cases hresult : ((Stage.alone (.create behaviour setup.chunk file.target)).follow setup
      (pass.content whole file)).1 with
    | error error =>
      rw [hresult] at hok
      cases hok
    | ok content =>
      rw [hresult] at hok
      cases hok
      have hdecoded : pass.decoded setup whole entered.openedPaths file = .ok content.2 := by
        unfold decoded
        rw [hopen]
        dsimp only
        rw [hresult]
        rfl
      refine ⟨rfl, ?_, ⟨[content.2], .cons hdecoded .nil, rfl⟩, rfl⟩
      show (streams.push moved.close.stream).toList.map ReadStream.path = _
      rw [Array.toList_push, List.map_append]
      exact congrArg (streams.toList.map ReadStream.path ++ [·]) hpath

theorem walkAll_gathers {nodes : List Node}
    (h : ∀ node ∈ nodes, ∀ record, Gathers pass setup whole (node.files site scope keys)
      node.fileCount record (pass.walk site scope (Transform.under whole keys) record node)
      Prod.snd)
    (record : Fields Value) :
    Gathers pass setup whole (Node.filesOfAll site scope keys nodes) (Node.filesInAll nodes)
      record
      (pass.walkAll site scope (Transform.under whole keys) record nodes) Prod.snd := by
  induction nodes generalizing record with
  | nil =>
    rw [walkAll]
    exact gathers_pure rfl
  | cons node rest ih =>
    rw [walkAll]
    exact (h node List.mem_cons_self record).bind fun kept =>
      (ih (fun other hother => h other (List.mem_cons_of_mem _ hother)) kept.2).map fun _ => rfl

/-- Outside of files there is no place for an integer. -/
theorem integer_outside (h : scope.file = none) (kind : IntKind) :
    integer kind scope = .ofExcept (.error (.noFileScope kind.label scope.trail)) := by
  unfold integer Scope.fieldOrder
  rw [h]
  rfl

/-- **The walk of an accepted tree gathers the records of its files.** -/
theorem walk_gathers (hnest : pass.nest = true) (node : Node) (hscope : scope.file = none)
    (hsite : site.inFile = false) (hcheck : node.check site = .ok ())
    (hselects : node.SelectsInFiles site) (record : Fields Value) :
    Gathers pass setup whole (node.files site scope keys) node.fileCount record
      (pass.walk site scope (Transform.under whole keys) record node) Prod.snd := by
  induction node using Node.induct generalizing site scope keys record with
  | node node _ hchildren =>
    obtain ⟨kind, name, default, payload⟩ := node
    have hbelow : kind.isFile = false →
        (site.below .child (.mk kind name default payload)).inFile = false := by
      intro hkind
      show (site.inFile || kind.isFile) = false
      rw [hsite, hkind]
      rfl
    -- whatever does not open a file hands its children a scope without one
    have hall : ∀ {inner : Scope} {keys : List String}, inner.file = none → kind.isFile = false →
        Gathers pass setup whole
          (Node.filesOfAll (site.below .child (.mk kind name default payload)) inner keys
            kind.children)
          (Node.filesInAll kind.children) record
          (pass.walkAll (site.below .child (.mk kind name default payload)) inner
            (Transform.under whole keys) record kind.children) Prod.snd :=
      fun hinner hkind => walkAll_gathers (fun child hchild => hchildren child hchild hinner
        (hbelow hkind) (Node.check_child hcheck hchild) (hselects.child hchild)) record
    have hfield : ∀ segment, (scope.field segment).file = none := fun _ => hscope
    cases kind with
    | order order children =>
      have horder : (scope.withOrder order).file = none := hscope
      rw [walk, Node.fileCount_of_payload hcheck nofun]
      exact (hall horder rfl).map fun _ => rfl
    | group children =>
      rw [walk, Node.fileCount_of_payload hcheck nofun]
      exact (hall hscope rfl).map fun _ => rfl
    | directory path children =>
      have hdir : (scope.enterDir path).file = none := hscope
      rw [walk, Node.fileCount_of_payload hcheck nofun, Transform.bind_under]
      exact (hall hdir rfl).map fun _ => rfl
    | file path children =>
      have hnone : Node.filesInAll children = 0 := Node.filesInAll_of_file hcheck rfl
      rw [walk, Node.fileCount_of_payload hcheck nofun, Transform.bind_under]
      show Gathers _ _ _ _ (Node.filesInAll children + 1) _ _ _
      rw [hnone]
      exact (inFile_gathers hnest ⟨keys ++ [path], _, scope, path, children⟩ hscope record).map
        fun _ => rfl
    | select choose => exact absurd rfl (hselects.not_select hsite choose)
    | custom codec =>
      rw [walk, custom, Scope.fieldOrder, hfield]
      exact gathers_refused _
    | text encoding =>
      rw [walk]
      exact gathers_refused _
    | float kind =>
      rw [walk, float, Scope.fieldOrder, hfield]
      exact gathers_refused _
    | int kind =>
      cases payload with
      | none =>
        rw [walk, int, integer_outside (hfield _)]
        exact gathers_refused _
      | text text =>
        rw [walk, string, integer_outside (hfield _)]
        exact gathers_refused _
      | sequence elements =>
        rw [walk, sequence, integer_outside (hfield _)]
        exact gathers_refused _

end Pass

end Read

open Read

/-- A layout with files is accepted where no file lies above it. -/
theorem Schema.check_rootSite {schema : Schema} (hfiles : 0 < schema.fileCount) :
    schema.root.check schema.rootSite = .ok () := by
  obtain ⟨root, ⟨placement, inFile, trail⟩, hchecked⟩ := schema
  cases inFile with
  | false => exact hchecked
  | true =>
    have hnone : root.fileCount = 0 := Node.fileCount_of_check rfl hchecked
    exact absurd hnone (Nat.ne_of_gt hfiles)

/-- The plan of a layout of several files gathers their records. -/
theorem Schema.readPlan_gathers {schema : Schema} (hfiles : 1 < schema.fileCount)
    (hselects : schema.SelectsInFiles) (setup : Setup) (transform : Option Transform)
    (options : Options) :
    Gathers ⟨options.user, true⟩ setup transform
      (schema.root.files schema.rootSite (.base options.path) []) schema.fileCount []
      (schema.readPlan transform options) id := by
  have hpositive : 0 < schema.fileCount := Nat.zero_lt_of_lt hfiles
  have hscope : (Scope.base options.path).file = none := rfl
  unfold readPlan
  rw [if_neg (Nat.ne_of_gt hpositive), decide_eq_true hfiles, ← Transform.under_nil transform]
  exact (Pass.walk_gathers rfl schema.root hscope rfl (check_rootSite hpositive) hselects []).map
    fun _ => rfl

/-- **No record of a file is lost but under the path of another.** In a layout of several files that
picks nothing outside of them, a read pass that ends well has made a record of every file: the
whole of what its content plan makes of its source alone. The result consists of these records, put
under the paths of the file nodes in the order of declaration; so every file has its record there
whose path is not that of a later file. -/
theorem Schema.read_files (schema : Schema) (hfiles : 1 < schema.fileCount)
    (hselects : schema.SelectsInFiles) (transform : Option Transform) (options : Options)
    (opener : SourceOpener) (result : Fields Value)
    (hok : (schema.read transform options opener).result = .ok result) :
    let files := schema.root.files schema.rootSite (.base options.path) []
    let pass : Pass := { user := options.user, nest := true }
    let setup : Setup := { opener, chunk := options.clamped.bufferSize, debug := options.debug }
    files.length = schema.fileCount ∧ ∃ records : List (Fields Value),
      result = Fields.ofList ((files.map FileNode.path).zip (records.map Value.record)) ∧
      ∀ index file, files[index]? = some file → ∃ record, records[index]? = some record ∧
        pass.decoded setup transform ((files.take index).map FileNode.target) file = .ok record ∧
        ((∀ later other, index < later → files[later]? = some other → other.path ≠ file.path) →
          Fields.get? result file.path = some (.record record)) := by
  intro files pass setup
  cases hfollow : (Stage.empty.log (options.warnings .read)).follow setup
    (schema.readPlan transform options) with | mk answer later
  obtain rfl : answer = .ok result := (congrArg Prod.fst hfollow).symm.trans hok
  obtain ⟨-, -, ⟨records, hdecodes, hresult⟩, hlength⟩ :=
    schema.readPlan_gathers hfiles hselects setup transform options _ rfl _ _ hfollow
  refine ⟨hlength, records, hresult.trans (gather_nil files records), fun index file hfile => ?_⟩
  obtain ⟨record, hrecord, hdecoded⟩ := hdecodes.getElem? hfile
  refine ⟨record, hrecord, hdecoded, fun hlater => ?_⟩
  rw [show result = _ from hresult]
  exact get?_gather hfile hrecord hlater

/-! ## Two files of one name -/

section Twins

open Write

theorem twins_outcome : (twins.writeScript (twinsData 1) taggedOptions).outcome =
    .ok [("x", .record [("value", .int 3)])] := rfl

theorem twins_faithful : (twins.writeScript (twinsData 1) taggedOptions).Faithful := by
  obtain ⟨left, right, value, value', hsteps⟩ : ∃ left right value value',
      (twins.writeScript (twinsData 1) taggedOptions).steps =
        [.record (.trace (.opening left)), .openFile left,
          .record (.resolved value IntKind.u8.label (.int 1)), .field value "U8", .scalar [1],
          .closeFile left, .record (.trace (.opening right)), .openFile right,
          .record (.resolved value' IntKind.u8.label (.int 3)), .field value' "U8", .scalar [3],
          .closeFile right] := ⟨_, _, _, _, rfl⟩
  intro step hstep
  rw [hsteps] at hstep
  cases step with
  | record event =>
    simp only [List.mem_cons, Step.record.injEq, reduceCtorEq, List.not_mem_nil, or_false,
      false_or] at hstep
    rcases hstep with rfl | rfl | rfl | rfl
    · trivial
    · exact faithful_resolved_int value .u8 (.int 1)
    · trivial
    · exact faithful_resolved_int value' .u8 (.int 3)
  | _ => trivial

theorem twins_builtIn : twins.root.Every Kind.BuiltIn := by
  have hfield : (byteField "value").Every Kind.BuiltIn := ⟨trivial, trivial, trivial⟩
  have hfile : (Node.ofKind (.file "x" [byteField "value"])).Every Kind.BuiltIn :=
    ⟨trivial, trivial, hfield, trivial⟩
  exact ⟨trivial, trivial, ⟨trivial, trivial, hfile, trivial⟩, ⟨trivial, trivial, hfile, trivial⟩,
    trivial⟩

theorem twins_paths :
    ((twins.write (twinsData 1) taggedOptions fun _ _ => .ok .faultless).contents.map
      Prod.fst).Nodup := by
  have hkeys : (twins.root.fileKeys []).map (fun keys => keys.foldl Path.resolve "out") =
      [Path.resolve (Path.resolve "out" "a") "x",
        Path.resolve (Path.resolve "out" "b") "x"] := rfl
  have hleft : Path.resolve (Path.resolve "out" "a") "x" = "out/a/x" := by cbv
  have hright : Path.resolve (Path.resolve "out" "b") "x" = "out/b/x" := by cbv
  rw [Schema.contents_write SinkOpener.neverFails_faultless twins_outcome,
    Schema.writeScript_paths (by decide) twins_selectsInFiles twins_outcome,
    show taggedOptions.path = "out" from rfl, hkeys, hleft, hright]
  decide

theorem Schema.read_files_twins :
    let written := twins.write (twinsData 1) taggedOptions fun _ _ => .ok .faultless
    let read := twins.read none taggedOptions (sourceOf written.contents)
    ∃ left right, read.result =
        .ok (Fields.ofList [("x", .record left), ("x", .record right)]) ∧
      ∀ result, read.result = .ok result → Fields.get? result "x" = some (.record right) := by
  intro written read
  have hok : read.result = .ok [("x", .record [("value", .int 3)])] := by
    have hsinks := SinkOpener.neverFails_faultless
    exact (Schema.answer_written twins_builtIn hsinks
      ((Schema.write_result hsinks).trans twins_outcome) twins_paths
      ((Schema.faithful_write_iff hsinks).mpr twins_faithful) rfl rfl (handsOut_sourceOf _)).1
  obtain ⟨-, records, hresult, hrecords⟩ := Schema.read_files twins (by decide) twins_selectsInFiles
    _ _ _ _ hok
  obtain ⟨left, hleft, -, -⟩ := hrecords 0 _ rfl
  obtain ⟨right, hright, -, hkept⟩ := hrecords 1 _ rfl
  match records, hleft, hright with
  | _ :: _ :: _, rfl, rfl =>
    refine ⟨left, right, hok.trans (congrArg _ hresult), fun result hresult' => ?_⟩
    obtain rfl := Except.ok.inj (hok.symm.trans hresult')
    refine hkept fun later other hless hother => ?_
    obtain ⟨beyond, rfl⟩ := Nat.exists_eq_add_of_le' hless
    cases (show none = some other from hother)

end Twins

end ByteLayout
