import ByteLayout.Proofs.FileNodes
import ByteLayout.Proofs.Lifecycle
import ByteLayout.Proofs.ReadBack

/-!
# Files are written apart from one another

Outside of files, the script of a tree is that of its files one after the other: the script **lays
out** what they are (`Script.LaysOut`). The bytes of a file come from the part of the provider that
its keys reach, and from nothing else: its record begins empty, and its scope is that of its place
in the layout (`Pass.portion`).

**Theorem (`Pass.walk_laysOut`).** The script of a tree lays out the portions of its files.

**Theorem (`Schema.write_isolated`).** What a provider holds for other files has no influence on the
bytes of a file.
-/

namespace ByteLayout

/-! ## What keys reach -/

/-- What a provider holds under some keys, each within what the one before it reaches. -/
def Provider.reach? (provider : Provider) (keys : List String) : Option Provider :=
  keys.foldlM Provider.field? provider

/-- Where the nodes below some keys look for their values. -/
def Provider.inputAt (provider : Provider) (keys : List String) : Input :=
  match provider.reach? keys with
  | some inner => .within inner
  | none => .absent

namespace Provider

variable (provider : Provider) (keys : List String)

@[simp] theorem enter_inputAt : (provider.inputAt keys).enter = provider.inputAt keys := by
  unfold inputAt
  split <;> rfl

@[simp] theorem below_inputAt (key : String) :
    (provider.inputAt keys).below key = provider.inputAt (keys ++ [key]) := by
  unfold Input.below
  rw [enter_inputAt]
  unfold inputAt reach?
  rw [List.foldlM_append]
  cases keys.foldlM field? provider with
  | none => rfl
  | some inner =>
    show (match inner.field? key with | some found => Input.within found | none => .absent) =
      match [key].foldlM field? inner with | some found => .within found | none => .absent
    rw [List.foldlM_cons]
    cases inner.field? key <;> rfl

end Provider

namespace Write

namespace Step

/-- Steps that leave no file open do not touch the files of the steps behind them. -/
theorem files_append {inFile : Bool} {first : List Step} (second : List Step)
    (h : nextAll inFile first = some false) :
    files [] (first ++ second) = files [] first ++ files [] second ∧
      (inFile = true → content [] (first ++ second) = content [] first) := by
  induction first generalizing inFile with
  | nil =>
    obtain rfl := Option.some.inj h
    exact ⟨rfl, nofun⟩
  | cons step rest ih =>
    rw [nextAll_cons] at h
    obtain ⟨after, hafter, hrest⟩ := Option.bind_eq_some_iff.mp h
    obtain ⟨hfiles, hcontent⟩ := ih hrest
    cases step with
    | record event =>
      obtain rfl := Option.some.inj hafter
      exact ⟨hfiles, hcontent⟩
    | openFile path =>
      cases inFile with
      | true => cases hafter
      | false =>
        obtain rfl := Option.some.inj hafter
        simp only [List.cons_append, files, hfiles, hcontent rfl]
        exact ⟨trivial, nofun⟩
    | field path kind =>
      cases inFile with
      | false => cases hafter
      | true =>
        obtain rfl := Option.some.inj hafter
        exact ⟨hfiles, hcontent⟩
    | scalar bytes =>
      simp only [next, Option.ite_none_right_eq_some, Option.some.injEq] at hafter
      obtain ⟨-, rfl⟩ := hafter
      exact ⟨hfiles, fun _ => congrArg (bytes ++ ·) (hcontent rfl)⟩
    | payload bytes =>
      cases inFile with
      | false => cases hafter
      | true =>
        obtain rfl := Option.some.inj hafter
        exact ⟨hfiles, fun _ => congrArg (bytes ++ ·) (hcontent rfl)⟩
    | closeFile path => exact ⟨hfiles, fun _ => rfl⟩

end Step

namespace Script

variable {α β : Type}

/-- A script that begins and, if it ends well, ends outside of all files, and whose files are the
first of some files; if it ends well, they are all of them. -/
structure LaysOut (script : Script α) (files : List (String × List UInt8)) : Prop where
  orderly : Orderly false false script
  isPrefix : Step.files [] script.steps <+: files
  all : ∀ a, script.outcome = .ok a → Step.files [] script.steps = files

namespace LaysOut

variable {files more : List (String × List UInt8)}

theorem of_no_steps {script : Script α} (h : script.steps = []) : LaysOut script [] := by
  refine ⟨orderly_of_no_steps h, ?_, fun _ _ => ?_⟩
  · rw [h]
    exact List.prefix_rfl
  · rw [h]
    rfl

theorem bind {script : Script α} {f : α → Script β} (h : LaysOut script files)
    (hf : ∀ a, LaysOut (f a) more) : LaysOut (script >>= f) (files ++ more) := by
  have horderly := h.orderly.bind fun a _ => (hf a).orderly
  cases hout : script.outcome with
  | error error =>
    refine ⟨horderly, ?_, fun b hb => ?_⟩
    · rw [steps_bind_of_error hout]
      exact h.isPrefix.trans (List.prefix_append _ _)
    · obtain ⟨a, ha, -⟩ := outcome_bind_eq_ok.mp hb
      rw [hout] at ha
      cases ha
  | ok a =>
    obtain ⟨last, hlast, hend⟩ := h.orderly
    obtain rfl := hend a hout
    have hfiles : Step.files [] (script >>= f).steps = files ++ Step.files [] (f a).steps := by
      rw [steps_bind_of_ok hout, (Step.files_append _ hlast).1, h.all a hout]
    refine ⟨horderly, ?_, fun b hb => ?_⟩
    · rw [hfiles]
      exact (List.prefix_append_right_inj files).mpr (hf a).isPrefix
    · rw [outcome_bind_of_ok hout] at hb
      rw [hfiles, (hf a).all b hb]

/-- What is done with the result takes no step. -/
theorem map {script : Script α} (h : LaysOut script files) (f : α → β) :
    LaysOut (script >>= fun a => Pure.pure (f a)) files := by
  have hbind := h.bind fun a => of_no_steps (steps_pure (f a))
  rwa [List.append_nil] at hbind

end LaysOut

end Script

/-! ## Inside a file -/

/-- Whether no step of a script opens or closes a file. -/
def Script.Inside {α : Type} (script : Script α) : Prop := ∀ step ∈ script.steps, step.Inside

theorem Script.inside_closed : Script.Closed fun _ script => script.Inside where
  done _ step hstep := by
    rw [steps_ofExcept] at hstep
    cases hstep
  bind {_ _ _ f} h hf step hstep := by
    rcases mem_steps_bind.mp hstep with hstep | ⟨a, -, hstep⟩
    · exact h step hstep
    · exact hf a step hstep
  event _ := List.forall_mem_singleton.mpr trivial
  field _ _ := List.forall_mem_singleton.mpr trivial
  scalar _ := List.forall_mem_singleton.mpr trivial
  payload _ := List.forall_mem_singleton.mpr trivial

namespace Pass

open Script

variable (pass : Pass)

/-- Inside a file no file is opened: one more is refused before any step. -/
theorem inside_closed :
    pass.Closed (fun _ script => script.Inside) fun scope => scope.file.isSome = true where
  toClosed := Script.inside_closed
  withOrder _ h := h
  inField _ h := h
  item _ h := h
  enterDir _ h := h
  file {scope} relative record content h _ := by
    obtain ⟨path, hpath⟩ := Option.isSome_iff_exists.mp h
    have hrefused : (Script.ofExcept (scope.enterFile relative)).outcome =
        .error (.nestedFile (Path.resolve scope.dir relative)) := by
      rw [outcome_ofExcept, Scope.enterFile, hpath]
    have hsteps : (pass.inFile relative scope record content).steps = [] :=
      steps_bind_of_error hrefused
    intro step hstep
    rw [hsteps] at hstep
    cases hstep

/-- The script of the content of a file. -/
def content (provider : Provider) (file : FileNode) : Script (List Value × Fields Value) :=
  pass.walkAll file.site file.inner (fun _ => provider.inputAt file.keys) 0 [] file.children

/-- A file with its bytes: they come from what the keys of the file reach. -/
def portion (provider : Provider) (file : FileNode) : String × List UInt8 :=
  (file.target, Step.content [] (pass.content provider file).steps)

theorem content_inside (provider : Provider) (file : FileNode) :
    (pass.content provider file).Inside :=
  walkAll_closed pass.inside_closed file.site rfl _ 0 [] file.children

/-- A provider has no influence on a file but by what the keys of the file reach. -/
theorem portion_congr {provider provider' : Provider} {file : FileNode}
    (h : provider.reach? file.keys = provider'.reach? file.keys) :
    pass.portion provider file = pass.portion provider' file := by
  unfold portion content Provider.inputAt
  rw [h]

/-- Steps inside a file, and perhaps its closing, make up the whole of the file. -/
theorem files_of_inside (target : String) {first close : List Step}
    (h : ∀ step ∈ first, step.Inside) (hclose : close = [] ∨ close = [.closeFile target]) :
    Step.files [] (.openFile target :: (first ++ close)) = [(target, Step.content [] first)] := by
  have hnothing : Step.content [] close = [] ∧ Step.files [] close = [] := by
    rcases hclose with rfl | rfl <;> exact ⟨rfl, rfl⟩
  show (target, Step.content [] (first ++ close)) :: Step.files [] (first ++ close) = _
  rw [Step.content_append_of_inside _ h, Step.files_append_of_inside _ h, hnothing.1, hnothing.2,
    List.append_nil]

variable {pass}

/-- **A file lays out its portion.** -/
theorem inFile_laysOut (hnest : pass.nest = true) (provider : Provider) (file : FileNode)
    (h : file.scope.file = none) (record : Fields Value) :
    LaysOut (pass.inFile file.path file.scope record fun inner record =>
      pass.walkAll file.site inner (fun _ => provider.inputAt file.keys) 0 record file.children)
      [pass.portion provider file] := by
  have horderly : Orderly file.scope.file.isSome file.scope.file.isSome
      (pass.inFile file.path file.scope record fun inner record =>
        pass.walkAll file.site inner (fun _ => provider.inputAt file.keys) 0 record
          file.children) := by
    refine inFile_orderly pass file.scope record file.path fun inner record hinner => ?_
    rw [← hinner]
    exact walkAll_orderly pass _ inner _ 0 record file.children
  rw [h] at horderly
  have hfiles : ∀ {close : List Step}, (close = [] ∨ close = [.closeFile file.target]) →
      Step.files [] (.openFile file.target :: ((pass.content provider file).steps ++ close)) =
        [pass.portion provider file] :=
    fun hclose => files_of_inside file.target (pass.content_inside provider file) hclose
  suffices hall : Step.files [] (pass.inFile file.path file.scope record fun inner record =>
      pass.walkAll file.site inner (fun _ => provider.inputAt file.keys) 0 record
        file.children).steps = [pass.portion provider file] from
    ⟨horderly, hall ▸ List.prefix_rfl, fun _ _ => hall⟩
  unfold inFile
  rw [FileNode.enterFile_eq h, hnest]
  show Step.files [] (.openFile file.target :: (pass.content provider file >>= _).steps) = _
  cases hout : (pass.content provider file).outcome with
  | error error =>
    rw [steps_bind_of_error hout, ← List.append_nil (pass.content provider file).steps]
    exact hfiles (.inl rfl)
  | ok a =>
    rw [steps_bind_of_ok hout]
    exact hfiles (.inr rfl)

/-! ## Outside of files -/

/-- Outside of files there is no place for a field. -/
theorem field_laysOut {α : Type} {scope : Scope} (h : scope.file = none) (kind : String)
    (f : ByteOrder → Script α) : LaysOut (.ofExcept (scope.fieldOrder kind) >>= f) [] := by
  have hrefused : (Script.ofExcept (scope.fieldOrder kind)).outcome =
      .error (.noFileScope kind scope.trail) := by
    rw [outcome_ofExcept, Scope.fieldOrder, h]
  exact .of_no_steps (steps_bind_of_error hrefused)

variable {site : Site} {scope : Scope} {keys : List String}

theorem walkAll_laysOut {provider : Provider} {nodes : List Node}
    (h : ∀ node ∈ nodes, ∀ record,
      LaysOut (pass.walk site scope (provider.inputAt keys) record node)
        ((node.files site scope keys).map (pass.portion provider))) (index : Nat)
    (record : Fields Value) :
    LaysOut (pass.walkAll site scope (fun _ => provider.inputAt keys) index record nodes)
      ((Node.filesOfAll site scope keys nodes).map (pass.portion provider)) := by
  induction nodes generalizing index record with
  | nil =>
    rw [walkAll]
    exact .of_no_steps rfl
  | cons node rest ih =>
    rw [walkAll, Node.filesOfAll, List.map_append]
    exact (h node List.mem_cons_self record).bind fun kept =>
      (ih (fun other hother => h other (List.mem_cons_of_mem _ hother)) _ kept.2).map _

/-- **The script of a tree lays out the portions of its files.** -/
theorem walk_laysOut (hnest : pass.nest = true) (provider : Provider) (node : Node)
    (hscope : scope.file = none) (hsite : site.inFile = false) (hselects : node.SelectsInFiles site)
    (record : Fields Value) :
    LaysOut (pass.walk site scope (provider.inputAt keys) record node)
      ((node.files site scope keys).map (pass.portion provider)) := by
  induction node using Node.induct generalizing site scope keys record with
  | node node _ hchildren =>
    obtain ⟨kind, name, default, payload⟩ := node
    have hbelow : kind.isFile = false →
        (site.below .child (.mk kind name default payload)).inFile = false := by
      intro hkind
      show (site.inFile || kind.isFile) = false
      rw [hsite, hkind]
      rfl
    -- whatever does not open a file hands its children a scope without one
    have hall : ∀ {inner : Scope} {keys : List String}, inner.file = none → kind.isFile = false →
        LaysOut (pass.walkAll (site.below .child (.mk kind name default payload)) inner
          (fun _ => provider.inputAt keys) 0 record kind.children)
          ((Node.filesOfAll (site.below .child (.mk kind name default payload)) inner keys
            kind.children).map (pass.portion provider)) :=
      fun hinner hkind => walkAll_laysOut (fun child hchild => hchildren child hchild hinner
        (hbelow hkind) (hselects.child hchild)) 0 record
    have hfield : ∀ segment, (scope.field segment).file = none := fun _ => hscope
    cases kind with
    | order order children =>
      have horder : (scope.withOrder order).file = none := hscope
      rw [walk, Provider.enter_inputAt]
      exact (hall horder rfl).map _
    | group children =>
      rw [walk, Provider.enter_inputAt]
      exact (hall hscope rfl).map _
    | directory path children =>
      have hdir : (scope.enterDir path).file = none := hscope
      rw [walk, Provider.below_inputAt]
      exact (hall hdir rfl).map _
    | file path children =>
      rw [walk, Provider.below_inputAt]
      exact (inFile_laysOut hnest provider ⟨keys ++ [path], _, scope, path, children⟩ hscope
        record).map _
    | select choose => exact absurd rfl (hselects.not_select hsite choose)
    | custom codec =>
      rw [walk]
      exact field_laysOut (hfield _) _ _
    | text encoding =>
      rw [walk]
      exact .of_no_steps rfl
    | float kind =>
      rw [walk]
      exact field_laysOut (hfield _) _ _
    | int kind =>
      cases payload with
      | none =>
        rw [walk]
        exact field_laysOut (hfield _) _ _
      | text text =>
        rw [walk]
        exact field_laysOut (hfield _) _ _
      | sequence elements =>
        rw [walk]
        exact field_laysOut (hfield _) _ _

end Pass

end Write

open Write

/-- What the options make of a pass over several files. -/
theorem Schema.writeScript_laysOut {schema : Schema} (hfiles : 1 < schema.fileCount)
    (hselects : schema.SelectsInFiles) (provider : Provider) (options : Options) :
    (schema.writeScript provider options).LaysOut
      ((schema.root.files schema.rootSite (.base options.path) []).map
        (Pass.portion ⟨options.user, true⟩ provider)) := by
  unfold writeScript
  rw [if_neg (Nat.ne_of_gt (Nat.zero_lt_of_lt hfiles)), decide_eq_true hfiles]
  have hscope : (Scope.base options.path).file = none := rfl
  rw [show Input.within provider = provider.inputAt [] from rfl]
  exact (Pass.walk_laysOut rfl provider schema.root hscope rfl hselects []).map _

/-- The paths of the files come from their keys. -/
theorem Schema.writeScript_paths {schema : Schema} (hfiles : 1 < schema.fileCount)
    (hselects : schema.SelectsInFiles) {provider : Provider} {options : Options}
    {record : Fields Value} (hok : (schema.writeScript provider options).outcome = .ok record) :
    (Step.files [] (schema.writeScript provider options).steps).map Prod.fst =
      (schema.root.fileKeys []).map fun keys => keys.foldl Path.resolve options.path := by
  rw [(schema.writeScript_laysOut hfiles hselects provider options).all record hok,
    schema.root.fileKeys_eq schema.rootSite (.base options.path), List.map_map, List.map_map]
  exact List.map_congr_left fun file hfile =>
    (schema.root.lies_files options.path rfl rfl file hfile).target

/-- A file that was finished is one of the layout, in its place, and holds its portion. -/
theorem Schema.write_portion {schema : Schema} (hfiles : 1 < schema.fileCount)
    (hselects : schema.SelectsInFiles) {provider : Provider} {options : Options}
    {opener : SinkOpener} {index : Nat} {stream : WriteStream}
    (hstream : (schema.write provider options opener).streams.toList[index]? = some stream)
    (hclosed : stream.state = .closed) :
    ∃ file, (schema.root.files schema.rootSite (.base options.path) [])[index]? = some file ∧
      Pass.portion ⟨options.user, true⟩ provider file =
        (stream.path, stream.sink.data.toList) := by
  obtain ⟨lives, hserved⟩ := schema.write_served provider options opener
  obtain ⟨rest, hrest⟩ := (schema.writeScript_laysOut hfiles hselects provider options).isPrefix
  have hcontent := hserved.content hstream hclosed
  rw [← Option.map_eq_some_iff, ← List.getElem?_map, ← hrest,
    List.getElem?_append_left (List.getElem?_eq_some_iff.mp hcontent).1]
  exact hcontent

/-- **Files are isolated from one another.** In a layout of several files that picks nothing outside
of them, every file that is finished is the one declared in its place, and its path comes from its
keys. Two providers that hold the same under these keys lead to the same bytes, whatever they hold
for other files, and whatever the callbacks of the layout and of the providers make of what they
see. -/
theorem Schema.write_isolated (schema : Schema) (hfiles : 1 < schema.fileCount)
    (hselects : schema.SelectsInFiles) (provider provider' : Provider) (options : Options)
    (opener opener' : SinkOpener) (index : Nat) (stream stream' : WriteStream)
    (hstream : (schema.write provider options opener).streams.toList[index]? = some stream)
    (hstream' : (schema.write provider' options opener').streams.toList[index]? = some stream')
    (hclosed : stream.state = .closed) (hclosed' : stream'.state = .closed) :
    ∃ keys, (schema.root.fileKeys [])[index]? = some keys ∧
      stream.path = keys.foldl Path.resolve options.path ∧ stream'.path = stream.path ∧
      (provider.reach? keys = provider'.reach? keys → stream.sink.data = stream'.sink.data) := by
  obtain ⟨file, hfile, hportion⟩ := schema.write_portion hfiles hselects hstream hclosed
  obtain ⟨file', hfile', hportion'⟩ := schema.write_portion hfiles hselects hstream' hclosed'
  obtain rfl : file = file' := Option.some.inj (hfile.symm.trans hfile')
  have hlies := schema.root.lies_files options.path rfl rfl file
    (List.mem_of_getElem? hfile)
  refine ⟨file.keys, ?_, ?_, ?_, fun hreach => ?_⟩
  · rw [schema.root.fileKeys_eq schema.rootSite (.base options.path), List.getElem?_map, hfile]
    rfl
  · rw [← hlies.target]
    exact (congrArg Prod.fst hportion).symm
  · exact (congrArg Prod.fst hportion').symm.trans (congrArg Prod.fst hportion)
  · rw [Pass.portion_congr _ hreach] at hportion
    exact Array.toList_inj.mp (congrArg Prod.snd (hportion.symm.trans hportion'))

/-! ## Two files of one name -/

/-- Two files of one name in different directories. -/
def twins : Schema :=
  ⟨.ofKind (.order .little [
    .ofKind (.directory "a" [.ofKind (.file "x" [byteField "value"])]),
    .ofKind (.directory "b" [.ofKind (.file "x" [byteField "value"])])]), .root, rfl⟩

def twinsData (left : Int) : Provider :=
  .record [("a", .record [("x", .record [("value", .value (.int left))])]),
    ("b", .record [("x", .record [("value", .value (.int 3))])])]

/-- The second file is finished, whatever the first is. -/
theorem twins_closed (left : Int) {record : Fields Value}
    (houtcome : (twins.writeScript (twinsData left) taggedOptions).outcome = .ok record)
    (hfiles : (Step.files [] (twins.writeScript (twinsData left) taggedOptions).steps).length = 2) :
    ∃ stream, (twins.write (twinsData left) taggedOptions
      fun _ _ => .ok .faultless).streams.toList[1]? = some stream ∧ stream.state = .closed := by
  obtain ⟨lives, hserved⟩ :=
    twins.write_served (twinsData left) taggedOptions fun _ _ => .ok .faultless
  obtain ⟨hlength, hclosed⟩ := hserved.closed
    ((Schema.write_result SinkOpener.neverFails_faultless).trans houtcome)
  have hindex : 1 < (twins.write (twinsData left) taggedOptions
      fun _ _ => .ok .faultless).streams.toList.length := by
    rw [hlength, hfiles]
    exact Nat.lt_succ_self 1
  exact ⟨_, List.getElem?_eq_getElem hindex, hclosed _ (List.getElem_mem hindex)⟩

theorem twins_selectsInFiles : twins.SelectsInFiles := by
  intro occurrence hoccurrence choose hkind
  change occurrence ∈ [_, _, _, _, _, _, _] at hoccurrence
  simp only [List.mem_cons, List.not_mem_nil, or_false] at hoccurrence
  rcases hoccurrence with rfl | rfl | rfl | rfl | rfl | rfl | rfl <;> cases hkind

theorem Schema.write_isolated_twins :
    let pass := fun left => twins.write (twinsData left) taggedOptions fun _ _ => .ok .faultless
    ∃ stream stream', (pass 1).streams.toList[1]? = some stream ∧
      (pass 2).streams.toList[1]? = some stream' ∧
      stream.path = ["b", "x"].foldl Path.resolve "out" ∧
      stream.sink.data = stream'.sink.data := by
  intro pass
  obtain ⟨stream, hstream, hclosed⟩ := twins_closed 1 rfl rfl
  obtain ⟨stream', hstream', hclosed'⟩ := twins_closed 2 rfl rfl
  obtain ⟨keys, hkeys, hpath, -, hbytes⟩ := Schema.write_isolated twins (by decide)
    twins_selectsInFiles _ _ _ _ _ _ _ _ hstream hstream' hclosed hclosed'
  obtain rfl : ["b", "x"] = keys := Option.some.inj hkeys
  exact ⟨stream, stream', hstream, hstream', hpath, hbytes rfl⟩

end ByteLayout
