import Artboard.Command.Run
import Artboard.Proofs.Files.Writing
import Mathlib.Data.List.Find

/-!
# What batches write

A batch with a folder of results writes one file for each document that it counts as compiled
(`Job.deliveries`). Its file tree afterwards is the one before, except that at each location that
results were written to there is the last one of them (`Job.Writes`).

**Documents that share a file.** The file of a document is named for its stem, and what looks like
an extension of the stem is replaced. So documents in different folders can have the same file, and
so can documents in one folder (`Command.runArguments_loses_output`). Which ones do is said by
`Command.compileSource_outputs`.
-/

namespace Artboard

open Text (encode)

/-- Whether a path leads to a location. -/
def FileTree.leadsTo (t : FileTree) (p : Path) (place : Location) : Bool :=
  match t.locate p with
  | .ok q => q == place
  | .error _ => false

theorem FileTree.leadsTo_iff {t : FileTree} {p : Path} {place : Location} :
    t.leadsTo p place = true ↔ t.locate p = .ok place := by
  unfold leadsTo
  cases t.locate p with
  | error e => exact ⟨nofun, nofun⟩
  | ok q => simp

namespace Job

/-! ## Results -/

/-- What came of a document: the text, and the file that it was written to. -/
structure Delivery where
  path : Path
  file : Path
  text : String
deriving Repr, DecidableEq

section Deliveries

variable (job : Job) (output : OutputOptions) (folder : Path)

/-- What is written for a document into the folder of results, if it is counted as compiled. -/
def delivery? (path : Path) (b : Batch) : Option Delivery :=
  match (job.convert (compileOptions output) path b).1 with
  | .ok c =>
    let (text, extension) := job.outputOf output c
    if (job.compileOne output path b).1.succeeded then
      some ⟨path, outputPath folder path extension, text⟩
    else none
  | .error _ => none

/-- What is written for the documents of a batch, in order. -/
def deliveries : List Path → Batch → List Delivery
  | [], _ => []
  | path :: rest, b =>
    (job.delivery? output folder path b).toList ++
      deliveries rest (job.compileOne output path b).2

end Deliveries

/-- A tree after another one, when results were written in between: at each location there is the
last result that was written there, or what was there before. -/
structure Writes (t t' : FileTree) (ds : List Delivery) : Prop where
  grows : t.Grows t'
  located : ∀ d ∈ ds, ∃ place, t'.locate d.file = .ok place
  files : ∀ place, t'.fileAt? place =
    ((ds.reverse.find? (t'.leadsTo ·.file place)).map (encode ·.text)).or (t.fileAt? place)

/-- The file of each result holds the last of the results that were written to its location. -/
def HoldsLast (t : FileTree) (ds : List Delivery) : Prop :=
  ∀ d ∈ ds, ∃ before last after, ds = before ++ last :: after ∧
    t.locate last.file = t.locate d.file ∧ (∀ e ∈ after, t.locate e.file ≠ t.locate d.file) ∧
    t.read d.file = .ok (encode last.text)

namespace Writes

variable {t t' t'' : FileTree} {ds ds' : List Delivery}

theorem nil (t : FileTree) : Writes t t [] where
  grows := .refl t
  located := List.forall_mem_nil _
  files _ := rfl

theorem append (h : Writes t t' ds) (h' : Writes t' t'' ds') : Writes t t'' (ds ++ ds') where
  grows := h.grows.trans h'.grows
  located := by
    refine List.forall_mem_append.2 ⟨fun d hd => ?_, h'.located⟩
    obtain ⟨place, hplace⟩ := h.located d hd
    exact ⟨place, h'.grows.locate hplace⟩
  files place := by
    -- Where the earlier results were written is where their paths lead afterwards.
    have hleads : ∀ d ∈ ds.reverse, t'.leadsTo d.file place = t''.leadsTo d.file place := by
      intro d hd
      obtain ⟨q, hq⟩ := h.located d (List.mem_reverse.1 hd)
      rw [FileTree.leadsTo, FileTree.leadsTo, hq, h'.grows.locate hq]
    rw [h'.files, h.files, List.find?_congr hleads, List.reverse_append, List.find?_append,
      Option.map_or, Option.or_assoc]

/-- **At the file of each result there is the last one that was written there.** -/
theorem holdsLast (h : Writes t t' ds) : HoldsLast t' ds := by
  intro d hd
  obtain ⟨place, hplace⟩ := h.located d hd
  obtain ⟨last, hlast⟩ : ∃ last, ds.reverse.find? (t'.leadsTo ·.file place) = some last := by
    rw [← Option.isSome_iff_exists, List.find?_isSome]
    exact ⟨d, List.mem_reverse.2 hd, FileTree.leadsTo_iff.2 hplace⟩
  have hcontent : t'.fileAt? place = some (encode last.text) := by
    rw [h.files, hlast]
    rfl
  obtain ⟨hleads, after, before, hsplit, hafter⟩ := List.find?_eq_some_iff_append.1 hlast
  refine ⟨before.reverse, last, after.reverse, ?_, ?_, fun e he heq => ?_, ?_⟩
  · rw [← List.reverse_reverse ds, hsplit]
    simp
  · rw [hplace]
    exact FileTree.leadsTo_iff.1 hleads
  · have hnot := hafter e (List.mem_reverse.1 he)
    rw [FileTree.leadsTo_iff.2 (heq.trans hplace)] at hnot
    cases hnot
  · simp only [FileTree.read, hplace, hcontent, bind, Except.bind]

end Writes

/-! ## Batches -/

section Batches

variable {job : Job} {output : OutputOptions} {folder : Path}

/-- A result that is saved is at its file, and all other files are as they were. -/
theorem save_writes {t t' : FileTree} {file : Path} {text : String}
    (h : save t folder file text = .ok t') (path : Path) : Writes t t' [⟨path, file, text⟩] := by
  unfold save at h
  cases hmake : t.makeFolder folder with
  | error e =>
    rw [hmake] at h
    cases h
  | ok made =>
    rw [hmake] at h
    obtain ⟨hmade, hfiles⟩ := FileTree.makeFrom_grows _ hmake
    obtain ⟨place, hplace, hfolder, rfl⟩ := FileTree.write_eq_ok_iff.1 h
    have hwritten : made.Grows
        { made with files := FileTree.putAt place (encode text) made.files } :=
      ⟨rfl, fun _ => FileTree.mem_keys_putAt, List.Subset.refl _⟩
    have hleads := hwritten.locate hplace
    refine ⟨hmade.trans hwritten, List.forall_mem_singleton.2 ⟨place, hleads⟩, fun other => ?_⟩
    rw [FileTree.fileAt?_put, List.reverse_singleton, List.find?_singleton, FileTree.leadsTo,
      hleads, FileTree.fileAt?, hfiles]
    by_cases hother : other = place
    · simp [hother]
    · have hne : (place == other) = false := beq_false_of_ne (Ne.symm hother)
      simp only [hother, hne]
      rfl

theorem path_delivery? {path : Path} {b : Batch} {d : Delivery}
    (h : job.delivery? output folder path b = some d) : d.path = path := by
  unfold delivery? at h
  split at h
  · dsimp only at h
    split_ifs at h
    cases h
    rfl
  · cases h

variable (job) (hfolder : output.folder = some folder)
include hfolder

/-- A document is counted as compiled if its result was saved, and then that is all that changes. -/
theorem compileOne_writes (path : Path) (b : Batch) :
    (job.compileOne output path b).1.succeeded =
        (job.delivery? output folder path b).isSome ∧
      Writes b.tree (job.compileOne output path b).2.tree
        (job.delivery? output folder path b).toList := by
  unfold delivery? compileOne
  rcases job.convert (compileOptions output) path b with ⟨message | c, world⟩
  · exact ⟨rfl, .nil b.tree⟩
  · simp only [deliver, hfolder]
    cases hsave : save b.tree folder (outputPath folder path (job.outputOf output c).2)
        (job.outputOf output c).1 with
    | error e =>
      simp only [Bool.false_eq_true, ite_false]
      exact ⟨rfl, .nil b.tree⟩
    | ok t =>
      simp only [ite_true]
      exact ⟨rfl, save_writes hsave path⟩

/-- **A batch writes the results of the documents that it counts as compiled, and nothing else.** -/
theorem compileAll_writes (paths : List Path) (b : Batch) :
    let result := job.compileAll output paths b
    let ds := job.deliveries output folder paths b
    ((paths.zip result.1).filter (·.2.succeeded)).map (·.1) = ds.map (·.path) ∧
      result.1.length = paths.length ∧ Writes b.tree result.2.tree ds := by
  induction paths generalizing b with
  | nil => exact ⟨rfl, rfl, .nil b.tree⟩
  | cons path rest ih =>
    obtain ⟨hsucceeded, hwrites⟩ := compileOne_writes job hfolder path b
    obtain ⟨hpaths, hlength, hrest⟩ := ih (job.compileOne output path b).2
    refine ⟨?_, congrArg (· + 1) hlength, hwrites.append hrest⟩
    show (((path, (job.compileOne output path b).1) :: rest.zip _).filter _).map _ = _
    rw [deliveries, List.map_append, ← hpaths, List.filter_cons, hsucceeded]
    cases hdelivery : job.delivery? output folder path b with
    | none => rfl
    | some d =>
      have hpath : d.path = path := path_delivery? hdelivery
      rw [Option.toList, List.map_singleton, hpath]
      rfl

end Batches

/-! ## Files of documents -/

/-- The extension of all files of a batch. -/
def extensionOf (job : Job) (output : OutputOptions) : String :=
  if output.json then "json"
  else if output.preview then "html"
  else if job.settings.mode.isJsx then "jsx"
  else "html"

section Files

variable {job : Job} {output : OutputOptions} {folder : Path}

theorem outputOf_snd (c : Conversion) : (job.outputOf output c).2 = job.extensionOf output := by
  unfold outputOf extensionOf
  split_ifs <;> rfl

theorem isName_extensionOf {root : String} (hroot : '/' ∉ root.toList) :
    Path.IsName (root ++ "." ++ job.extensionOf output) := by
  unfold extensionOf
  split_ifs
  · exact .append hroot (by decide) ⟨'j', by decide, by decide⟩
  · exact .append hroot (by decide) ⟨'h', by decide, by decide⟩
  · exact .append hroot (by decide) ⟨'j', by decide, by decide⟩
  · exact .append hroot (by decide) ⟨'h', by decide, by decide⟩

/-- What the file of a document is named for: the stem without what looks like its extension. There
is no such name for the stems that lead elsewhere. -/
def rootName? (path : Path) : Option String :=
  path.stem?.bind fun stem =>
    if stem = "." ∨ stem = ".." then none else some (Path.splitName stem).1

theorem file_of_mem_deliveries {paths : List Path} {b : Batch} {d : Delivery}
    (hd : d ∈ job.deliveries output folder paths b) :
    d.file = outputPath folder d.path (job.extensionOf output) := by
  induction paths generalizing b with
  | nil => cases hd
  | cons path rest ih =>
    rw [deliveries, List.mem_append] at hd
    rcases hd with hd | hd
    · have hdelivery := Option.mem_toList.1 hd
      rw [path_delivery? hdelivery]
      unfold delivery? at hdelivery
      split at hdelivery
      · dsimp only at hdelivery
        split_ifs at hdelivery
        cases hdelivery
        rw [outputOf_snd]
      · cases hdelivery
    · exact ih hd

/-- The file of a document lies in the folder of results. -/
theorem outputPath_eq (job : Job) (output : OutputOptions) (folder : Path) {path : Path}
    {root : String} (h : rootName? path = some root) :
    '/' ∉ root.toList ∧ outputPath folder path (job.extensionOf output) =
      folder.join (root ++ "." ++ job.extensionOf output) := by
  obtain ⟨stem, hstem, hroot⟩ := Option.bind_eq_some_iff.1 h
  split_ifs at hroot with hsteps
  rw [not_or] at hsteps
  cases hroot
  have hname : Path.IsName stem := .of_stem? hstem hsteps.1 hsteps.2
  have hslash : '/' ∉ (Path.splitName stem).1.toList := fun hslash =>
    hname.slash ((Path.stem_prefix_name stem).subset hslash)
  refine ⟨hslash, ?_⟩
  rw [outputPath, hstem, Option.getD_some]
  exact Path.withExtension_join hname folder _ (isName_extensionOf hslash).slash

end Files

end Job

namespace Command

open Job

section Runs

variable {source : Source} {output : OutputOptions} {t : FileTree} {settings : Settings}
  {paths : List Path}

theorem open?_eq (hsettings : settingsOf t source = .ok settings)
    (hpaths : Document.find t source.input = .ok paths) :
    open? t source = .ok (settings, paths) := by
  unfold open?
  rw [hsettings, hpaths]
  rfl

/-- A run compiles the documents in order, if there are any. -/
theorem compileSource_eq (connect : UploadSettings → Uploader) (output : OutputOptions)
    (hsettings : settingsOf t source = .ok settings)
    (hpaths : Document.find t source.input = .ok paths) :
    compileSource connect source output t =
      if paths = [] then .succeeded [.out "⚠️  No input documents found"] t
      else
        let result := compileAll ⟨settings, connect settings.uploads, source.assets⟩ output paths
          ⟨t, {}⟩
        finish output result.1 result.2.tree := by
  unfold compileSource
  rw [open?_eq hsettings hpaths]
  cases paths <;> rfl

theorem finish_tree (reports : List Report) : (finish output reports t).tree = t := by
  unfold finish
  dsimp only
  split_ifs <;> rfl

end Runs

/-- **What a run leaves of its results.** Let a run compile documents into a folder. Each document
that is counted as compiled has a file, which is named for the stem of the document, without what
looks like an extension of the stem. In the end it holds the result of the last of the documents
whose files are at the same location. With such stems these are the documents with the same name
of their files, wherever they lie. -/
theorem compileSource_outputs (connect : UploadSettings → Uploader) (source : Source)
    (output : OutputOptions) (t : FileTree) {settings : Settings} {paths : List Path}
    {folder : Path} (hsettings : settingsOf t source = .ok settings)
    (hpaths : Document.find t source.input = .ok paths) (hfolder : output.folder = some folder) :
    let job : Job := ⟨settings, connect settings.uploads, source.assets⟩
    let ds := job.deliveries output folder paths ⟨t, {}⟩
    let ending := compileSource connect source output t
    (paths ≠ [] → ∃ reports, ending = finish output reports ending.tree ∧
        reports.length = paths.length ∧
        ((paths.zip reports).filter (·.2.succeeded)).map (·.1) = ds.map (·.path)) ∧
      HoldsLast ending.tree ds ∧
      ∀ d ∈ ds, ∀ root, rootName? d.path = some root →
        d.file = folder.join (root ++ "." ++ job.extensionOf output) ∧
        ∀ e ∈ ds, ∀ other, rootName? e.path = some other →
          (ending.tree.locate e.file = ending.tree.locate d.file ↔ other = root) := by
  intro job ds ending
  obtain ⟨hcounted, hlength, hwrites⟩ := compileAll_writes job hfolder paths ⟨t, {}⟩
  have hending := compileSource_eq connect output hsettings hpaths
  have htree : ending.tree = (job.compileAll output paths ⟨t, {}⟩).2.tree := by
    simp only [ending, hending]
    split_ifs with hempty
    · rw [hempty]
      rfl
    · exact finish_tree _
  rw [htree]
  refine ⟨fun hne => ?_, hwrites.holdsLast, fun d hd root hroot => ?_⟩
  · refine ⟨_, ?_, hlength, hcounted⟩
    simp only [ending, hending, if_neg hne]
    rfl
  · obtain ⟨hslash, hfile⟩ := outputPath_eq job output folder hroot
    rw [← file_of_mem_deliveries hd] at hfile
    refine ⟨hfile, fun e he other hother => ?_⟩
    obtain ⟨hslash', hfile'⟩ := outputPath_eq job output folder hother
    rw [← file_of_mem_deliveries he] at hfile'
    obtain ⟨place, hplace⟩ := hwrites.located d hd
    rw [hfile] at hplace
    rw [hfile, hfile', FileTree.locate_join_eq_iff (isName_extensionOf hslash)
      (isName_extensionOf hslash') hplace, String.append_left_inj, String.append_left_inj]

/-- Two documents side by side. -/
theorem compileSource_outputs_pair :
    let text (name : String) := encode
      ("\x7b\"selection\":[\x7b\"id\":\"1\",\"name\":\"#prompt: " ++ name ++ "\"\x7d]\x7d")
    let t : FileTree := { files := [(["in", "a.json"], text "a"), (["in", "b.json"], text "b")] }
    let paths := ["in/a.json", "in/b.json"]
    let source : Source := { input := "in" }
    let output : OutputOptions := { folder := some "out" }
    let connect : UploadSettings → Uploader := fun _ _ _ => .failed
    let job : Job := ⟨{}, connect {}, none⟩
    let ds := job.deliveries output "out" paths ⟨t, {}⟩
    let ending := compileSource connect source output t
    (settingsOf t source = .ok {} ∧ Document.find t source.input = .ok paths ∧
        output.folder = some "out" ∧ ds.map (·.path) = paths) ∧
      (paths ≠ [] → ∃ reports, ending = finish output reports ending.tree ∧
        reports.length = paths.length ∧
        ((paths.zip reports).filter (·.2.succeeded)).map (·.1) = ds.map (·.path)) ∧
      HoldsLast ending.tree ds ∧
      ∀ d ∈ ds, ∀ root, rootName? d.path = some root →
        d.file = Path.join "out" (root ++ "." ++ job.extensionOf output) ∧
        ∀ e ∈ ds, ∀ other, rootName? e.path = some other →
          (ending.tree.locate e.file = ending.tree.locate d.file ↔ other = root) := by
  intro text t paths source output connect job ds ending
  have hsettings : settingsOf t source = .ok {} := by decide +kernel
  have hpaths : Document.find t source.input = .ok paths := by decide +kernel
  have hcounted : ds.map (·.path) = paths := by decide +kernel
  exact ⟨⟨hsettings, hpaths, rfl, hcounted⟩,
    compileSource_outputs connect source output t hsettings hpaths rfl⟩

/-- **A result can be lost without a word.** Two documents lie side by side, and the stem of one
looks like the name of the other with an extension. Both are counted as compiled, but there is one
file, which holds the result of the second. -/
theorem runArguments_loses_output :
    let text (name : String) := encode
      ("\x7b\"selection\":[\x7b\"id\":\"1\",\"name\":\"#prompt: " ++ name ++ "\"\x7d]\x7d")
    let t : FileTree :=
      { files := [(["in", "a.b.json"], text "first"), (["in", "a.json"], text "second")] }
    let ending := runArguments (fun _ _ _ => .failed) ["compile", "in", "--out-dir", "out"] t
    ending.status = 0 ∧
      ending.lines = [
        .out "  ✓ in/a.b.json → out/a.jsx",
        .out "  ✓ in/a.json → out/a.jsx",
        .out "",
        .out "✅ Compiled 2 documents"] ∧
      ending.tree.files =
        t.files ++ [(["out", "a.jsx"], encode "\x7b/* AI: second */\x7d")] := by
  decide +kernel

end Command

end Artboard
