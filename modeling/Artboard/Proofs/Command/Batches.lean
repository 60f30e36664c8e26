import Artboard.Proofs.Command.Outputs
import Artboard.Proofs.Conversion.Repetition
import Mathlib.Data.List.Lex
import Mathlib.Data.String.Basic

/-!
# Documents of a batch

The documents of a batch share the world, so that what was uploaded for one is in the cache for
those after it. If the answer of the uploader depends on the content alone, this does not show: each
document is reported as if it were compiled alone (`Job.compileAll_eq_map`,
`Command.compileSource_reports`), whatever became of the documents before it.

What carries over from one document to the next is a world in which nothing is in the cache but what
the uploader would answer again (`World.Repeats`).
-/

namespace Artboard

open Text (encode)

/-! ## Single documents -/

theorem Document.host_provide {t : FileTree} {folder : Option Path} {d : Document} {host : Host}
    (h : d.host t folder = .ok host) (n m : Nat) (request : ExportRequest) :
    host.provide n request = host.provide m request := by
  unfold Document.host at h
  split_ifs at h
  cases h
  rfl

/-- What is read as a document is a file. -/
theorem Document.isFile_of_load {t : FileTree} {path : Path} {d : Document}
    (h : load t path = .ok d) : t.isFile path = true := by
  unfold load FileTree.readText FileTree.read at h
  unfold FileTree.isFile
  cases hplace : t.locate path with
  | error e =>
    rw [hplace] at h
    cases h
  | ok place =>
    rw [hplace] at h
    cases hfile : t.fileAt? place with
    | some bytes =>
      show (t.fileAt? place).isSome = true
      rw [hfile]
      rfl
    | none =>
      simp only [bind, Except.bind, hfile] at h
      cases h

namespace Job

variable {job : Job} {output : OutputOptions} {t : FileTree} {w w' : World}

/-- The conversion of a document does not depend on the world. -/
theorem convert_eq (hkeyed : job.uploader.Keyed) (hw : w.Repeats job.uploader)
    (hw' : w'.Repeats job.uploader) (options : ConversionOptions) (path : Path) :
    (job.convert options path ⟨t, w⟩).1 = (job.convert options path ⟨t, w'⟩).1 ∧
      (job.convert options path ⟨t, w⟩).2.Repeats job.uploader := by
  unfold convert
  dsimp only
  cases Document.load t path with
  | error message => exact ⟨rfl, hw⟩
  | ok document =>
    dsimp only
    cases hhost : document.host t job.assets with
    | error e => exact ⟨rfl, hw⟩
    | ok host =>
      dsimp only
      have hcompatible := compatible_repeats hkeyed (Document.host_provide hhost)
      have halike : World.Repeats.Alike job.uploader w.forget w'.forget :=
        ⟨hw.congr rfl, hw'.congr rfl, rfl⟩
      obtain ⟨hresult, hworld⟩ :=
        hcompatible.compile job.settings options document.selection halike
      unfold Services.uploading
      rcases hcompile : Services.compile ⟨host, Pass.address job.uploader⟩ job.settings options
        document.selection w with ⟨result, v⟩
      rcases hcompile' : Services.compile ⟨host, Pass.address job.uploader⟩ job.settings options
        document.selection w' with ⟨result', v'⟩
      rw [hcompile, hcompile'] at hresult
      rw [hcompile] at hworld
      obtain rfl : result = result' := hresult
      have hv : v.Repeats job.uploader := hworld.left.congr rfl
      rcases result with _ | _ | _ <;> exact ⟨rfl, hv⟩

/-- What is converted is a file. -/
theorem isFile_of_convert {options : ConversionOptions} {path : Path} {c : Conversion}
    (h : (job.convert options path ⟨t, w⟩).1 = .ok c) : t.isFile path = true := by
  unfold convert at h
  cases hload : Document.load t path with
  | error message =>
    rw [hload] at h
    cases h
  | ok document => exact Document.isFile_of_load hload

/-- The report of a document that is printed. -/
def printed (job : Job) (output : OutputOptions) (path : Path) :
    Except String Conversion → Report
  | .error message => ⟨[failure path message], false⟩
  | .ok c => ⟨warningLines c ++ [.out (job.outputOf output c).1], true⟩

theorem compileOne_eq_printed (houtput : output.folder = none) (path : Path) (b : Batch) :
    job.compileOne output path b =
      (job.printed output path (job.convert (compileOptions output) path b).1,
        ⟨b.tree, (job.convert (compileOptions output) path b).2⟩) := by
  unfold compileOne
  rcases job.convert (compileOptions output) path b with ⟨_ | c, world⟩
  · rfl
  · simp only [deliver, houtput]
    rfl

/-- The report of a document that is compiled alone. -/
def reportOf (job : Job) (output : OutputOptions) (t : FileTree) (path : Path) : Report :=
  (job.compileOne output path ⟨t, {}⟩).1

/-- **Each document of a batch is reported as if it were compiled alone.** The induction is over the
documents, and carries along that nothing is in the cache but what the uploader would answer
again. -/
theorem compileAll_eq_map (job : Job) (hkeyed : job.uploader.Keyed) (houtput : output.folder = none)
    (paths : List Path) (hw : w.Repeats job.uploader) :
    ∃ w', job.compileAll output paths ⟨t, w⟩ = (paths.map (job.reportOf output t), ⟨t, w'⟩) := by
  induction paths generalizing w with
  | nil => exact ⟨w, rfl⟩
  | cons path rest ih =>
    obtain ⟨hresult, hworld⟩ :=
      convert_eq hkeyed hw (.init job.uploader) (compileOptions output) path (t := t)
    obtain ⟨w', hrest⟩ := ih hworld
    have hreport : job.compileOne output path ⟨t, w⟩ = (job.reportOf output t path,
        ⟨t, (job.convert (compileOptions output) path ⟨t, w⟩).2⟩) := by
      rw [reportOf, compileOne_eq_printed houtput, compileOne_eq_printed houtput, hresult]
    refine ⟨w', ?_⟩
    rw [compileAll, hreport]
    dsimp only
    rw [hrest]
    rfl

end Job

/-! ## The order of documents -/

namespace FileTree

theorem mem_insertPlace {place q : Location} {places : List Location} :
    q ∈ insertPlace place places ↔ q = place ∨ q ∈ places := by
  induction places with
  | nil => simp [insertPlace]
  | cons p rest ih =>
    rw [insertPlace]
    split_ifs with hlt heq
    · rw [List.mem_cons]
    · subst heq
      simp
    · rw [List.mem_cons, List.mem_cons, ih, or_left_comm]

theorem pairwise_insertPlace {places : List Location} (h : places.Pairwise (· < ·))
    (place : Location) : (insertPlace place places).Pairwise (· < ·) := by
  induction places with
  | nil => exact List.pairwise_singleton _ _
  | cons p rest ih =>
    obtain ⟨hfirst, hrest⟩ := List.pairwise_cons.1 h
    rw [insertPlace]
    split_ifs with hlt heq
    · refine List.pairwise_cons.2 ⟨fun q hq => ?_, h⟩
      obtain rfl | hq := List.mem_cons.1 hq
      · exact hlt
      · exact lt_trans hlt (hfirst q hq)
    · exact h
    · refine List.pairwise_cons.2 ⟨fun q hq => ?_, ih hrest⟩
      obtain rfl | hq := mem_insertPlace.1 hq
      · exact lt_of_le_of_ne (not_lt.1 hlt) (Ne.symm heq)
      · exact hfirst q hq

/-- The entries of a folder are listed in order, and none comes twice. -/
theorem pairwise_entries (t : FileTree) (folder : Location) :
    (t.entries folder).Pairwise (· < ·) := by
  unfold entries
  dsimp only
  generalize [] :: _ = places
  induction places with
  | nil => exact List.Pairwise.nil
  | cons place rest ih => exact pairwise_insertPlace ih place

end FileTree

/-- Documents are found in the order of their places below a folder. -/
theorem Document.find_of_isFolder {t : FileTree} {input : Path} (hfile : t.isFile input = false)
    (hfolder : t.isFolder input = true) :
    ∃ places : List Location, places.Pairwise (· < ·) ∧
      find t input = .ok (places.map (·.foldl Path.join input)) := by
  obtain ⟨folder, hplace⟩ : ∃ folder, t.locate input = .ok folder := by
    unfold FileTree.isFolder at hfolder
    split at hfolder
    · exact ⟨_, ‹_›⟩
    · cases hfolder
  refine ⟨(t.entries folder).filter fun place => isDocument (place.foldl Path.join input),
    (t.pairwise_entries folder).filter _, ?_⟩
  rw [find, hfile, if_neg Bool.false_ne_true, if_pos hfolder, FileTree.walk, hplace]
  dsimp only
  rw [List.filter_map]
  rfl

/-! ## Runs -/

namespace Command

open Job

/-- The report of a document of a batch, against the run that compiles it alone. -/
inductive Reported (alone : Path → Ending) (t : FileTree) (path : Path) : Report → Prop
  /-- The same is printed. -/
  | converted {lines : List Line} (halone : alone path = .succeeded lines t) :
      Reported alone t path ⟨lines, true⟩
  /-- One line says why. If it is a file at all, the run that compiles it alone says the same. -/
  | failed {message : String}
      (halone : t.isFile path = true →
        alone path = .failed [failure path message] "No document compiled" t) :
      Reported alone t path ⟨[failure path message], false⟩

section Runs

variable {connect : UploadSettings → Uploader} {source : Source} {output : OutputOptions}
  {t : FileTree} {settings : Settings}

/-- What is printed for a single document is its report. -/
theorem finish_singleton (houtput : output.folder = none) (report : Report) :
    finish output [report] t =
      if report.succeeded then .succeeded report.lines t
      else .failed report.lines "No document compiled" t := by
  simp [finish, summary, houtput]

theorem finish_status_ne_zero_iff {reports : List Report} :
    (finish output reports t).status ≠ 0 ↔ ∀ report ∈ reports, report.succeeded = false := by
  unfold finish
  dsimp only
  split_ifs with hany
  · obtain ⟨report, hmem, hsucceeded⟩ := List.any_eq_true.1 hany
    refine ⟨fun h => absurd rfl h, fun h => ?_⟩
    rw [h report hmem] at hsucceeded
    cases hsucceeded
  · rw [List.any_eq_true, not_exists] at hany
    refine ⟨fun _ report hmem => ?_, fun _ => Nat.one_ne_zero⟩
    exact Bool.eq_false_iff.2 fun hsucceeded => hany report ⟨hmem, hsucceeded⟩

variable (hsettings : settingsOf t source = .ok settings) (houtput : output.folder = none)
  (hkeyed : (connect settings.uploads).Keyed)
include hsettings houtput hkeyed

/-- A run prints the report of each document as if it were compiled alone. -/
theorem compileSource_eq_map {paths : List Path}
    (hpaths : Document.find t source.input = .ok paths) :
    compileSource connect source output t =
      if paths = [] then .succeeded [.out "⚠️  No input documents found"] t
      else finish output
        (paths.map (reportOf ⟨settings, connect settings.uploads, source.assets⟩ output t)) t := by
  obtain ⟨w, hreports⟩ := compileAll_eq_map ⟨settings, connect settings.uploads, source.assets⟩
    hkeyed houtput paths (World.Repeats.init _) (t := t)
  rw [compileSource_eq connect output hsettings hpaths, hreports]

theorem reported (path : Path) :
    Reported (fun path => compileSource connect { source with input := path } output t) t path
      (reportOf ⟨settings, connect settings.uploads, source.assets⟩ output t path) := by
  have halone (hfile : t.isFile path = true) :
      compileSource connect { source with input := path } output t = finish output
        [reportOf ⟨settings, connect settings.uploads, source.assets⟩ output t path] t := by
    have hpaths : Document.find t path = .ok [path] := by rw [Document.find, if_pos hfile]
    have hsame : settingsOf t { source with input := path } = .ok settings := hsettings
    rw [compileSource_eq_map hsame houtput hkeyed hpaths, if_neg (List.cons_ne_nil _ _)]
    rfl
  have hreport : reportOf ⟨settings, connect settings.uploads, source.assets⟩ output t path =
      printed ⟨settings, connect settings.uploads, source.assets⟩ output path
        (convert ⟨settings, connect settings.uploads, source.assets⟩ (compileOptions output) path
          ⟨t, {}⟩).1 := by
    rw [reportOf, compileOne_eq_printed houtput]
  rw [hreport] at halone ⊢
  cases hconvert : (convert ⟨settings, connect settings.uploads, source.assets⟩
      (compileOptions output) path ⟨t, {}⟩).1 with
  | error message =>
    refine .failed fun hfile => ?_
    rw [halone hfile, hconvert, finish_singleton houtput]
    rfl
  | ok c =>
    refine .converted ?_
    rw [halone (isFile_of_convert hconvert), hconvert, finish_singleton houtput]
    rfl

end Runs

/-- **One bad document does not spoil a batch.** Let the documents of a folder be printed, and let
the answer of the uploader depend on the content alone. Then the documents are reported in the order
of their places, each as if it were compiled alone, whatever the others are, and the run fails if
and only if a document failed and none succeeded. -/
theorem compileSource_reports (connect : UploadSettings → Uploader) (source : Source)
    (output : OutputOptions) (t : FileTree) {settings : Settings}
    (hsettings : settingsOf t source = .ok settings) (hfile : t.isFile source.input = false)
    (hfolder : t.isFolder source.input = true) (houtput : output.folder = none)
    (hkeyed : (connect settings.uploads).Keyed) :
    let alone (path : Path) := compileSource connect { source with input := path } output t
    let ending := compileSource connect source output t
    ∃ (places : List Location) (report : Path → Report),
      let paths := places.map (·.foldl Path.join source.input)
      places.Pairwise (· < ·) ∧ Document.find t source.input = .ok paths ∧
        ending = (if paths = [] then .succeeded [.out "⚠️  No input documents found"] t
          else finish output (paths.map report) t) ∧
        (∀ path ∈ paths, Reported alone t path (report path)) ∧
        (ending.status ≠ 0 ↔ (∃ path ∈ paths, (report path).succeeded = false) ∧
          ∀ path ∈ paths, (report path).succeeded = false) := by
  intro alone ending
  obtain ⟨places, hordered, hpaths⟩ := Document.find_of_isFolder hfile hfolder
  refine ⟨places, reportOf ⟨settings, connect settings.uploads, source.assets⟩ output t, ?_⟩
  intro paths
  have hending := compileSource_eq_map hsettings houtput hkeyed hpaths
  refine ⟨hordered, hpaths, hending, fun path _ => reported hsettings houtput hkeyed path, ?_⟩
  show (compileSource connect source output t).status ≠ 0 ↔ _
  rw [hending]
  split_ifs with hempty
  · refine ⟨fun h => absurd rfl h, ?_⟩
    rintro ⟨⟨path, hpath, -⟩, -⟩
    have hnone : paths = [] := hempty
    rw [hnone] at hpath
    cases hpath
  · rw [finish_status_ne_zero_iff, List.forall_mem_map]
    obtain ⟨path, hpath⟩ := List.exists_mem_of_ne_nil _ hempty
    exact ⟨fun h => ⟨⟨path, hpath, h path hpath⟩, h⟩, And.right⟩

/-- A folder of a document, a text that is none, and an empty selection. -/
theorem compileSource_reports_folder :
    let t : FileTree := { files := [
      (["in", "c.json"], encode "\x7b\"selection\":[]\x7d"),
      (["in", "a.json"],
        encode "\x7b\"selection\":[\x7b\"id\":\"1\",\"name\":\"#prompt: a\"\x7d]\x7d"),
      (["in", "b.json"], encode "?")] }
    let source : Source := { input := "in" }
    let output : OutputOptions := {}
    let connect : UploadSettings → Uploader := fun _ _ request =>
      .done ("https://cdn.test/" ++ request.key)
    let alone (path : Path) := compileSource connect { source with input := path } output t
    let ending := compileSource connect source output t
    (settingsOf t source = .ok {} ∧ t.isFile source.input = false ∧
        t.isFolder source.input = true ∧ output.folder = none ∧ (connect {}).Keyed) ∧
      Document.find t source.input = .ok ["in/a.json", "in/b.json", "in/c.json"] ∧
      ∃ (places : List Location) (report : Path → Report),
        let paths := places.map (·.foldl Path.join source.input)
        places.Pairwise (· < ·) ∧ Document.find t source.input = .ok paths ∧
          ending = (if paths = [] then .succeeded [.out "⚠️  No input documents found"] t
            else finish output (paths.map report) t) ∧
          (∀ path ∈ paths, Reported alone t path (report path)) ∧
          (ending.status ≠ 0 ↔ (∃ path ∈ paths, (report path).succeeded = false) ∧
            ∀ path ∈ paths, (report path).succeeded = false) := by
  intro t source output connect alone ending
  have hsettings : settingsOf t source = .ok {} := by decide +kernel
  have hfile : t.isFile source.input = false := by decide +kernel
  have hfolder : t.isFolder source.input = true := by decide +kernel
  have hkeyed : (connect {}).Keyed := fun _ _ _ _ hkey =>
    congrArg (fun key => Reply.done ("https://cdn.test/" ++ key)) hkey
  exact ⟨⟨hsettings, hfile, hfolder, rfl, hkeyed⟩, by decide +kernel,
    compileSource_reports connect source output t hsettings hfile hfolder rfl hkeyed⟩

end Command

end Artboard
