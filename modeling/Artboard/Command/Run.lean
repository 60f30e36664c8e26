import Artboard.Command.Batch
import Artboard.Command.Example

/-!
# Running commands

A command reads and writes a file tree, prints lines on two streams and ends with a status: zero,
one if it failed, two if the command line was no command.

Settings are read before documents are looked for, and a fault in either ends the command. The
command that compiles fails only if no document at all could be compiled.
-/

namespace Artboard

/-- What came of a command. -/
structure Ending where
  status : Nat
  lines : List Line
  tree : FileTree

namespace Ending

def succeeded (lines : List Line) (tree : FileTree) : Ending := ⟨0, lines, tree⟩

/-- A failure is told between blank lines, after what was printed before. -/
def failed (lines : List Line) (message : String) (tree : FileTree) : Ending :=
  ⟨1, lines ++ [.err "", .err s!"Error: {message}", .err ""], tree⟩

end Ending

namespace Command

/-! ## Starting out -/

def alreadyThere : List Line :=
  [.out s!"⚠️ {Document.settingsName} already exists", .out "Use --force to overwrite"]

def started : Line := .out "📝 Initializing Figwind settings..."

def created (name : String) : Line := .out s!"  ✓ Created {name}"

def nextSteps : List Line := [
  .out "",
  .out "✅ Ready!",
  .out "",
  .out "Next steps:",
  .out s!"  1. Export a selection to {Example.documentName}",
  .out s!"  2. Run: figwind compile {Example.documentName}"]

/-- Writes the example document unless there is a file of its name. -/
def writeExample (t : FileTree) : Except FileError (List Line × FileTree) :=
  let path := t.currentPath.join Example.documentName
  if t.has path then .ok ([], t)
  else (t.write path (Text.encode Example.document)).map fun t => ([created Example.documentName], t)

/-- Writes settings with a flavour, and the example document. -/
def startOut (mode : Option String) (force : Bool) (t : FileTree) : Ending :=
  let path := Settings.defaultPath t
  if t.has path && !force then .succeeded alreadyThere t
  else match ({} : Settings).withMode mode with
    | .error message => .failed [started] message t
    | .ok settings =>
      match t.write path (Text.encode settings.toJson.pretty) with
      | .error e => .failed [started] e.message t
      | .ok t =>
        let lines := [started, created Document.settingsName]
        match writeExample t with
        | .error e => .failed lines e.message t
        | .ok (more, t) => .succeeded (lines ++ more ++ nextSteps) t

/-! ## Converting -/

/-- The settings of a source. -/
def settingsOf (t : FileTree) (source : Source) : Except String Settings := do
  let settings ← Settings.loadOrDefault t source.settings
  settings.withMode source.mode

/-- The settings of a source and its documents. -/
def open? (t : FileTree) (source : Source) : Except String (Settings × List Path) := do
  let settings ← settingsOf t source
  let paths ← Document.find t source.input
  return (settings, paths)

/-- The lines at the end of a batch, which a single printed document does not need. -/
def summary (output : OutputOptions) (reports : List Job.Report) : List Line :=
  if output.folder.isNone && reports.length ≤ 1 then []
  else
    let failures := reports.countP fun r => !r.succeeded
    let successes := reports.countP (·.succeeded)
    let text := if failures = 0 then s!"✅ Compiled {successes} documents"
      else s!"⚠️ Compiled {successes} documents, {failures} errors"
    [.out "", .out text]

/-- The end of a batch. -/
def finish (output : OutputOptions) (reports : List Job.Report) (t : FileTree) : Ending :=
  let lines := reports.flatMap (·.lines) ++ summary output reports
  if reports.any (·.succeeded) then .succeeded lines t
  else .failed lines "No document compiled" t

def compileSource (connect : UploadSettings → Uploader) (source : Source) (output : OutputOptions)
    (t : FileTree) : Ending :=
  match open? t source with
  | .error message => .failed [] message t
  | .ok (settings, paths) =>
    if paths.isEmpty then .succeeded [.out "⚠️  No input documents found"] t
    else
      let job : Job := ⟨settings, connect settings.uploads, source.assets⟩
      let (reports, b) := job.compileAll output paths ⟨t, {}⟩
      finish output reports b.tree

def reportSource (connect : UploadSettings → Uploader) (source : Source)
    (render : Path → Conversion → List Line) (t : FileTree) : Ending :=
  match open? t source with
  | .error message => .failed [] message t
  | .ok (settings, paths) =>
    let job : Job := ⟨settings, connect settings.uploads, source.assets⟩
    match job.reportAll render paths ⟨t, {}⟩ with
    | (lines, none) => .succeeded lines t
    | (lines, some message) => .failed lines message t

/-! ## Commands -/

/-- Runs a command; `connect` gives the uploader for the upload settings. -/
def run (connect : UploadSettings → Uploader) (t : FileTree) : Command → Ending
  | .init mode force => startOut mode force t
  | .compile source output => compileSource connect source output t
  | .colors source json =>
    reportSource connect source
      (if json then fun _ c => Job.colorDocument c else Job.colorLines) t
  | .textStyles source => reportSource connect source (fun _ c => Job.textStyleLines c) t

/-- Runs a command line. -/
def runArguments (connect : UploadSettings → Uploader) (args : List String) (t : FileTree) :
    Ending :=
  match ofArguments args with
  | .ok command => command.run connect t
  | .error .help => ⟨0, [], t⟩
  | .error .misuse => ⟨2, [], t⟩

end Command

end Artboard
