import Artboard.Command.Arguments
import Artboard.Command.Document
import Artboard.Conversion.Print

/-!
# Batches of documents

A batch converts documents one after another under the same settings. They share the world, so
that what was uploaded for one is not uploaded again for the next, and the file tree, in which
earlier results may have been written.

**Compiling** (`compileAll`) goes on after a document that fails. **Reporting** (`reportAll`) stops
there.
-/

namespace Artboard

/-- A line for one of the two streams of output. -/
inductive Line where
  | out (text : String)
  | err (text : String)
deriving Repr, DecidableEq

/-- What all documents of a batch have in common. -/
structure Job where
  settings : Settings
  uploader : Uploader
  assets : Option Path := none

/-- What a document may change for those after it. -/
structure Batch where
  tree : FileTree
  world : World := {}

namespace Job

/-- The conversion of a document, or a message. -/
def convert (job : Job) (options : ConversionOptions) (path : Path) (b : Batch) :
    Except String Conversion × World :=
  match Document.load b.tree path with
  | .error message => (.error message, b.world)
  | .ok document =>
    match document.host b.tree job.assets with
    | .error e => (.error e.message, b.world)
    | .ok host =>
      let services := Services.uploading host job.uploader
      match services.compile job.settings options document.selection b.world with
      | (.ok (.converted c), w) => (.ok c, w)
      | (.ok .emptySelection, w) => (.error "Selection is empty", w)
      | (.error e, w) => (.error e.message, w)

/-! ## Compiling -/

/-- How a document went. -/
structure Report where
  lines : List Line
  succeeded : Bool
deriving Repr, DecidableEq

def warningLines (c : Conversion) : List Line := c.warnings.map fun w => .err s!"  ⚠ {w}"

def failure (path : Path) (message : String) : Line := .err s!"  ✗ {path} - {message}"

/-- What a conversion is written as, and the extension of its file. -/
def outputOf (job : Job) (output : OutputOptions) (c : Conversion) : String × String :=
  if output.json then (c.toJson.pretty, "json")
  else if output.preview then (c.preview.content, "html")
  else if job.settings.mode.isJsx then (c.code, "jsx")
  else (c.code, "html")

/-- The file for a document in the folder of results. -/
def outputPath (folder : Path) (path : Path) (extension : String) : Path :=
  (folder.join (path.stem?.getD path)).withExtension extension

/-- Writes a file into the folder of results, which is made first. -/
def save (t : FileTree) (folder file : Path) (text : String) : Except FileError FileTree := do
  let t ← t.makeFolder folder
  t.write file (Text.encode text)

/-- Prints or writes what came of a document. -/
def deliver (job : Job) (output : OutputOptions) (path : Path) (c : Conversion) (t : FileTree) :
    Report × FileTree :=
  let (text, extension) := job.outputOf output c
  match output.folder with
  | none => (⟨warningLines c ++ [.out text], true⟩, t)
  | some folder =>
    let file := outputPath folder path extension
    match save t folder file text with
    | .ok t => (⟨warningLines c ++ [.out s!"  ✓ {path} → {file}"], true⟩, t)
    | .error e => (⟨warningLines c ++ [failure path e.message], false⟩, t)

def compileOptions (output : OutputOptions) : ConversionOptions :=
  { isLive := output.preview, trigger := some "cli" }

def compileOne (job : Job) (output : OutputOptions) (path : Path) (b : Batch) : Report × Batch :=
  let (result, world) := job.convert (compileOptions output) path b
  match result with
  | .error message => (⟨[failure path message], false⟩, { b with world })
  | .ok c =>
    let (report, tree) := job.deliver output path c b.tree
    (report, ⟨tree, world⟩)

/-- Compiles documents in order. -/
def compileAll (job : Job) (output : OutputOptions) : List Path → Batch → List Report × Batch
  | [], b => ([], b)
  | path :: rest, b =>
    let (report, b) := job.compileOne output path b
    let (reports, b) := job.compileAll output rest b
    (report :: reports, b)

/-! ## Reporting -/

/-- The lines of documents in order, up to the first that fails, and its message. -/
def reportAll (job : Job) (render : Path → Conversion → List Line) :
    List Path → Batch → List Line × Option String
  | [], _ => ([], none)
  | path :: rest, b =>
    match job.convert {} path b with
    | (.error message, _) => ([], some message)
    | (.ok c, world) =>
      let (lines, message) := job.reportAll render rest { b with world }
      (render path c ++ lines, message)

/-- The colours of a document as lines. -/
def colorLines (path : Path) (c : Conversion) : List Line :=
  .out path ::
    if c.colors.isEmpty then [.out "  No solid colors"] else c.colors.map fun e => .out e.line

/-- The colours of a document as JSON. -/
def colorDocument (c : Conversion) : List Line :=
  [.out (Json.list (c.colors.map ColorEntry.toJson)).pretty]

def textStyleLines (c : Conversion) : List Line := [.out (TextStyle.renderAll c.textStyles)]

end Job

end Artboard
