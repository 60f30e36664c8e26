import Artboard.Conversion.World
import Artboard.Files.Tree
import Artboard.Scene.Read
import Artboard.Settings.Document
import Artboard.Text.Ascii

/-!
# Documents

A document is a JSON file with a selection and the names of colour variables. Exported images lie
in a folder of their own; the name of such a file is the id of its layer, with underscores for the
colons and semicolons.

Settings are a file too. Without one, the settings file of the folder one works in counts, and
without that the defaults do.
-/

namespace Artboard

open Text (Bytes)

structure Document where
  selection : Selection
  /-- Names of variables by their ids. -/
  names : List (String × String) := []

namespace Document

def read : Json.Reader Document := fun levels j => do
  let r ← Json.record? [["selection"], ["variables"]] levels j
  return {
    selection := ← r.required "selection" Selection.read
    names := ← r.field "variables" (Json.asMap Json.asText) [] }

def ofText? (text : String) : Option Document := (Json.parse? text).bind (read Json.textLevels)

/-- The document in a file, or a message. -/
def load (t : FileTree) (p : Path) : Except String Document :=
  match t.readText p with
  | .error _ => .error s!"Cannot read {p}"
  | .ok text =>
    match ofText? text with
    | some document => .ok document
    | none => .error s!"Invalid document {p}"

/-! ## Exports -/

mutual

/-- The ids of a layer and the layers inside it, in order. -/
def ids : Scene → List String
  | .node layer children => layer.id :: idsOfAll children

def idsOfAll : List Scene → List String
  | [] => []
  | s :: rest => ids s ++ idsOfAll rest

end

/-- The file of a layer's export. -/
def exportPath (folder : Path) (id : String) (kind : AssetKind) : Path :=
  let stem := String.ofList (id.toList.map fun c => if c = ':' || c = ';' then '_' else c)
  folder.join (stem ++ "." ++ kind.extension)

/-- The exported bytes of a layer, if there are any. -/
def exportOf (t : FileTree) (folder : Path) (kind : AssetKind) (id : String) : Option Bytes :=
  (t.read (exportPath folder id kind)).toOption

/-- Whether every exported vector of the document is text. -/
def hasTextVectors (t : FileTree) (folder : Path) (d : Document) : Bool :=
  (idsOfAll d.selection).all fun id =>
    match exportOf t folder .svg id with
    | some bytes => (Text.decode? bytes).isSome
    | none => true

def exportKind : ExportFormat → AssetKind
  | .png _ => .png
  | .svg => .svg

/-- The exports that are files of a folder. -/
def provided (t : FileTree) (folder : Option Path) (request : ExportRequest) : Reply Bytes :=
  match folder.bind fun folder => exportOf t folder (exportKind request.format) request.id with
  | some bytes => .done bytes
  | none => .failed

/-- A design tool that knows the document's variables and the exports in a folder. -/
def host (t : FileTree) (folder : Option Path) (d : Document) : Except FileError Host :=
  if folder.all fun folder => hasTextVectors t folder d then
    .ok ⟨fun id => d.names.lookup id, fun _ request => provided t folder request⟩
  else .error .notText

/-! ## Finding documents -/

def settingsName : String := "figwind.settings.json"

/-- Whether an entry of a folder counts as a document. -/
def isDocument (p : Path) : Bool :=
  p.extension? == some "json" && p.fileName? != some settingsName

/-- The path itself if it is a file, or the documents below it, in order. -/
def find (t : FileTree) (p : Path) : Except String (List Path) :=
  if t.isFile p then .ok [p]
  else if t.isFolder p then .ok ((t.walk p).filter isDocument)
  else .error s!"Input path does not exist: {p}"

end Document

/-! ## Settings files -/

namespace Settings

/-- The settings in a file, or a message. -/
def load (t : FileTree) (p : Path) : Except String Settings :=
  match t.readText p with
  | .error _ => .error s!"Cannot read settings file {p}"
  | .ok text =>
    match ofText? text with
    | some settings => .ok settings
    | none => .error s!"Invalid settings file {p}"

/-- The settings file of the folder one works in. -/
def defaultPath (t : FileTree) : Path := t.currentPath.join Document.settingsName

/-- The settings of a file, by default those of the folder one works in. -/
def loadOrDefault (t : FileTree) : Option Path → Except String Settings
  | some p => load t p
  | none => if t.has (defaultPath t) then load t (defaultPath t) else .ok {}

/-- The flavour of a name in any case, or a message. -/
def modeOf (name : String) : Except String Mode :=
  let name := Text.asciiSmall name
  match Mode.names.lookup name with
  | some mode => .ok mode
  | none => .error s!"Unknown mode: {name}. Use: html or jsx"

/-- The settings with the flavour of a name, if one is given. -/
def withMode (s : Settings) : Option String → Except String Settings
  | some name => (modeOf name).map fun mode => { s with mode }
  | none => .ok s

end Settings

end Artboard
