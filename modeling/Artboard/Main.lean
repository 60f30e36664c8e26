import Artboard.Command.Run
import Artboard.Upload.Http

/-!
# The command line

The outer layer of the program. It reads what the command may look at into a file tree, runs the
command, prints its lines and writes back the files that changed. There is no network: every upload
fails, and images are shown by placeholders.
-/

namespace Artboard.Main

/-- The paths that a command may look at. -/
def paths (t : FileTree) : Command → List Path
  | .init _ _ => [Settings.defaultPath t, t.currentPath.join Example.documentName]
  | .compile source output => ofSource source ++ output.folder.toList
  | .colors source _ => ofSource source
  | .textStyles source => ofSource source
where
  ofSource (source : Source) : List Path :=
    source.input :: source.settings.getD (Settings.defaultPath t) :: source.assets.toList

def textOf (place : Location) : String := "/" ++ Path.ofParts place

/-! ## Reading -/

/-- Adds what is at a location, and everything below. -/
partial def load (t : FileTree) (place : Location) : IO FileTree := do
  let entry := (← IO.currentDir) / textOf place
  if ← entry.isDir then
    let inside ← entry.readDir
    inside.foldlM (fun t e => load t (place ++ [e.fileName])) { t with made := t.made ++ [place] }
  else if ← entry.pathExists then
    let bytes ← IO.FS.readBinFile entry
    return { t with files := FileTree.putAt place bytes.toList t.files }
  else return t

/-- Adds what the parts of a path lead to. -/
def loadFrom (t : FileTree) (place : Location) : List String → IO FileTree
  | [] => load t place
  | part :: rest => do
    let entry := (← IO.currentDir) / textOf place
    let t := if ← entry.isDir then { t with made := t.made ++ [place] } else t
    if Path.isIdle part then loadFrom t place rest
    else if part == ".." then loadFrom t (FileTree.around place) rest
    else loadFrom t (place ++ [part]) rest

def loadPath (t : FileTree) (p : Path) : IO FileTree :=
  loadFrom t (if p.isAbsolute then [] else t.current) p.parts

/-! ## Writing -/

def print : Line → IO Unit
  | .out text => do
    (← IO.getStdout).putStrLn text
  | .err text => do
    (← IO.getStderr).putStrLn text

/-- Writes the files that are not as they were. -/
def store (before after : FileTree) : IO Unit := do
  let base ← IO.currentDir
  for (place, bytes) in after.files do
    if before.fileAt? place != some bytes then
      IO.FS.createDirAll (base / textOf (FileTree.around place))
      IO.FS.writeBinFile (base / textOf place) (ByteArray.mk bytes.toArray)

/-- An uploader without a network. -/
def connect (settings : UploadSettings) : Uploader := fun _ upload =>
  match httpUpload (fun _ => none) settings upload with
  | .ok url => .done url
  | .error _ => .failed

def run (args : List String) : IO UInt32 := do
  let base ← IO.currentDir
  let empty : FileTree := { current := (Path.parts base.toString).filter (!Path.isIdle ·) }
  let tree ← match Command.ofArguments args with
    | .ok command => (paths empty command).foldlM loadPath empty
    | .error _ => pure empty
  let ending := Command.runArguments connect args tree
  ending.lines.forM print
  store tree ending.tree
  return UInt32.ofNat ending.status

end Artboard.Main

def main (args : List String) : IO UInt32 := Artboard.Main.run args
