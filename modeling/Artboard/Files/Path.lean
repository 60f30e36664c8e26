import Artboard.Text.Ascii
import Artboard.Text.Blank

/-!
# Paths

A path is a text whose parts stand between slashes. Empty parts and the part `.` stay where they
are, so that a path is shown as it was given, but they do not count as its name.

**Names** (`fileName?`). The last part that counts, unless it is `..`. A name has a stem and, behind
its last point, an extension; a point at the very start of a name begins no extension.
-/

namespace Artboard

/-- A path as it is written. -/
abbrev Path := String

namespace Path

def parts (p : Path) : List String := (Text.pieces (· == '/') p.toList).map String.ofList

def ofParts (parts : List String) : Path := "/".intercalate parts

/-- Whether a path is followed from the root. -/
def isAbsolute (p : Path) : Bool := Text.beginsWith '/' p

/-- Whether a part stays where the path is. -/
def isIdle (part : String) : Bool := part == "" || part == "."

/-- The path of an entry of a folder; an entry that starts with a slash stands for itself. -/
def join (folder : Path) (entry : String) : Path :=
  if isAbsolute entry || folder.isEmpty then entry
  else if Text.endsWith '/' folder then folder ++ entry
  else folder ++ "/" ++ entry

/-! ## Names -/

/-- The parts of a path around its name: those before it, the name, and idle ones behind it. -/
def atName? (p : Path) : Option (List String × String × List String) :=
  let reversed := p.parts.reverse
  match reversed.dropWhile isIdle with
  | [] => none
  | name :: before =>
    if name == ".." then none
    else some (before.reverse, name, (reversed.takeWhile isIdle).reverse)

def fileName? (p : Path) : Option String := p.atName?.map fun (_, name, _) => name

/-- The stem and the extension of a name. -/
def splitName (name : String) : String × Option String :=
  let reversed := name.toList.reverse
  match reversed.dropWhile (· != '.') with
  | [] | [_] => (name, none)
  | _ :: stem =>
    (String.ofList stem.reverse, some (String.ofList (reversed.takeWhile (· != '.')).reverse))

def stem? (p : Path) : Option String := p.fileName?.map fun name => (splitName name).1

def extension? (p : Path) : Option String := p.fileName?.bind fun name => (splitName name).2

/-- The path up to its stem, with an extension; a path without a name stays as it is. -/
def withExtension (p : Path) (extension : String) : Path :=
  match p.atName? with
  | some (before, name, _) => ofParts (before ++ [(splitName name).1 ++ "." ++ extension])
  | none => p

end Path

end Artboard
