import Artboard.Files.Path
import Artboard.Text.Utf8

/-!
# File trees

A file tree holds files at locations, which are lists of names from the root downwards. Folders are
there because something is inside, or because they were made. Paths are followed from the folder
one works in, or from the root if they begin with a slash; every part but the last must be a
folder, and `..` leads to the folder around.

**Reading** never changes the tree. **Writing** a file replaces what was there; the folder must be
there already. **Making** a folder makes those around it too.

Main results: `lookup_putAt_self` and `lookup_putAt_of_ne` (a written file reads back, and no other
file changes).
-/

namespace Artboard

open Text (Bytes)

/-- The names from the root downwards. -/
abbrev Location := List String

/-- Why a file could not be read or written. -/
inductive FileError where
  | notFound
  | exists
  | notFolder
  | isFolder
  | notText
deriving Repr, DecidableEq

def FileError.message : FileError → String
  | .notFound => "No such file or directory (os error 2)"
  | .exists => "File exists (os error 17)"
  | .notFolder => "Not a directory (os error 20)"
  | .isFolder => "Is a directory (os error 21)"
  | .notText => "stream did not contain valid UTF-8"

structure FileTree where
  /-- The folder one works in. -/
  current : Location := []
  files : List (Location × Bytes) := []
  /-- Folders that were made, whether or not something is inside. -/
  made : List Location := []
deriving Repr, DecidableEq

namespace FileTree

/-! ## Locations -/

def fileAt? (t : FileTree) (place : Location) : Option Bytes := t.files.lookup place

/-- Whether a location is a folder. -/
def isFolderAt (t : FileTree) (place : Location) : Bool :=
  place.isEmpty || place == t.current || t.made.contains place ||
    t.files.any fun (file, _) => place.isPrefixOf file && place.length < file.length

/-- The folder around a location; the root is around itself. -/
def around (place : Location) : Location := place.dropLast

/-- Where the parts of a path lead from a location. -/
def follow (t : FileTree) (place : Location) : List String → Except FileError Location
  | [] => .ok place
  | part :: rest =>
    if !t.isFolderAt place then
      .error (if (t.fileAt? place).isSome then .notFolder else .notFound)
    else if Path.isIdle part then t.follow place rest
    else if part == ".." then t.follow (around place) rest
    else t.follow (place ++ [part]) rest

/-- Where a path leads, whether or not something is there. -/
def locate (t : FileTree) (p : Path) : Except FileError Location :=
  if p.isEmpty then .error .notFound
  else if p.isAbsolute then t.follow [] p.parts
  else t.follow t.current p.parts

/-- The path of the folder one works in. -/
def currentPath (t : FileTree) : Path := "/" ++ Path.ofParts t.current

/-! ## Reading -/

def isFile (t : FileTree) (p : Path) : Bool :=
  match t.locate p with
  | .ok place => (t.fileAt? place).isSome
  | .error _ => false

def isFolder (t : FileTree) (p : Path) : Bool :=
  match t.locate p with
  | .ok place => t.isFolderAt place
  | .error _ => false

/-- Whether something is at a path. -/
def has (t : FileTree) (p : Path) : Bool := t.isFile p || t.isFolder p

def read (t : FileTree) (p : Path) : Except FileError Bytes := do
  let place ← t.locate p
  match t.fileAt? place with
  | some bytes => .ok bytes
  | none => .error (if t.isFolderAt place then .isFolder else .notFound)

def readText (t : FileTree) (p : Path) : Except FileError String := do
  let bytes ← t.read p
  match Text.decode? bytes with
  | some text => .ok text
  | none => .error .notText

/-- What is left of `place` below `folder`. -/
def below? (folder place : Location) : Option Location :=
  if folder.isPrefixOf place then some (place.drop folder.length) else none

/-- The location and all locations around it. -/
def beginnings : Location → List Location
  | [] => [[]]
  | name :: rest => [] :: (beginnings rest).map (name :: ·)

/-- Puts a location into a list in order, unless it is there already. -/
def insertPlace (place : Location) : List Location → List Location
  | [] => [place]
  | p :: rest =>
    if place < p then place :: p :: rest
    else if place = p then p :: rest
    else p :: insertPlace place rest

/-- The entries below a folder and the folder itself, as locations from there, in order. -/
def entries (t : FileTree) (folder : Location) : List Location :=
  let ends := (t.files.map (·.1) ++ t.made).filterMap (below? folder)
  ([] :: ends.flatMap beginnings).foldr insertPlace []

/-- The folder at a path and the entries below it, in order. -/
def walk (t : FileTree) (p : Path) : List Path :=
  match t.locate p with
  | .ok folder => (t.entries folder).map fun place => place.foldl Path.join p
  | .error _ => []

/-! ## Writing -/

/-- Puts a file in the place of one that may be there. -/
def putAt (place : Location) (bytes : Bytes) : List (Location × Bytes) → List (Location × Bytes)
  | [] => [(place, bytes)]
  | (p, b) :: rest =>
    if p = place then (place, bytes) :: rest else (p, b) :: putAt place bytes rest

def write (t : FileTree) (p : Path) (bytes : Bytes) : Except FileError FileTree := do
  let place ← t.locate p
  if t.isFolderAt place then .error .isFolder
  else .ok { t with files := putAt place bytes t.files }

/-- Makes the folders that the parts of a path name on the way from a location. -/
def makeFrom (t : FileTree) (place : Location) : List String → Except FileError FileTree
  | [] => .ok t
  | part :: rest =>
    if Path.isIdle part then t.makeFrom place rest
    else if part == ".." then t.makeFrom (around place) rest
    else
      let inner := place ++ [part]
      if t.isFolderAt inner then t.makeFrom inner rest
      else if (t.fileAt? inner).isSome then
        .error (if rest.all (· == "") then .exists else .notFolder)
      else makeFrom { t with made := t.made ++ [inner] } inner rest

/-- Makes a folder and those around it, unless they are there. -/
def makeFolder (t : FileTree) (p : Path) : Except FileError FileTree :=
  t.makeFrom (if p.isAbsolute then [] else t.current) p.parts

/-! ## Laws -/

/-- **A written file reads back.** -/
theorem lookup_putAt_self (place : Location) (bytes : Bytes) (files : List (Location × Bytes)) :
    (putAt place bytes files).lookup place = some bytes := by
  induction files with
  | nil => simp [putAt]
  | cons file rest ih =>
    obtain ⟨p, b⟩ := file
    by_cases h : p = place
    · simp [putAt, h]
    · have hne : (place == p) = false := beq_false_of_ne fun e => h e.symm
      simp [putAt, h, List.lookup_cons, hne, ih]

/-- **Writing leaves all other files alone.** -/
theorem lookup_putAt_of_ne {place other : Location} (h : other ≠ place) (bytes : Bytes)
    (files : List (Location × Bytes)) :
    (putAt place bytes files).lookup other = files.lookup other := by
  induction files with
  | nil =>
    have hne : (other == place) = false := beq_false_of_ne h
    simp [putAt, List.lookup_cons, hne]
  | cons file rest ih =>
    obtain ⟨p, b⟩ := file
    by_cases hp : p = place
    · have hne : (other == place) = false := beq_false_of_ne h
      subst hp
      simp [putAt, List.lookup_cons, hne]
    · simp [putAt, hp, List.lookup_cons, ih]

end FileTree

end Artboard
