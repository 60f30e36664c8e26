import Artboard.Files.Path
import Artboard.Text.Ascii

/-!
# Command lines

A command line names a command and gives it switches and operands. A switch has a long name behind
two hyphens, and may have a letter behind one; letters can share a hyphen. Some switches take a
value: the next argument, or the rest of the same one, behind an equals sign if it has one. After
two hyphens alone, everything is an operand.

Arguments are read from left to right, and the first mistake or request for help ends the reading.
No switch may come twice, and no path may be empty.
-/

namespace Artboard

/-! ## Commands -/

/-- Where a selection and its settings come from. -/
structure Source where
  /-- A document, or a folder of documents. -/
  input : Path
  settings : Option Path := none
  /-- The flavour of the markup, whatever the settings say. -/
  mode : Option String := none
  /-- The folder with the exported images. -/
  assets : Option Path := none
deriving Repr, DecidableEq

/-- What is written of a conversion, and where. -/
structure OutputOptions where
  preview : Bool := false
  json : Bool := false
  /-- The folder for one file per document; without it everything is printed. -/
  folder : Option Path := none
deriving Repr, DecidableEq

inductive Command where
  | init (mode : Option String) (force : Bool)
  | compile (source : Source) (output : OutputOptions)
  | colors (source : Source) (json : Bool)
  | textStyles (source : Source)
deriving Repr, DecidableEq

/-- Why a command line runs no command. -/
inductive NoCommand where
  /-- It asks for help, or for the version. -/
  | help
  | misuse
deriving Repr, DecidableEq

/-! ## Switches -/

inductive SwitchKind where
  | flag
  | text
  | path
deriving Repr, DecidableEq

structure Switch where
  name : String
  letter : Option Char
  kind : SwitchKind
deriving Repr, DecidableEq

namespace Switch

def general : List Switch := [⟨"verbose", some 'v', .flag⟩, ⟨"help", some 'h', .flag⟩]

/-- The switches in front of a command. -/
def outer : List Switch := ⟨"version", some 'V', .flag⟩ :: general

def forInit : List Switch :=
  general ++ [⟨"mode", some 'm', .text⟩, ⟨"force", some 'f', .flag⟩]

def forSource : List Switch :=
  general ++
    [⟨"settings", some 's', .path⟩, ⟨"mode", some 'm', .text⟩, ⟨"assets-dir", none, .path⟩]

def forColors : List Switch := forSource ++ [⟨"json", none, .flag⟩]

def forCompile : List Switch :=
  forColors ++ [⟨"preview", none, .flag⟩, ⟨"out-dir", some 'o', .path⟩]

end Switch

/-! ## Reading arguments -/

/-- What the arguments so far have given. -/
structure Given where
  flags : List String := []
  values : List (String × String) := []
  operands : List String := []
deriving Repr, DecidableEq

namespace Given

def addFlag (g : Given) (name : String) : Except NoCommand Given :=
  if name == "help" || name == "version" then .error .help
  else if g.flags.contains name then .error .misuse
  else .ok { g with flags := name :: g.flags }

def addValue (g : Given) (s : Switch) (value : String) : Except NoCommand Given :=
  if (s.kind = .path && value.isEmpty) || (g.values.lookup s.name).isSome then .error .misuse
  else .ok { g with values := (s.name, value) :: g.values }

def addOperand (g : Given) (operand : String) : Given :=
  { g with operands := g.operands ++ [operand] }

def has (g : Given) (name : String) : Bool := g.flags.contains name

def value? (g : Given) (name : String) : Option String := g.values.lookup name

/-- Whether an argument is read as switches; a hyphen alone is not. -/
def isSwitch (arg : String) : Bool := Text.beginsWith '-' arg && arg != "-"

/-- Reads letters behind one hyphen. The switch that comes back waits for its value. -/
def readLetters (switches : List Switch) (g : Given) :
    List Char → Except NoCommand (Given × Option Switch)
  | [] => .ok (g, none)
  | c :: rest =>
    match switches.find? (·.letter == some c) with
    | none => .error .misuse
    | some s =>
      if s.kind = .flag then do readLetters switches (← g.addFlag s.name) rest
      else match rest with
        | [] => .ok (g, some s)
        | '=' :: value => (g.addValue s (String.ofList value)).map (·, none)
        | value => (g.addValue s (String.ofList value)).map (·, none)

/-- Reads a long name, and the value behind its equals sign. -/
def readName (switches : List Switch) (g : Given) (cs : List Char) :
    Except NoCommand (Given × Option Switch) :=
  let name := String.ofList (cs.takeWhile (· != '='))
  match switches.find? (·.name == name), cs.dropWhile (· != '=') with
  | none, _ => .error .misuse
  | some s, [] => if s.kind = .flag then (g.addFlag name).map (·, none) else .ok (g, some s)
  | some s, _ :: value =>
    if s.kind = .flag then .error .misuse
    else (g.addValue s (String.ofList value)).map (·, none)

/-- Reads one argument. -/
def readArgument (switches : List Switch) (g : Given) (arg : String) :
    Except NoCommand (Given × Option Switch) :=
  if !isSwitch arg then .ok (g.addOperand arg, none)
  else match arg.toList with
    | '-' :: '-' :: name => readName switches g name
    | cs => readLetters switches g cs.tail

/-- Reads all arguments behind a command; there may be so many operands. -/
def read (switches : List Switch) (operands : Nat) (g : Given) :
    List String → Except NoCommand Given
  | [] => .ok g
  | "--" :: rest =>
    if operands < g.operands.length + rest.length then .error .misuse
    else .ok (rest.foldl addOperand g)
  | arg :: rest => do
    let (g, waiting) ← readArgument switches g arg
    if operands < g.operands.length then .error .misuse
    else match waiting with
      | none => read switches operands g rest
      | some s =>
        match rest with
        | [] => .error .misuse
        | value :: rest =>
          if isSwitch value then .error .misuse
          else read switches operands (← g.addValue s value) rest

end Given

/-! ## Reading commands -/

namespace Command

/-- The source that the arguments name. -/
def sourceOf (g : Given) : Except NoCommand Source :=
  match g.operands with
  | [input] =>
    if input.isEmpty then .error .misuse
    else .ok ⟨input, g.value? "settings", g.value? "mode", g.value? "assets-dir"⟩
  | _ => .error .misuse

/-- The command of a name, with its arguments. -/
def ofName (name : String) (args : List String) : Except NoCommand Command :=
  match name with
  | "init" => do
    let g ← Given.read Switch.forInit 0 {} args
    return .init (g.value? "mode") (g.has "force")
  | "compile" => do
    let g ← Given.read Switch.forCompile 1 {} args
    return .compile (← sourceOf g) ⟨g.has "preview", g.has "json", g.value? "out-dir"⟩
  | "colors" => do
    let g ← Given.read Switch.forColors 1 {} args
    return .colors (← sourceOf g) (g.has "json")
  | "text-styles" => do
    let g ← Given.read Switch.forSource 1 {} args
    return .textStyles (← sourceOf g)
  | "help" => .error .help
  | _ => .error .misuse

/-- Reads the arguments up to and behind the command. -/
def readFrom (g : Given) : List String → Except NoCommand Command
  | [] => .error .misuse
  | arg :: rest =>
    if !Given.isSwitch arg then ofName arg rest
    else do
      let (g, _) ← Given.readArgument Switch.outer g arg
      readFrom g rest

/-- The command of a command line. -/
def ofArguments (args : List String) : Except NoCommand Command := readFrom {} args

end Command

end Artboard
