import Artboard.Text.Ascii
import Artboard.Text.Blank

/-!
# Tags in layer names

A layer name that starts with `#` carries a tag. The keyword is the first word of what stands
before the first `:`, in any mixture of capital and small letters; further words there do not
count. Arguments follow, separated by `:`.

- `#ignore`: the layer is not drawn.
- `#static`: the layer is drawn as one image.
- `#prompt make this a carousel`: an instruction, which may contain `:` itself.
- `#slot:img:hero`: a place to be filled, with its subtype and id.
- `#list:products`: a repeated container.
- `#canvas:chart`: a drawing surface.

Missing arguments are empty and surplus ones do not count. Any other keyword is a fault.
-/

namespace Artboard

/-- What fills a slot. -/
inductive SlotKind where
  | image
  | text
  | video
  | lottie
  | svga
  | unity
  | color
  | generic
deriving Repr, DecidableEq

namespace SlotKind

/-- The kind of a subtype, in small letters. -/
def ofWord (word : String) : SlotKind :=
  match word with
  | "img" | "image" => .image
  | "text" => .text
  | "video" => .video
  | "lottie" => .lottie
  | "svga" => .svga
  | "unity" => .unity
  | "color" => .color
  | _ => .generic

/-- The kind of a subtype as it was written. -/
def ofSubtype (subtype : String) : SlotKind := ofWord (Text.asciiSmall subtype)

/-- The end of a component's name, empty for a generic slot. -/
def suffix : SlotKind → String
  | .image => "Image"
  | .text => "Text"
  | .video => "Video"
  | .lottie => "Lottie"
  | .svga => "Svga"
  | .unity => "Unity"
  | .color => "Color"
  | .generic => ""

end SlotKind

inductive LayerTag where
  | none
  | ignore
  | prompt (instruction : String)
  | slot (kind : SlotKind) (subtype id : String)
  | list (id : String)
  | static
  | canvas (id : String)
deriving Repr, DecidableEq

/-- A keyword that is none of the tags, as it was written. -/
structure UnknownTag where
  keyword : String
deriving Repr, DecidableEq

namespace UnknownTag

def message (u : UnknownTag) : String := s!"Unknown tag '{u.keyword}'"

end UnknownTag

namespace LayerTag

def isPrompt : LayerTag → Bool
  | .prompt _ => true
  | _ => false

/-- Whether the layer is not drawn as an element: ignored layers and instructions. -/
def isSuppressed : LayerTag → Bool
  | .ignore | .prompt _ => true
  | _ => false

/-- The keyword of a trimmed name. -/
def keyword (name : List Char) : List Char :=
  (Text.words (name.takeWhile (· != ':'))).headD []

/-- The arguments of a trimmed name. -/
def arguments (name : List Char) : List String :=
  (Text.pieces (· == ':') name).tail.map fun piece => String.ofList (Text.trim piece)

/-- What follows the keyword of an instruction, without colons and blanks in front. -/
def instruction (keyword name : List Char) : String :=
  String.ofList (Text.trim ((name.drop keyword.length).dropWhile (· == ':')))

/-- The tag of a trimmed name that starts with `#`. -/
def ofTagged (name : List Char) : Except UnknownTag LayerTag :=
  let keyword := keyword name
  let argument (i : Nat) : String := (arguments name).getD i ""
  match String.ofList (keyword.map Char.toLower) with
  | "#ignore" => .ok .ignore
  | "#static" => .ok .static
  | "#prompt" => .ok (.prompt (instruction keyword name))
  | "#slot" => .ok (.slot (.ofSubtype (argument 0)) (argument 0) (argument 1))
  | "#list" => .ok (.list (argument 0))
  | "#canvas" => .ok (.canvas (argument 0))
  | _ => .error ⟨String.ofList keyword⟩

def ofChars (name : List Char) : Except UnknownTag LayerTag :=
  match Text.trim name with
  | '#' :: rest => ofTagged ('#' :: rest)
  | _ => .ok .none

/-- The tag of a layer name. -/
def ofName (name : String) : Except UnknownTag LayerTag := ofChars name.toList

end LayerTag

end Artboard
