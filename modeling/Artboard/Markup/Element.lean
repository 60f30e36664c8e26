import Artboard.Markup.Escape
import Artboard.Text.Blank

/-!
# Elements as text

An element is written on a line of its own: a start tag with attributes, the content, and an end
tag. What is inside an element is indented by two blanks. An element without content closes
itself in JSX; in HTML only the void elements do.
-/

namespace Artboard.Markup

/-! ## Attributes -/

inductive AttrValue where
  /-- A quoted string. -/
  | text (value : String)
  /-- An expression between braces in JSX, and a quoted string in HTML. -/
  | expr (value : String)
  /-- A name without a value. -/
  | flag
deriving Repr, DecidableEq

abbrev Attribute := String × AttrValue

def quoted (name value : String) : List Char :=
  ' ' :: name.toList ++ "=\"".toList ++ escapeAttribute value.toList ++ ['"']

def renderAttribute (mode : Mode) : Attribute → List Char
  | (name, .text s) => quoted name s
  | (name, .expr s) =>
    match mode with
    | .jsx => ' ' :: name.toList ++ "=\x7b".toList ++ s.toList ++ ['\x7d']
    | .html => quoted name s
  | (name, .flag) => ' ' :: name.toList

/-! ## Classes and declarations -/

/-- The name without hyphens, a letter behind one being a capital; `raised` says whether a hyphen
came just before. -/
def camelCaseAfter (raised : Bool) : List Char → List Char
  | [] => []
  | '-' :: rest => camelCaseAfter true rest
  | c :: rest => (if raised then c.toUpper else c) :: camelCaseAfter false rest

/-- The name of a style property in JSX: `background-image` is `backgroundImage`. -/
def camelCase (property : List Char) : List Char := camelCaseAfter false property

/-- The value of the style attribute. -/
def styleValue (mode : Mode) (declarations : List (String × String)) : AttrValue :=
  match mode with
  | .jsx =>
    let parts := declarations.map fun (property, value) =>
      String.ofList (camelCase property.toList) ++ ": \"" ++ value ++ "\""
    .expr ("\x7b" ++ ", ".intercalate parts ++ "\x7d")
  | .html => .text ("; ".intercalate (declarations.map fun (property, value) =>
      property ++ ": " ++ value))

/-- The name of the class attribute. -/
def className : Mode → String
  | .jsx => "className"
  | .html => "class"

/-- The class and style attributes, each only if there is something in it. -/
def styleAttributes (mode : Mode) (classes : List String) (declarations : List (String × String)) :
    List Attribute :=
  (if classes.isEmpty then [] else [(className mode, .text (" ".intercalate classes))]) ++
    (if declarations.isEmpty then [] else [("style", styleValue mode declarations)])

/-! ## Elements -/

/-- What is inside an element, as text. -/
inductive Body where
  | empty
  /-- Text on the line of the tags. -/
  | inline (text : List Char)
  /-- Lines that begin with a line feed. -/
  | children (text : List Char)
  /-- Preformatted text, whose blank lines are left out. -/
  | block (text : List Char)
deriving Repr, DecidableEq

/-- The HTML elements without an end tag. -/
def voidTags : List String :=
  ["img", "input", "br", "hr", "meta", "link", "area", "base", "col", "embed", "param", "source",
    "track", "wbr"]

/-- Whether an element without content closes itself. -/
def isSelfClosing (mode : Mode) (tag : String) : Bool := mode.isJsx || voidTags.contains tag

def endTag (tag : String) : List Char := "</".toList ++ tag.toList ++ ['>']

/-- The lines of preformatted text that are not blank, each behind a line feed. -/
def blockLines (text : List Char) : List Char :=
  ((Text.lines text).filter fun line => !Text.allBlank line).flatMap ('\n' :: ·)

/-- What follows the name and the attributes of an element. -/
def renderBody (mode : Mode) (tag : String) : Body → List Char
  | .empty => if isSelfClosing mode tag then " />".toList else '>' :: endTag tag
  | .inline text => '>' :: text ++ endTag tag
  | .children text => '>' :: indent text ++ '\n' :: endTag tag
  | .block text => '>' :: indent (blockLines text) ++ '\n' :: endTag tag

def renderAttributes (mode : Mode) (attributes : List Attribute) : List Char :=
  attributes.flatMap (renderAttribute mode)

/-- An element from its end tag's name, its attributes in order, and what is inside. -/
def renderElement (mode : Mode) (tag : String) (attributes : List Attribute) (body : Body) :
    List Char :=
  "\n<".toList ++ tag.toList ++ renderAttributes mode attributes ++ renderBody mode tag body

end Artboard.Markup
