import Artboard.Settings.Basic

/-!
# Escaping

User text enters markup in three places, each with an escape of its own: quoted attribute values,
text between tags, and comments. The first two replace characters by character references; a
comment cannot hold references, so its terminators are broken up by a blank.

Text is indented after it was escaped: two blanks follow every line feed for each element around
it.
-/

namespace Artboard.Markup

/-! ## Attribute values -/

def attributeChar (c : Char) : List Char :=
  match c with
  | '&' => "&amp;".toList
  | '<' => "&lt;".toList
  | '>' => "&gt;".toList
  | '"' => "&quot;".toList
  | '\'' => "&#39;".toList
  | c => [c]

/-- Text for a quoted attribute value. -/
def escapeAttribute (text : List Char) : List Char := text.flatMap attributeChar

/-! ## Text -/

def textChar (mode : Mode) (c : Char) : List Char :=
  match c with
  | '&' => "&amp;".toList
  | '<' => "&lt;".toList
  | '>' => "&gt;".toList
  | '\n' => "<br/>".toList
  | '\x7b' => if mode.isJsx then "&#123;".toList else [c]
  | '\x7d' => if mode.isJsx then "&#125;".toList else [c]
  | c => [c]

/-- Text for the inside of an element; line feeds become line breaks. -/
def escapeText (mode : Mode) (text : List Char) : List Char := text.flatMap (textChar mode)

/-! ## Comments -/

/-- The text with a blank inside each `*/`. -/
def breakStars : List Char → List Char
  | '*' :: '/' :: rest => '*' :: ' ' :: '/' :: breakStars rest
  | c :: rest => c :: breakStars rest
  | [] => []

/-- The text with a blank inside each `-->`. -/
def breakDashes : List Char → List Char
  | '-' :: '-' :: '>' :: rest => '-' :: '-' :: ' ' :: '>' :: breakDashes rest
  | c :: rest => c :: breakDashes rest
  | [] => []

/-- A comment on a line of its own. -/
def renderComment (mode : Mode) (text : List Char) : List Char :=
  match mode with
  | .jsx => "\n\x7b/* ".toList ++ breakStars text ++ " */\x7d".toList
  | .html => "\n<!-- ".toList ++ breakDashes text ++ " -->".toList

/-! ## Indentation -/

def indentChar (c : Char) : List Char := if c = '\n' then ['\n', ' ', ' '] else [c]

/-- Every line one level deeper. -/
def indent (text : List Char) : List Char := text.flatMap indentChar

end Artboard.Markup
