import Artboard.Json.Basic
import Artboard.Number.Decimal
import Artboard.Text.Utf8

/-!
# Writing JSON text

`pretty` puts each item and each member on a line of its own, two spaces deeper than its list or
object; empty lists and objects stay on one line. `compact` writes no blanks at all.

Inside strings the quote, the backslash and the control characters are escaped, the latter by a
letter where they have one; all other characters are written as they are.
-/

namespace Artboard.Json

/-- A control character by its number. -/
def unitEscape (n : Nat) : List Char :=
  "\\u00".toList ++ [Text.hexDigit (n / 16), Text.hexDigit (n % 16)]

def escapeChar (c : Char) : List Char :=
  match c with
  | '"' => "\\\"".toList
  | '\\' => "\\\\".toList
  | '\x08' => "\\b".toList
  | '\x0c' => "\\f".toList
  | '\n' => "\\n".toList
  | '\r' => "\\r".toList
  | '\t' => "\\t".toList
  | c => if c.toNat < 0x20 then unitEscape c.toNat else [c]

/-- A string between quotes. -/
def quote (s : String) : String :=
  String.ofList ('"' :: (s.toList.flatMap escapeChar ++ ['"']))

/-- How the parts of a list or object are set apart: on lines of their own, or not at all. -/
inductive Layout where
  | lines (depth : Nat)
  | dense

namespace Layout

/-- One level deeper. -/
def deeper : Layout → Layout
  | .lines depth => .lines (depth + 1)
  | .dense => .dense

/-- What stands in front of a part. -/
def lead : Layout → String
  | .lines depth => "\n" ++ String.ofList (List.replicate (2 * depth) ' ')
  | .dense => ""

/-- What stands between a key and its value. -/
def colon : Layout → String
  | .lines _ => ": "
  | .dense => ":"

/-- Parts between brackets. -/
def enclose (layout : Layout) (left right : String) (parts : List String) : String :=
  if parts.isEmpty then left ++ right
  else left ++ ",".intercalate (parts.map (layout.deeper.lead ++ ·)) ++ layout.lead ++ right

end Layout

mutual

def write (layout : Layout) : Json → String
  | .null | .unreadable => "null"
  | .bool b => if b then "true" else "false"
  | .whole n => toString n
  | .real x => Number.literal x
  | .text s => quote s
  | .list items => layout.enclose "[" "]" (writeItems layout.deeper items)
  | .object members => layout.enclose "\x7b" "\x7d" (writeMembers layout.deeper members)

def writeItems (layout : Layout) : List Json → List String
  | [] => []
  | j :: rest => j.write layout :: writeItems layout rest

def writeMembers (layout : Layout) : List (String × Json) → List String
  | [] => []
  | (key, j) :: rest =>
    (quote key ++ layout.colon ++ j.write layout) :: writeMembers layout rest

end

/-- The value over several lines. -/
def pretty (j : Json) : String := j.write (.lines 0)

/-- The value on one line without blanks. -/
def compact (j : Json) : String := j.write .dense

end Artboard.Json
