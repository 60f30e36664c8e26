import Artboard.Conversion.Compile
import Artboard.Json.Print
import Artboard.Settings.Document

/-!
# Conversions as text

A whole conversion, or only its colours, as a JSON document; and the colours as lines of a table.
-/

namespace Artboard

/-! ## Documents -/

namespace ColorEntry

def toJson (e : ColorEntry) : Json :=
  .object [("hex", .text e.hex), ("name", .text e.name), ("token", .text e.token),
    ("contrastWhite", .ofReal e.contrastWhite), ("contrastBlack", .ofReal e.contrastBlack)]

end ColorEntry

def TextStyle.toJson (t : TextStyle) : Json :=
  .object [("text", .text t.text), ("classes", .list (t.classes.map .text))]

def Preview.toJson (p : Preview) : Json :=
  .object [
    ("size", .object [("width", .ofReal p.width), ("height", .ofReal p.height)]),
    ("content", .text p.content)]

def Conversion.toJson (c : Conversion) : Json :=
  .object <| [
    ("code", .text c.code),
    ("preview", c.preview.toJson),
    ("warnings", .list (c.warnings.map .text)),
    ("colors", .list (c.colors.map ColorEntry.toJson)),
    ("textStyles", .list (c.textStyles.map TextStyle.toJson))] ++
    (match c.trigger with
      | some trigger => [("triggerType", .text trigger)]
      | none => [])

/-! ## Tables -/

/-- The text with blanks behind it, up to a width. -/
def padEnd (width : Nat) (s : String) : String :=
  s ++ String.ofList (List.replicate (width - s.length) ' ')

/-- The text with blanks before it, up to a width. -/
def padStart (width : Nat) (s : String) : String :=
  String.ofList (List.replicate (width - s.length) ' ') ++ s

/-- A contrast ratio with two decimals. -/
def contrastText (x : Float) : String := padStart 5 (Number.fixed 2 x)

/-- The colour as a line, behind a swatch that stays blank. -/
def ColorEntry.line (e : ColorEntry) : String :=
  s!"     {e.hex} {padEnd 24 e.token} {padEnd 16 e.name} " ++
    s!"{contrastText e.contrastWhite} on white  {contrastText e.contrastBlack} on black"

end Artboard
