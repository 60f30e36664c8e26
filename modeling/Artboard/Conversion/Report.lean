import Artboard.Conversion.Emit

/-!
# Reports

Next to the code, a conversion reports the colours of the selection and the styles of its text.

**Colours.** Every solid colour of fills, strokes, gradient stops and text runs counts, except on
layers that are ignored or instructions. Colours with the same class are reported once, for the
first of them, and the report is sorted by their hexadecimal form.
-/

namespace Artboard

/-- A colour of a selection. -/
structure ColorEntry where
  /-- With capital digits. -/
  hex : String
  /-- The nearest palette entry. -/
  name : String
  /-- The colour part of its classes. -/
  token : String
  contrastWhite : Float
  contrastBlack : Float
deriving Repr, DecidableEq

namespace ColorEntry

def ofFill (settings : Settings) (fill : SolidFill) : ColorEntry :=
  let color := fill.color
  { hex := color.bytes.capitalHex
    name := color.named.name
    token := fill.text settings
    contrastWhite := Number.roundHundredths (color.contrast .white)
    contrastBlack := Number.roundHundredths (color.contrast .black) }

/-- Keeps the first of the entries with the same class. -/
def firstOnly : List ColorEntry → List ColorEntry → List ColorEntry
  | seen, [] => seen.reverse
  | seen, entry :: rest =>
    if (seen.map (·.token)).contains entry.token then firstOnly seen rest
    else firstOnly (entry :: seen) rest

/-- Puts an entry into a list sorted by hexadecimal forms, in front of equal ones. -/
def insertByHex (entry : ColorEntry) : List ColorEntry → List ColorEntry
  | [] => [entry]
  | e :: rest => if entry.hex ≤ e.hex then entry :: e :: rest else e :: insertByHex entry rest

/-- The entries sorted by hexadecimal forms; equal ones stay in order. -/
def sortByHex (entries : List ColorEntry) : List ColorEntry := entries.foldr insertByHex []

end ColorEntry

/-- The colours of a text, run by run. -/
def TextContent.colors (content : TextContent) : List SolidFill :=
  content.runs.filterMap fun run => run.style.color

namespace Item

/-- The colours of an item. -/
def colors (item : Item) : List SolidFill :=
  if item.tag.isSuppressed then []
  else
    (item.fills ++ item.strokes).flatMap Fill.colors ++
      (match item.kind with
        | .text content => content.colors
        | _ => [])

end Item

/-- The colours of some trees. -/
def colorReport (settings : Settings) (roots : List Node) : List ColorEntry :=
  let fills := (Node.itemsOfAll roots).flatMap Item.colors
  ColorEntry.sortByHex (ColorEntry.firstOnly [] (fills.map (ColorEntry.ofFill settings)))

/-! ## Text styles -/

namespace TextStyle

/-- The text on one line, and a class on each line below. -/
def render (t : TextStyle) : String :=
  let text := Text.trim (t.text.toList.map fun c => if c = '\n' then ' ' else c)
  "\n".intercalate (("// " ++ String.ofList text) :: t.classes)

/-- Entries between lines of hyphens. -/
def renderAll (styles : List TextStyle) : String := "\n---\n".intercalate (styles.map render)

end TextStyle

end Artboard
