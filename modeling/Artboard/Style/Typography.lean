import Artboard.Style.Utility
import Artboard.Text.Ascii
import Artboard.Text.Blank

/-!
# Text

Neighbouring runs of equal style form one segment. Equal styles with another run between them
stay apart.
-/

namespace Artboard

/-- Neighbouring characters of one style. -/
structure Segment where
  text : String
  style : RunStyle
deriving Repr, DecidableEq

namespace Segment

/-- Adds a run behind some segments, the last of which comes first. -/
def push (segments : List Segment) (run : TextRun) : List Segment :=
  match segments with
  | last :: rest =>
    if last.style.same run.style then { last with text := last.text ++ run.text } :: rest
    else ⟨run.text, run.style⟩ :: last :: rest
  | [] => [⟨run.text, run.style⟩]

/-- The segments of some runs. -/
def ofRuns (runs : List TextRun) : List Segment := (runs.foldl push []).reverse

/-- The element that a segment is wrapped in. -/
def wrapper (s : Segment) : String :=
  if s.style.subscript then "sub" else if s.style.superscript then "sup" else "span"

end Segment

namespace Style

/-! ## Alignment -/

def horizontalAlign : TextAlignHorizontal → List Utility
  | .left => []
  | .center => [.keyword .textCenter]
  | .right => [.keyword .textRight]
  | .justified => [.keyword .textJustify]

def verticalAlign : TextAlignVertical → List Utility
  | .top => []
  | .center => [.keyword .flex, .keyword .flexColumn, .keyword .justifyCenter]
  | .bottom => [.keyword .flex, .keyword .flexColumn, .keyword .justifyEnd]

def alignment (content : TextContent) : List Utility :=
  horizontalAlign content.alignHorizontal ++ verticalAlign content.alignVertical

/-! ## Runs -/

/-- The weight, unless it is the regular one. -/
def weight (w : Nat) : List Utility := if w = 400 then [] else [.fontWeight w]

/-- The key of the first configured list of families that has this one. -/
def familyKey? (settings : Settings) (family : String) : Option String :=
  (settings.fontFamilies.find? fun entry => entry.2.any (Text.sameLetters · family)).map (·.1)

/-- The family, unless it is the base family. -/
def family (settings : Settings) (name : String) : List Utility :=
  if Text.sameLetters name (Text.trimmed settings.baseFontFamily) then []
  else match familyKey? settings name with
    | some key => [.fontKey key]
    | none => [.fontFamily name]

def decoration : TextDecoration → List Utility
  | .none => []
  | .underline => [.keyword .underline]
  | .strikethrough => [.keyword .lineThrough]

def textCase : TextCase → List Utility
  | .upper => [.keyword .uppercase]
  | .lower => [.keyword .lowercase]
  | .title => [.keyword .capitalize]
  | .asTyped | .smallCaps | .smallCapsForced => []

def tracking (s : SpacingValue) : List Utility :=
  if s.value == 0 then []
  else match s.unit with
    | .pixels => [.tracking (Number.pixels s.value)]
    | .percent => [.tracking s!"{Number.short (s.value / 100)}em"]
    | .auto => []

def leading (s : SpacingValue) : List Utility :=
  if 0 < s.value then
    match s.unit with
    | .pixels => [.leading (Number.pixels s.value)]
    | .percent => [.leading (Number.short (s.value / 100))]
    | .auto => []
  else []

/-- What a value says if it is present. -/
def whenSome {α : Type} (f : α → List Utility) : Option α → List Utility
  | some a => f a
  | none => []

/-- The style of a run. -/
def run (settings : Settings) (s : RunStyle) : List Utility :=
  whenSome (fun x => [.fontSize x]) s.fontSize ++ whenSome weight s.fontWeight ++
    (if s.italic then [.keyword .italic] else []) ++ whenSome (family settings) s.fontFamily ++
    decoration s.decoration ++ textCase s.textCase ++ whenSome tracking s.letterSpacing ++
    whenSome leading s.lineHeight ++ whenSome (fun fill => [.color .text fill]) s.color

end Style

end Artboard
