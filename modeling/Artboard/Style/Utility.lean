import Artboard.Color.Palette
import Artboard.Markup.Tree
import Artboard.Style.Scale

/-!
# Utilities

A utility says one thing about how an element looks. It becomes a class whose text depends on the
settings: lengths and colours may be rounded, and every class gets the class prefix.

The style of an element is a list of utilities and a list of inline declarations. `Style.resolve`
turns it into classes; of equal classes only the first is kept.
-/

namespace Artboard

/-! ## Utilities -/

/-- Utilities without a value. -/
inductive Keyword where
  | absolute
  | relative
  | grow
  | fullWidth
  | fullHeight
  | flex
  | flexColumn
  | flexWrap
  | justifyCenter
  | justifyEnd
  | justifyBetween
  | itemsStart
  | itemsCenter
  | itemsEnd
  | itemsBaseline
  | clip
  | roundedFull
  | cover
  | textCenter
  | textRight
  | textJustify
  | italic
  | underline
  | lineThrough
  | uppercase
  | lowercase
  | capitalize
deriving Repr, DecidableEq

def Keyword.text : Keyword → String
  | .absolute => "absolute"
  | .relative => "relative"
  | .grow => "flex-1"
  | .fullWidth => "w-full"
  | .fullHeight => "h-full"
  | .flex => "flex"
  | .flexColumn => "flex-col"
  | .flexWrap => "flex-wrap"
  | .justifyCenter => "justify-center"
  | .justifyEnd => "justify-end"
  | .justifyBetween => "justify-between"
  | .itemsStart => "items-start"
  | .itemsCenter => "items-center"
  | .itemsEnd => "items-end"
  | .itemsBaseline => "items-baseline"
  | .clip => "overflow-hidden"
  | .roundedFull => "rounded-full"
  | .cover => "bg-cover"
  | .textCenter => "text-center"
  | .textRight => "text-right"
  | .textJustify => "text-justify"
  | .italic => "italic"
  | .underline => "underline"
  | .lineThrough => "line-through"
  | .uppercase => "uppercase"
  | .lowercase => "lowercase"
  | .capitalize => "capitalize"

inductive Edge where
  | left
  | top
deriving Repr, DecidableEq

def Edge.text : Edge → String
  | .left => "left"
  | .top => "top"

/-- What a length measures. -/
inductive Extent where
  | width
  | height
  | gap
  | padding
  | paddingX
  | paddingY
  | paddingTop
  | paddingRight
  | paddingBottom
  | paddingLeft
deriving Repr, DecidableEq

def Extent.text : Extent → String
  | .width => "w"
  | .height => "h"
  | .gap => "gap"
  | .padding => "p"
  | .paddingX => "px"
  | .paddingY => "py"
  | .paddingTop => "pt"
  | .paddingRight => "pr"
  | .paddingBottom => "pb"
  | .paddingLeft => "pl"

inductive Corner where
  | topLeft
  | topRight
  | bottomRight
  | bottomLeft
deriving Repr, DecidableEq

def Corner.text : Corner → String
  | .topLeft => "tl"
  | .topRight => "tr"
  | .bottomRight => "br"
  | .bottomLeft => "bl"

/-- What a colour paints. -/
inductive ColorRole where
  | background
  | gradientFrom
  | gradientVia
  | gradientTo
  | border
  | text
deriving Repr, DecidableEq

def ColorRole.word : ColorRole → String
  | .background => "bg"
  | .gradientFrom => "from"
  | .gradientVia => "via"
  | .gradientTo => "to"
  | .border => "border"
  | .text => "text"

/-- The side of a border: all around, or on top of a line. -/
inductive BorderSide where
  | all
  | top
deriving Repr, DecidableEq

def BorderSide.text : BorderSide → String
  | .all => "border"
  | .top => "border-t"

inductive Utility where
  | keyword (word : Keyword)
  | offset (edge : Edge) (coordinate : Coordinate)
  | length (extent : Extent) (pixels : Float)
  | radius (pixels : Float)
  | cornerRadius (corner : Corner) (pixels : Float)
  | opacity (opacity : Float)
  | rotation (degrees : Float)
  | color (role : ColorRole) (fill : SolidFill)
  | gradient (angle : Float)
  | backgroundImage (url : String)
  | border (side : BorderSide) (pixels : Float)
  | fontSize (pixels : Float)
  | fontWeight (weight : Nat)
  | fontKey (key : String)
  | fontFamily (family : String)
  | tracking (value : String)
  | leading (value : String)
deriving Repr, DecidableEq

/-! ## Colours -/

/-- The colour part of a class: a variable, a palette name or a hexadecimal colour, and the
opacity in per cent unless the colour is opaque. -/
def SolidFill.text (settings : Settings) (fill : SolidFill) : String :=
  let color := fill.color
  if color.alpha ≤ 0 then "transparent"
  else
    let base := match fill.token with
      | some token => token
      | none => if settings.rounding.colors then color.named.name else s!"[{color.hex}]"
    if color.isOpaque then base else s!"{base}/{color.alphaPercent}"

/-- The nearest of the eight directions of a gradient. -/
def gradientDirection (angle : Float) : String :=
  let eighth := ((Number.turn angle + 22.5) / 45).toUInt64.toNat % 8
  ["r", "br", "b", "bl", "l", "tl", "t", "tr"].getD eighth ""

/-! ## Text -/

/-- The width of a border: no number for one pixel, and keys for some whole numbers. -/
def borderText (side : BorderSide) (x : Float) : String :=
  if x == 1 then side.text
  else if x == 2 || x == 4 || x == 8 then s!"{side.text}-{Number.toWord x}"
  else s!"{side.text}-[{Number.pixels x}]"

def fontWeightText (weight : Nat) : String :=
  match weight with
  | 100 => "font-thin"
  | 200 => "font-extralight"
  | 300 => "font-light"
  | 500 => "font-medium"
  | 600 => "font-semibold"
  | 700 => "font-bold"
  | 800 => "font-extrabold"
  | 900 => "font-black"
  | weight => s!"font-[{weight}]"

/-- A font family as a class; blanks are written as underscores. -/
def fontFamilyText (family : String) : String :=
  "font-['" ++ String.ofList (family.toList.map fun c => if c = ' ' then '_' else c) ++ "']"

/-- The class of a utility without the class prefix. -/
def Utility.text (settings : Settings) : Utility → String
  | .keyword word => word.text
  | .offset edge coordinate => Scale.spacingClass settings edge.text coordinate.value
  | .length extent x => Scale.spacingClass settings extent.text x
  | .radius x => Scale.radiusClass settings x
  | .cornerRadius corner x => s!"rounded-{corner.text}-[{Number.pixels x}]"
  | .opacity x => Scale.opacityClass settings x
  | .rotation degrees => s!"rotate-[{Number.short degrees}deg]"
  | .color role fill => s!"{role.word}-{fill.text settings}"
  | .gradient angle => s!"bg-gradient-to-{gradientDirection angle}"
  | .backgroundImage url => s!"bg-[url({url})]"
  | .border side x => borderText side x
  | .fontSize x => Scale.fontSizeClass settings x
  | .fontWeight weight => fontWeightText weight
  | .fontKey key => s!"font-{key}"
  | .fontFamily family => fontFamilyText family
  | .tracking value => s!"tracking-[{value}]"
  | .leading value => s!"leading-[{value}]"

/-! ## Class lists -/

namespace ClassList

/-- Adds a class behind the class prefix, unless it is there already. Empty classes do not
count. -/
def add (classPrefix : String) (classes : List String) (text : String) : List String :=
  if text.isEmpty then classes
  else
    let c := classPrefix ++ text
    if classes.contains c then classes else classes ++ [c]

def ofTexts (classPrefix : String) (texts : List String) : List String :=
  texts.foldl (add classPrefix) []

end ClassList

/-! ## Styles -/

structure Style where
  utilities : List Utility := []
  declarations : List (String × String) := []
deriving Repr, DecidableEq

namespace Style

def ofUtilities (utilities : List Utility) : Style := { utilities }

def isEmpty (s : Style) : Bool := s.utilities.isEmpty && s.declarations.isEmpty

/-- The classes of the utilities. -/
def classes (settings : Settings) (s : Style) : List String :=
  ClassList.ofTexts settings.classPrefix (s.utilities.map (Utility.text settings))

def resolve (settings : Settings) (s : Style) : Markup.Classes :=
  ⟨s.classes settings, s.declarations⟩

end Style

end Artboard
