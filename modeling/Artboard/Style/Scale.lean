import Artboard.Geometry.Snap
import Artboard.Number.Decimal
import Artboard.Settings.Basic

/-!
# Scales of lengths, radii, font sizes and opacities

Each scale lists the values that have a key of their own. With rounding on, a value takes the key
of the entry it snaps onto; any other value is written out between brackets.
-/

namespace Artboard.Scale

/-! ## Tables -/

/-- Pixels and spacing keys. -/
def spacings : List (Float × String) :=
  [(0, "0"), (1, "px"), (2, "0.5"), (4, "1"), (6, "1.5"), (8, "2"), (10, "2.5"), (12, "3"),
   (14, "3.5"), (16, "4"), (20, "5"), (24, "6"), (28, "7"), (32, "8"), (36, "9"), (40, "10"),
   (44, "11"), (48, "12"), (56, "14"), (64, "16"), (80, "20"), (96, "24"), (112, "28"),
   (128, "32"), (144, "36"), (160, "40"), (176, "44"), (192, "48"), (208, "52"), (224, "56"),
   (240, "60"), (256, "64"), (288, "72"), (320, "80"), (384, "96")]

/-- Pixels and classes of corner radii. -/
def radii : List (Float × String) :=
  [(2, "rounded-sm"), (4, "rounded"), (6, "rounded-md"), (8, "rounded-lg"), (12, "rounded-xl"),
   (16, "rounded-2xl"), (24, "rounded-3xl")]

/-- Pixels at a base size of 16 and font size keys. -/
def fontSizes : List (Float × String) :=
  [(12, "xs"), (14, "sm"), (16, "base"), (18, "lg"), (20, "xl"), (24, "2xl"), (30, "3xl"),
   (36, "4xl"), (48, "5xl"), (60, "6xl"), (72, "7xl"), (96, "8xl"), (128, "9xl")]

/-- Per cent and opacity keys. -/
def opacities : List (Float × String) :=
  [(0, "0"), (5, "5"), (10, "10"), (15, "15"), (20, "20"), (25, "25"), (30, "30"), (40, "40"),
   (50, "50"), (60, "60"), (70, "70"), (75, "75"), (80, "80"), (90, "90"), (95, "95"),
   (100, "100")]

/-! ## Keys -/

/-- The spacing key of a length. Zero is always `0`, and negative lengths are never rounded. -/
def spacing (settings : Settings) (x : Float) : String :=
  let written := s!"[{Number.pixels x}]"
  if x == 0 then "0"
  else if settings.rounding.values && 0 < x then
    (snap x spacings settings.rounding.threshold).getD written
  else written

/-- The spacing key behind the name of what it measures: `w-24`, `pl-[13px]`. -/
def spacingClass (settings : Settings) (measured : String) (x : Float) : String :=
  s!"{measured}-{spacing settings x}"

/-- The class of a radius common to all corners. -/
def radiusClass (settings : Settings) (x : Float) : String :=
  let written := s!"rounded-[{Number.pixels x}]"
  if settings.rounding.values then
    (snap x radii settings.rounding.threshold).getD written
  else written

/-- The scale of font sizes for the base size of the settings. -/
def stretchedFontSizes (settings : Settings) : List (Float × String) :=
  let factor := settings.fontSize / 16
  fontSizes.map fun (x, key) => (x * factor, key)

def fontSizeClass (settings : Settings) (x : Float) : String :=
  let written := s!"text-[{Number.pixels x}]"
  if settings.rounding.values then
    match snap x (stretchedFontSizes settings) settings.rounding.threshold with
    | some key => s!"text-{key}"
    | none => written
  else written

/-- The class of an opacity, where 1 is opaque. Without rounding only exact percentages have a
key. -/
def opacityClass (settings : Settings) (x : Float) : String :=
  let threshold := if settings.rounding.values then settings.rounding.threshold else 0
  match snap (x * 100) opacities threshold with
  | some key => s!"opacity-{key}"
  | none => s!"opacity-[{Number.short x}]"

end Artboard.Scale
