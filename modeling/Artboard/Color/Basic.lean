import Artboard.Number.Exact
import Artboard.Text.Ascii
import Artboard.Text.Blank
import Artboard.Text.Utf8

/-!
# Colours

A colour has channels between 0 and 1, as the design tool reports them; the numbers themselves
are not restricted. Reports and class names work with the three 8-bit channels (`Rgba.bytes`).

**Distance** (`Channels.distance`) is the squared Euclidean distance of the 8-bit channels.

**Luminance and contrast** follow the WCAG.

**Hexadecimal colours** (`Rgba.ofHex?`) are three or six digits behind any number of `#`, blanks
around them not counting.
-/

namespace Artboard

open Number

/-- The red, green and blue of a colour in 8 bits each. -/
structure Channels where
  red : Nat
  green : Nat
  blue : Nat
deriving Repr, DecidableEq

namespace Channels

def toList (c : Channels) : List Nat := [c.red, c.green, c.blue]

/-- The square of the difference. -/
def squaredGap (x y : Nat) : Nat :=
  let gap := ((x : Int) - y).natAbs
  gap * gap

def distance (a b : Channels) : Nat :=
  squaredGap a.red b.red + squaredGap a.green b.green + squaredGap a.blue b.blue

/-- `#` and two small hexadecimal digits for each channel. -/
def hexChars (c : Channels) : List Char :=
  '#' :: c.toList.flatMap fun n => [Text.hexDigit (n / 16), Text.hexDigit (n % 16)]

def hex (c : Channels) : String := String.ofList c.hexChars

/-- The same with capital digits. -/
def capitalHex (c : Channels) : String := Text.asciiCapital c.hex

end Channels

/-- A colour with its opacity. -/
structure Rgba where
  red : Float
  green : Float
  blue : Float
  alpha : Float := 1
deriving Repr, DecidableEq

namespace Rgba

def black : Rgba := ⟨0, 0, 0, 1⟩

def white : Rgba := ⟨1, 1, 1, 1⟩

/-- Whether all channels compare equal as numbers. -/
def equal (a b : Rgba) : Bool :=
  a.red == b.red && a.green == b.green && a.blue == b.blue && a.alpha == b.alpha

/-- The byte `shift` bits up in a packed colour, as a channel. -/
def packedChannel (packed shift : Nat) : Float := Float.ofNat (packed / Nat.pow 2 shift % 256) / 255

/-- The opaque colour packed as `0xRRGGBB`. -/
def ofPacked (packed : Nat) : Rgba :=
  ⟨packedChannel packed 16, packedChannel packed 8, packedChannel packed 0, 1⟩

/-- The colour with its opacity scaled. -/
def fade (c : Rgba) (opacity : Float) : Rgba := { c with alpha := c.alpha * opacity }

def channelByte (x : Float) : Nat := toByte (roundAway (clamp x 0 1 * 255))

/-- The colour in 8-bit channels, without its opacity. -/
def bytes (c : Rgba) : Channels := ⟨channelByte c.red, channelByte c.green, channelByte c.blue⟩

/-- `#rrggbb`. -/
def hex (c : Rgba) : String := c.bytes.hex

def isOpaque (c : Rgba) : Bool := 1 ≤ c.alpha

/-- The opacity as a whole percentage within 0 and 100. -/
def alphaPercent (c : Rgba) : Nat := toWord (roundAway (clamp c.alpha 0 1 * 100))

def distance (a b : Rgba) : Nat := a.bytes.distance b.bytes

/-! ## Contrast -/

/-- The light a channel emits, by the WCAG. -/
def linear (x : Float) : Float :=
  let x := clamp x 0 1
  if x ≤ 0.03928 then x / 12.92 else Float.pow ((x + 0.055) / 1.055) 2.4

/-- Relative luminance by the WCAG. -/
def luminance (c : Rgba) : Float :=
  0.2126 * linear c.red + 0.7152 * linear c.green + 0.0722 * linear c.blue

/-- Contrast ratio by the WCAG, between 1 and 21. -/
def contrast (a b : Rgba) : Float :=
  let x := a.luminance
  let y := b.luminance
  if y ≤ x then (x + 0.05) / (y + 0.05) else (y + 0.05) / (x + 0.05)

/-! ## Hexadecimal colours -/

/-- The number that hexadecimal digits stand for. -/
def hexNumber? (cs : List Char) : Option Nat :=
  cs.foldlM (fun n c => (Text.hexValue? c).map (16 * n + ·)) 0

/-- Digits as the hexadecimal form accepts them: a sign in front counts as a digit of the length,
but stands for nothing. -/
def signedHexNumber? : List Char → Option Nat
  | '+' :: cs => if cs.isEmpty then none else hexNumber? cs
  | cs => hexNumber? cs

/-- The colour written as `#rgb` or `#rrggbb`. The length is counted in bytes. -/
def ofHexChars? (cs : List Char) : Option Rgba :=
  let ds := (Text.trim cs).dropWhile (· == '#')
  match (String.ofList ds).utf8ByteSize with
  | 3 => (signedHexNumber? (ds.flatMap fun c => [c, c])).map ofPacked
  | 6 => (signedHexNumber? ds).map ofPacked
  | _ => none

def ofHex? (s : String) : Option Rgba := ofHexChars? s.toList

end Rgba

end Artboard
