import Artboard.Number.Decimal
import Artboard.Text.Utf8

/-!
# Assets

An asset is an exported bitmap or vector. In markup it appears as the address it was uploaded to,
as a data URI with its bytes in Base64, or as a placeholder image of the same size.
-/

namespace Artboard

open Text (Bytes)

inductive AssetKind where
  | png
  | svg
deriving Repr, DecidableEq

namespace AssetKind

/-- The file extension. -/
def extension : AssetKind → String
  | .png => "png"
  | .svg => "svg"

/-- The media type. -/
def contentType : AssetKind → String
  | .png => "image/png"
  | .svg => "image/svg+xml"

end AssetKind

/-! ## Base64 -/

namespace Base64

/-- The character for a number below 64. -/
def symbol (n : Nat) : Char :=
  if n < 26 then Char.ofNat (0x41 + n)
  else if n < 52 then Char.ofNat (0x61 + n - 26)
  else if n < 62 then Char.ofNat (0x30 + n - 52)
  else if n == 62 then '+' else '/'

/-- Four symbols for three bytes; `=` fills up the last group. -/
def encode : Bytes → List Char
  | a :: b :: c :: rest =>
    let n := (a.toNat * 256 + b.toNat) * 256 + c.toNat
    symbol (n / 0x40000) :: symbol (n / 0x1000 % 64) :: symbol (n / 0x40 % 64) :: symbol (n % 64)
      :: encode rest
  | [a, b] =>
    let n := a.toNat * 256 + b.toNat
    [symbol (n / 0x400), symbol (n / 0x10 % 64), symbol (n % 16 * 4), '=']
  | [a] => [symbol (a.toNat / 4), symbol (a.toNat % 4 * 16), '=', '=']
  | [] => []

end Base64

/-! ## Addresses -/

/-- The bytes as an address of their own. -/
def dataUri (bytes : Bytes) (kind : AssetKind) : String :=
  s!"data:{kind.contentType};base64," ++ String.ofList (Base64.encode bytes)

/-- The server of placeholder images. -/
def placeholderHost : String := "https://placehold.co"

/-- A side of a placeholder image in whole pixels. -/
def placeholderSide (x : Float) : String :=
  Number.fixed 0 (Number.roundAway (Number.greatest x 0))

/-- The placeholder for a box. A negative height stands for the width. -/
def placeholderUrl (width height : Float) : String :=
  let height := if height < 0 then width else height
  s!"{placeholderHost}/{placeholderSide width}x{placeholderSide height}"

end Artboard
