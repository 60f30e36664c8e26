import Artboard.Text.Utf8

/-!
# Text with a byte-order mark

The first bytes of a text may say how it is encoded: UTF-8, or UTF-16 with the high or the low byte
of each unit first. Text without a mark is UTF-8. The mark is not part of the text, and what is
ill-formed is replaced.
-/

namespace Artboard.Text

/-- The replacement character. -/
def replacement : Char := '\uFFFD'

inductive ByteOrder where
  | highFirst
  | lowFirst
deriving Repr, DecidableEq

/-- The 16-bit unit of two bytes. -/
def ByteOrder.unit (order : ByteOrder) (a b : UInt8) : Nat :=
  match order with
  | .highFirst => 256 * a.toNat + b.toNat
  | .lowFirst => 256 * b.toNat + a.toNat

/-- Reads 16-bit units; `half` is the first half of a surrogate pair that came just before. -/
def decodeUnits (order : ByteOrder) (half : Option Nat) : Bytes → List Char
  | a :: b :: rest =>
    let unit := order.unit a b
    let broken := if half.isSome then [replacement] else []
    if 0xD800 ≤ unit ∧ unit < 0xDC00 then broken ++ decodeUnits order (some unit) rest
    else if 0xDC00 ≤ unit ∧ unit < 0xE000 then
      match half with
      | some high =>
        Char.ofNat (0x10000 + (high - 0xD800) * 0x400 + (unit - 0xDC00)) ::
          decodeUnits order none rest
      | none => replacement :: decodeUnits order none rest
    else broken ++ Char.ofNat unit :: decodeUnits order none rest
  | [_] => [replacement]
  | [] => if half.isSome then [replacement] else []

/-- The text of bytes that may begin with a mark. -/
def decodeMarked (bytes : Bytes) : String :=
  match bytes with
  | 0xEF :: 0xBB :: 0xBF :: rest => decodeLossy rest
  | 0xFE :: 0xFF :: rest => String.ofList (decodeUnits .highFirst none rest)
  | 0xFF :: 0xFE :: rest => String.ofList (decodeUnits .lowFirst none rest)
  | bytes => decodeLossy bytes

end Artboard.Text
