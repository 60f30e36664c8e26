/-!
# Text as bytes

`encode` gives the UTF-8 bytes of a string. Reading back is either strict (`decode?`) or lossy
(`decodeLossy`): every ill-formed stretch becomes one replacement character, a stretch being the
longest start of a character that was not completed, or a single byte that starts none.

`hex` writes bytes as pairs of small hexadecimal digits.
-/

namespace Artboard.Text

/-- Raw bytes. -/
abbrev Bytes := List UInt8

def encode (s : String) : Bytes := s.toList.flatMap String.utf8EncodeChar

/-! ## Reading -/

/-- The range of the second byte of a character, and how many bytes follow the first. -/
def continuation (first : Nat) : Option (Nat × Nat × Nat) :=
  if 0xC2 ≤ first && first ≤ 0xDF then some (0x80, 0xBF, 1)
  else if first == 0xE0 then some (0xA0, 0xBF, 2)
  else if first == 0xED then some (0x80, 0x9F, 2)
  else if 0xE1 ≤ first && first ≤ 0xEF then some (0x80, 0xBF, 2)
  else if first == 0xF0 then some (0x90, 0xBF, 3)
  else if 0xF1 ≤ first && first ≤ 0xF3 then some (0x80, 0xBF, 3)
  else if first == 0xF4 then some (0x80, 0x8F, 3)
  else none

/-- Reads the `count` bytes that must follow, the next one between `low` and `high` and later ones
between `0x80` and `0xBF`. Gives the code point, or nothing for an ill-formed stretch, and how
many bytes were taken. -/
def takeContinuation (code : Nat) (low high : Nat) : Nat → Bytes → Option Nat × Nat
  | 0, _ => (some code, 0)
  | _ + 1, [] => (none, 0)
  | count + 1, b :: bs =>
    if low ≤ b.toNat && b.toNat ≤ high then
      let (result, taken) := takeContinuation (code * 64 + b.toNat % 64) 0x80 0xBF count bs
      (result, taken + 1)
    else (none, 0)

/-- The first character, or nothing for an ill-formed stretch, and how many bytes follow the first
one in it. -/
def firstChar (b : UInt8) (bs : Bytes) : Option Char × Nat :=
  let n := b.toNat
  if n < 0x80 then (some (Char.ofNat n), 0)
  else match continuation n with
    | none => (none, 0)
    | some (low, high, count) =>
      let lead := n % (if count == 1 then 32 else if count == 2 then 16 else 8)
      let (code, taken) := takeContinuation lead low high count bs
      (code.map Char.ofNat, taken)

/-- The characters behind the first `taken` bytes. -/
def charsAfter (taken : Nat) : Bytes → List (Option Char)
  | [] => []
  | b :: bs =>
    match taken with
    | taken + 1 => charsAfter taken bs
    | 0 => (firstChar b bs).1 :: charsAfter (firstChar b bs).2 bs

/-- The characters in order, with nothing in place of an ill-formed stretch. -/
def chars (bytes : Bytes) : List (Option Char) := charsAfter 0 bytes

/-- The text of well-formed bytes. -/
def decode? (bytes : Bytes) : Option String :=
  ((chars bytes).mapM id).map String.ofList

/-- The text of any bytes, ill-formed stretches replaced. -/
def decodeLossy (bytes : Bytes) : String :=
  String.ofList ((chars bytes).map fun c => c.getD '\uFFFD')

/-! ## Hexadecimal digits -/

/-- The small hexadecimal digit of a number below 16. -/
def hexDigit (n : Nat) : Char :=
  if n < 10 then Char.ofNat (0x30 + n) else Char.ofNat (0x57 + n)

/-- The value of a hexadecimal digit of either case. -/
def hexValue? (c : Char) : Option Nat :=
  let n := c.toNat
  if 0x30 ≤ n && n ≤ 0x39 then some (n - 0x30)
  else if 0x61 ≤ n && n ≤ 0x66 then some (n - 0x57)
  else if 0x41 ≤ n && n ≤ 0x46 then some (n - 0x37)
  else none

def byteHex (b : UInt8) : List Char := [hexDigit (b.toNat / 16), hexDigit (b.toNat % 16)]

/-- Two small hexadecimal digits for each byte. -/
def hex (bytes : Bytes) : String := String.ofList (bytes.flatMap byteHex)

/-- The bytes that hexadecimal digits stand for. -/
def unhex? : List Char → Option Bytes
  | [] => some []
  | [_] => none
  | a :: b :: rest => do
    let high ← hexValue? a
    let low ← hexValue? b
    let bytes ← unhex? rest
    return UInt8.ofNat (16 * high + low) :: bytes

/-- **A digit reads back as its value.** -/
theorem hexValue?_hexDigit {n : Nat} (h : n < 16) : hexValue? (hexDigit n) = some n := by
  have all : ∀ m : Fin 16, hexValue? (hexDigit m) = some m.val := by decide
  exact all ⟨n, h⟩

/-- **Bytes read back from their hexadecimal text.** -/
theorem unhex?_hex (bytes : Bytes) : unhex? (hex bytes).toList = some bytes := by
  induction bytes with
  | nil => rfl
  | cons b bs ih =>
    have hb := b.toNat_lt
    have ih' : unhex? (bs.flatMap byteHex) = some bs := by simpa [hex] using ih
    have back : UInt8.ofNat (16 * (b.toNat / 16) + b.toNat % 16) = b := by
      rw [show 16 * (b.toNat / 16) + b.toNat % 16 = b.toNat by omega, UInt8.ofNat_toNat]
    simp [hex, byteHex, unhex?, hexValue?_hexDigit (n := b.toNat / 16) (by omega),
      hexValue?_hexDigit (n := b.toNat % 16) (by omega), ih', back, -UInt8.ofNat_add]

end Artboard.Text
