/-!
# Doubles read exactly

A finite double is `± m · 2 ^ e` with natural `m`. The functions here read that form and compute
with whole numbers, so each result is exact or rounded once by a stated rule.

- `roundAway` goes to the nearest whole number, a half away from zero.
- `least` and `greatest` pass over an operand that is not a number; of two equal operands they
  give the first.
- `clamp` leaves alone what is not a number.
- `turn` brings an angle into one full turn; its remainder has no rounding error.
-/

namespace Artboard.Number

open Float.Model (UnpackedFloat)
open Float.Model.UnpackedFloat (Sign)

/-- The exact form of a double. -/
def exact (x : Float) : UnpackedFloat := x.toModel.unpack

/-- The double nearest to `± m · 2 ^ e`. -/
def nearest (s : Sign) (m : Nat) (e : Int) : Float :=
  .ofModel (.pack (UnpackedFloat.round .binary64 s m e))

/-- `x` with the sign `s`. -/
def withSign (s : Sign) (x : Float) : Float :=
  match s with
  | .negative => -x
  | .positive => x

/-- Nearest whole number, a half going away from zero. The sign stays, also on zero. -/
def roundAway (x : Float) : Float :=
  match exact x with
  | .finite s m e _ =>
    if 0 ≤ e then x
    else
      let unit := Nat.pow 2 (-e).toNat
      withSign s (Float.ofNat ((2 * m + unit) / (2 * unit)))
  | _ => x

/-- Two decimals, a half going away from zero. -/
def roundHundredths (x : Float) : Float := roundAway (x * 100) / 100

/-! ## Order -/

/-- The smaller operand, the first of equal ones, and never one that is not a number if the other
is. -/
def least (x y : Float) : Float :=
  if x.isNaN then y else if y < x then y else x

/-- The greater operand, by the same rules. -/
def greatest (x y : Float) : Float :=
  if x.isNaN then y else if x < y then y else x

/-- The nearest point of `low` to `high`. -/
def clamp (x low high : Float) : Float :=
  let x := if x < low then low else x
  if high < x then high else x

/-! ## Whole numbers -/

/-- The whole number below, zero for negative numbers and for what is not a number, and the
greatest byte for what is too large. -/
def toByte (x : Float) : Nat := x.toUInt8.toNat

/-- The same, up to the greatest 32-bit word. -/
def toWord (x : Float) : Nat := x.toUInt32.toNat

/-! ## Angles -/

/-- The remainder of `x` by a whole number, with the sign of `x`. -/
def remainder (x : Float) (d : Nat) : Float :=
  match exact x with
  | .finite s m e _ =>
    if 0 ≤ e then nearest s (m * Nat.pow 2 e.toNat % d) 0
    else nearest s (m % (d * Nat.pow 2 (-e).toNat)) e
  | .zero _ => x
  | _ => 0.0 / 0.0

/-- The angle within one full turn of 360 degrees. -/
def turn (degrees : Float) : Float :=
  let r := remainder degrees 360
  if r < 0 then r + 360 else r

end Artboard.Number
