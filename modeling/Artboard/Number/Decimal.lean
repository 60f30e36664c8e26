import Artboard.Number.Exact

/-!
# Decimal text of doubles

**Fixed places** (`fixed`). The exact value is rounded to so many decimals, a half going to the
even neighbour.

**Shortest digits** (`shortest`). Of the decimals that read back as the same double, one with the
fewest digits, and of those the nearest. The decimals that read back form an interval around the
value, whose ends belong to it iff the mantissa is even. If a grid of `n` digits has a point in
the interval, one of the value's two neighbours on that grid is such a point, so it is enough to
try those for 1, 2, … 17 digits.

**Notations.** `plain` writes shortest digits without an exponent. `literal` is the notation of
JSON: positional while the decimal point falls at most sixteen digits to the right or five to the
left of the digits, and with a fraction of at least one digit.

`short` is the form of lengths: at most two decimals and no superfluous zeros.
-/

namespace Artboard.Number

open Float.Model.UnpackedFloat (Sign)

/-! ## Digits -/

/-- The decimal digits of a number, most significant first. -/
def digits (n : Nat) : List Char := Nat.toDigits 10 n

/-- At least `width` digits, filled up with zeros at the front. -/
def paddedDigits (width n : Nat) : List Char :=
  let ds := digits n
  List.replicate (width - ds.length) '0' ++ ds

def signText : Sign → List Char
  | .negative => ['-']
  | .positive => []

/-- The quotient rounded to a whole number, a half going to the even neighbour. -/
def quotientEven (n d : Nat) : Nat :=
  let q := n / d
  let r := n % d
  if 2 * r < d then q else if d < 2 * r then q + 1 else if q % 2 = 0 then q else q + 1

/-! ## Fixed places -/

/-- `m · 2 ^ e · 10 ^ places` rounded to a whole number. -/
def scaledEven (m : Nat) (e : Int) (places : Nat) : Nat :=
  if 0 ≤ e then m * Nat.pow 2 e.toNat * Nat.pow 10 places
  else quotientEven (m * Nat.pow 10 places) (Nat.pow 2 (-e).toNat)

/-- Writes `n / 10 ^ places` with exactly so many decimals. -/
def fixedDigits (places n : Nat) : List Char :=
  if places = 0 then digits n
  else digits (n / Nat.pow 10 places) ++ '.' :: paddedDigits places (n % Nat.pow 10 places)

def fixedChars (places : Nat) (x : Float) : List Char :=
  match exact x with
  | .notANumber => "NaN".toList
  | .infinity s => signText s ++ "inf".toList
  | .zero s => signText s ++ fixedDigits places 0
  | .finite s m e _ => signText s ++ fixedDigits places (scaledEven m e places)

/-- The number with exactly so many decimals. -/
def fixed (places : Nat) (x : Float) : String := String.ofList (fixedChars places x)

/-! ## Shortest digits -/

/-- The decimal `digits · 10 ^ exponent`. -/
structure Shortest where
  digits : Nat
  exponent : Int
deriving Repr, DecidableEq

/-- Where a decimal lies: `c · 10 ^ k` against `x · 2 ^ q`. -/
def compareGrid (c : Nat) (k : Int) (x : Nat) (q : Int) : Ordering :=
  compare (c * Nat.pow 10 k.toNat * Nat.pow 2 (-q).toNat)
    (x * Nat.pow 2 q.toNat * Nat.pow 10 (-k).toNat)

/-- Four times the ends of the interval of reals that read back as `m · 2 ^ e`, as multiples of
`2 ^ e`. Below a power of two the doubles lie closer together. -/
def readBack (m : Nat) (e : Int) : Nat × Nat :=
  (if m = Nat.pow 2 52 ∧ -1074 < e then 4 * m - 1 else 4 * m - 2, 4 * m + 2)

/-- Whether the decimal `c · 10 ^ k` reads back as `m · 2 ^ e`. -/
def readsBack (m : Nat) (e : Int) (c : Nat) (k : Int) : Bool :=
  let (low, high) := readBack m e
  let fromLow := compareGrid c k low (e - 2)
  let fromHigh := compareGrid c k high (e - 2)
  if m % 2 = 0 then fromLow != .lt && fromHigh != .gt else fromLow == .gt && fromHigh == .lt

/-- The greatest `c` with `c · 10 ^ k ≤ m · 2 ^ e`. -/
def gridBelow (m : Nat) (e k : Int) : Nat :=
  (m * Nat.pow 2 e.toNat * Nat.pow 10 (-k).toNat) / (Nat.pow 2 (-e).toNat * Nat.pow 10 k.toNat)

/-- The decimal exponent of `m · 2 ^ e`: the value is below `10` to that power and not below a
tenth of it. -/
def magnitude (m : Nat) (e : Int) : Int :=
  if 0 ≤ e then (digits (m * Nat.pow 2 e.toNat)).length
  else
    let unit := Nat.pow 2 (-e).toNat
    if unit ≤ m then (digits (m / unit)).length
    else 1 - (digits ((unit - 1) / m)).length

/-- The neighbour of `m · 2 ^ e` on the grid `10 ^ k` that reads back, the nearer one if both
do. -/
def gridHit (m : Nat) (e k : Int) : Option Nat :=
  let c := gridBelow m e k
  match readsBack m e c k, readsBack m e (c + 1) k with
  | true, false => some c
  | false, true => some (c + 1)
  | false, false => none
  | true, true =>
    match compareGrid (2 * c + 1) k (2 * m) e with
    | .gt => some c
    | .lt => some (c + 1)
    | .eq => some (if c % 2 = 0 then c else c + 1)

/-- Removes up to `fuel` trailing zeros. -/
def dropZeros : Nat → Nat → Int → Shortest
  | 0, c, k => ⟨c, k⟩
  | fuel + 1, c, k => if c % 10 = 0 && c != 0 then dropZeros fuel (c / 10) (k + 1) else ⟨c, k⟩

/-- Tries the grids of `count`, `count + 1`, … digits; `left` of them remain. -/
def shortestFrom (m : Nat) (e : Int) (magnitude : Int) : Nat → Nat → Shortest
  | 0, _ => ⟨m * Nat.pow 2 e.toNat, 0⟩
  | left + 1, count =>
    let k := magnitude - count
    match gridHit m e k with
    | some c => dropZeros 18 c k
    | none => shortestFrom m e magnitude left (count + 1)

/-- The shortest decimal that reads back as `m · 2 ^ e`. -/
def shortest (m : Nat) (e : Int) : Shortest := shortestFrom m e (magnitude m e) 17 1

/-! ## Notations -/

/-- Digits with the decimal point after the first `point` of them, without an exponent. -/
def positional (ds : List Char) (point : Int) (fraction : List Char) : List Char :=
  if (ds.length : Int) ≤ point then
    ds ++ List.replicate (point.toNat - ds.length) '0' ++ fraction
  else if 0 < point then ds.take point.toNat ++ '.' :: ds.drop point.toNat
  else '0' :: '.' :: (List.replicate (-point).toNat '0' ++ ds)

/-- The shortest digits without an exponent. -/
def plain (x : Float) : String :=
  String.ofList <| match exact x with
  | .notANumber => "NaN".toList
  | .infinity s => signText s ++ "inf".toList
  | .zero s => signText s ++ ['0']
  | .finite s m e _ =>
    let d := shortest m e
    let ds := digits d.digits
    signText s ++ positional ds (ds.length + d.exponent) []

/-- One digit before the point, and the exponent after an `e`. -/
def scientific (ds : List Char) (point : Int) : List Char :=
  let power := (toString (point - 1)).toList
  match ds with
  | [] => []
  | [d] => d :: 'e' :: power
  | d :: rest => d :: '.' :: (rest ++ 'e' :: power)

/-- The notation of JSON, for a finite number. -/
def literal (x : Float) : String :=
  String.ofList <| match exact x with
  | .notANumber | .infinity _ => "null".toList
  | .zero s => signText s ++ "0.0".toList
  | .finite s m e _ =>
    let d := shortest m e
    let ds := digits d.digits
    let point := ds.length + d.exponent
    signText s ++
      if -5 < point ∧ point ≤ 16 then positional ds point ".0".toList else scientific ds point

/-! ## Lengths -/

/-- Removes trailing zeros, and the point if it is the last character then. -/
def dropTrailingZeros (cs : List Char) : List Char :=
  let kept := cs.reverse.dropWhile (· == '0')
  match kept with
  | '.' :: rest => rest.reverse
  | _ => kept.reverse

def shortChars (x : Float) : List Char :=
  let rounded := roundHundredths x
  if rounded == 0 then ['0'] else dropTrailingZeros (fixedChars 2 rounded)

/-- At most two decimals and no trailing zeros; a zero has no sign. -/
def short (x : Float) : String := String.ofList (shortChars x)

/-- A length in pixels: `12px`, `0.5px`. -/
def pixels (x : Float) : String := short x ++ "px"

end Artboard.Number
