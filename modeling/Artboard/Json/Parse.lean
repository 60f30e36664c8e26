import Artboard.Json.Basic
import Artboard.Text.Utf8

/-!
# Reading JSON text

The text is cut into tokens, and the tokens drive a machine whose stack holds the lists and
objects that are still open. So the depth of nesting is limited by nothing here.

**Numbers.** Whole numbers that fit into 64 bits stay whole; `-0` does not, and is the negative
zero. All others are read as the nearest double, and are unreadable beyond the doubles.

**Strings.** Control characters must be escaped. Half a surrogate pair makes a string unreadable,
and so do ill-formed bytes where the text is read from bytes. A key that cannot be read makes its
object unreadable.
-/

namespace Artboard.Json

/-! ## Tokens -/

inductive Token where
  | openList
  | closeList
  | openObject
  | closeObject
  | comma
  | colon
  | scalar (j : Json)

def isSpace (c : Char) : Bool := c == ' ' || c == '\n' || c == '\t' || c == '\r'

/-- The number that four hexadecimal digits stand for. -/
def hex4? (a b c d : Char) : Option Nat := do
  let a ← Text.hexValue? a
  let b ← Text.hexValue? b
  let c ← Text.hexValue? c
  let d ← Text.hexValue? d
  return ((a * 16 + b) * 16 + c) * 16 + d

/-- The part of a string that has been read: its characters, last one first, whether it can be
read so far, and the first half of a surrogate pair that waits for the second. -/
structure PartialString where
  chars : List Char := []
  readable : Bool := true
  half : Option Nat := none

namespace PartialString

/-- No second half came. -/
def settle (s : PartialString) : PartialString :=
  if s.half.isNone then s else { s with readable := false, half := none }

def push (s : PartialString) (c : Char) : PartialString :=
  let s := s.settle
  { s with chars := c :: s.chars }

/-- Adds a 16-bit unit. -/
def pushUnit (s : PartialString) (unit : Nat) : PartialString :=
  if 0xD800 ≤ unit ∧ unit < 0xDC00 then { s.settle with half := some unit }
  else if 0xDC00 ≤ unit ∧ unit < 0xE000 then
    match s.half with
    | some high =>
      { s with
        chars := Char.ofNat (0x10000 + (high - 0xD800) * 0x400 + (unit - 0xDC00)) :: s.chars
        half := none }
    | none => { s with readable := false }
  else s.push (Char.ofNat unit)

def value (s : PartialString) : Json :=
  let s := s.settle
  if s.readable then .text (String.ofList s.chars.reverse) else .unreadable

end PartialString

/-- What a single character after a backslash stands for. -/
def escaped? : Char → Option Char
  | '"' => some '"'
  | '\\' => some '\\'
  | '/' => some '/'
  | 'b' => some '\x08'
  | 'f' => some '\x0c'
  | 'n' => some '\n'
  | 'r' => some '\r'
  | 't' => some '\t'
  | _ => none

/-- Reads a string behind its opening quote, up to and with the closing one. -/
def scanString (s : PartialString) : List Char → Option (Json × List Char)
  | [] => none
  | '"' :: rest => some (s.value, rest)
  | '\\' :: 'u' :: a :: b :: c :: d :: rest =>
    match hex4? a b c d with
    | some unit => scanString (s.pushUnit unit) rest
    | none => none
  | '\\' :: c :: rest =>
    match escaped? c with
    | some c => scanString (s.push c) rest
    | none => none
  | c :: rest => if c.toNat < 0x20 then none else scanString (s.push c) rest

/-- The number that decimal digits stand for. -/
def decimal (ds : List Char) : Nat := ds.foldl (fun n c => 10 * n + (c.toNat - 0x30)) 0

/-- The double nearest to `n · 10 ^ e`, if it is finite. Beyond the 400th digit on either side of the
decimal point there is no double but zero. -/
def nearestDouble? (n : Nat) (e : Int) : Option Float :=
  let point := (Nat.toDigits 10 n).length + e
  if n = 0 ∨ point < -400 then some 0
  else if 400 < point then none
  else
    let x := Float.ofScientific n (e < 0) e.natAbs
    if x.isFinite then some x else none

/-- A number with the value `± n · 10 ^ e`. -/
def realNumber (negative : Bool) (n : Nat) (e : Int) : Json :=
  match nearestDouble? n e with
  | some x => .real (if negative then -x else x)
  | none => .unreadable

/-- A number without fraction and exponent. -/
def wholeNumber (negative : Bool) (n : Nat) : Json :=
  if negative then
    if 0 < n ∧ n ≤ Nat.pow 2 63 then .whole (-n) else realNumber true n 0
  else if n < Nat.pow 2 64 then .whole n
  else realNumber false n 0

/-- The digits after a decimal point, none if there is no point. -/
def scanFraction : List Char → Option (List Char × List Char)
  | '.' :: rest =>
    let ds := rest.takeWhile Char.isDigit
    if ds.isEmpty then none else some (ds, rest.dropWhile Char.isDigit)
  | rest => some ([], rest)

/-- The exponent behind its mark. -/
def scanPower (rest : List Char) : Option (Int × List Char) :=
  let (negative, rest) := match rest with
    | '-' :: rest => (true, rest)
    | '+' :: rest => (false, rest)
    | rest => (false, rest)
  let ds := rest.takeWhile Char.isDigit
  if ds.isEmpty then none
  else some (if negative then -(decimal ds : Int) else decimal ds, rest.dropWhile Char.isDigit)

/-- The exponent, if one is written. -/
def scanExponent : List Char → Option (Option Int × List Char)
  | 'e' :: rest | 'E' :: rest => (scanPower rest).map fun (e, rest) => (some e, rest)
  | rest => some (none, rest)

/-- Reads a number behind its sign. -/
def scanNumber (negative : Bool) (cs : List Char) : Option (Json × List Char) := do
  let ds := cs.takeWhile Char.isDigit
  if ds.isEmpty || (1 < ds.length && ds.head? == some '0') then none
  else
    let (fraction, rest) ← scanFraction (cs.dropWhile Char.isDigit)
    let (power, rest) ← scanExponent rest
    if fraction.isEmpty && power.isNone then return (wholeNumber negative (decimal ds), rest)
    else
      let e := power.getD 0 - fraction.length
      return (realNumber negative (decimal (ds ++ fraction)) e, rest)

/-- The rest behind a word. -/
def afterWord? : List Char → List Char → Option (List Char)
  | [], rest => some rest
  | _ :: _, [] => none
  | w :: ws, c :: cs => if w = c then afterWord? ws cs else none

/-- The token that starts with `c`, and what follows it. -/
def scanToken (c : Char) (cs : List Char) : Option (Token × List Char) :=
  let word (w : String) (j : Json) := (afterWord? w.toList cs).map fun rest => (Token.scalar j, rest)
  let scalar (r : Option (Json × List Char)) := r.map fun (j, rest) => (Token.scalar j, rest)
  match c with
  | '[' => some (.openList, cs)
  | ']' => some (.closeList, cs)
  | '\x7b' => some (.openObject, cs)
  | '\x7d' => some (.closeObject, cs)
  | ',' => some (.comma, cs)
  | ':' => some (.colon, cs)
  | '"' => scalar (scanString {} cs)
  | 'n' => word "ull" .null
  | 't' => word "rue" (.bool true)
  | 'f' => word "alse" (.bool false)
  | '-' => scalar (scanNumber true cs)
  | c => if c.isDigit then scalar (scanNumber false (c :: cs)) else none

/-- The tokens of a text. The fuel is the length of the text, since each token takes at least one
character. -/
def tokensWithin : Nat → List Char → Option (List Token)
  | 0, cs => if cs.isEmpty then some [] else none
  | _ + 1, [] => some []
  | fuel + 1, c :: cs =>
    if isSpace c then tokensWithin fuel cs
    else match scanToken c cs with
      | some (token, rest) => (tokensWithin fuel rest).map (token :: ·)
      | none => none

def tokens (cs : List Char) : Option (List Token) := tokensWithin cs.length cs

/-! ## The machine -/

/-- The members of an object; a key is missing where it could not be read. -/
abbrev Members := List (Option String × Json)

/-- An object whose members were read last one first. -/
def ofMembers (members : Members) : Json :=
  match members.reverse.mapM fun (key, j) => key.map fun key => (key, j) with
  | some members => .object members
  | none => .unreadable

/-- A list or object that is still open, last part first. -/
inductive Frame where
  | list (items : List Json)
  | object (members : Members)
  /-- An object whose member with this key waits for its value. -/
  | member (members : Members) (key : Option String)

/-- What may come next. -/
inductive Awaiting where
  /-- A value, or the end of a list that was just opened. -/
  | value (orEnd : Bool)
  /-- A key, or the end of an object that was just opened. -/
  | key (orEnd : Bool)
  | colon (key : Option String)
  /-- A comma or the end of the innermost list or object. -/
  | separator
  /-- Nothing but the end of the text. -/
  | finish (j : Json)

structure Machine where
  frames : List Frame := []
  awaiting : Awaiting := .value false

namespace Machine

/-- The machine after a whole value inside `frames`. -/
def complete (j : Json) : List Frame → Option Machine
  | [] => some ⟨[], .finish j⟩
  | .list items :: frames => some ⟨.list (j :: items) :: frames, .separator⟩
  | .member members key :: frames => some ⟨.object ((key, j) :: members) :: frames, .separator⟩
  | .object _ :: _ => none

/-- The machine after the end of the innermost list or object. -/
def close (token : Token) : List Frame → Option Machine
  | .list items :: frames =>
    match token with
    | .closeList => complete (.list items.reverse) frames
    | _ => none
  | .object members :: frames =>
    match token with
    | .closeObject => complete (ofMembers members) frames
    | _ => none
  | _ => none

def step (m : Machine) (token : Token) : Option Machine :=
  match m.awaiting, token with
  | .value _, .scalar j => complete j m.frames
  | .value _, .openList => some ⟨.list [] :: m.frames, .value true⟩
  | .value _, .openObject => some ⟨.object [] :: m.frames, .key true⟩
  | .value true, token => close token m.frames
  | .key _, .scalar (.text key) => some ⟨m.frames, .colon (some key)⟩
  | .key _, .scalar .unreadable => some ⟨m.frames, .colon none⟩
  | .key true, token => close token m.frames
  | .colon key, .colon =>
    match m.frames with
    | .object members :: frames => some ⟨.member members key :: frames, .value false⟩
    | _ => none
  | .separator, .comma =>
    match m.frames with
    | .list _ :: _ => some ⟨m.frames, .value false⟩
    | .object _ :: _ => some ⟨m.frames, .key false⟩
    | _ => none
  | .separator, token => close token m.frames
  | _, _ => none

end Machine

/-- The value that some characters stand for, as a whole. -/
def parseChars? (cs : List Char) : Option Json := do
  let ts ← tokens cs
  let m ← ts.foldlM Machine.step {}
  match m.awaiting with
  | .finish j => some j
  | _ => none

/-- The value that a text stands for. -/
def parse? (text : String) : Option Json := parseChars? text.toList

/-- What stands for ill-formed bytes: nothing outside of strings, no escape behind a backslash,
and half a surrogate pair inside a string. -/
def illFormed : List Char := "x\\udc00".toList

/-- The value that UTF-8 bytes stand for. -/
def parseBytes? (bytes : Text.Bytes) : Option Json :=
  parseChars? ((Text.chars bytes).flatMap fun c => c.elim illFormed fun c => [c])

end Artboard.Json
