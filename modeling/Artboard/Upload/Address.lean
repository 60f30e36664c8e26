import Artboard.Text.Blank
import Artboard.Text.Utf8

/-!
# Endpoint addresses

An endpoint is an `http` or `https` address. A request to it names a target: the path and the query
of the address. Characters that a target cannot hold are written as the hexadecimal digits of their
bytes behind a per cent sign, the segments `.` and `..` are resolved, and the fragment is dropped.

Backslashes count as slashes in front of the query. Tabs and line ends are passed over, as are
control characters and blanks at either end.
-/

namespace Artboard.Address

/-! ## Characters -/

def isLineBreak (c : Char) : Bool := c == '\t' || c == '\n' || c == '\r'

/-- Control characters and the blank. -/
def isControl (c : Char) : Bool := c.toNat ≤ 0x20

/-- The address without what is passed over. -/
def cleaned (cs : List Char) : List Char :=
  let cs := cs.dropWhile isControl
  let cs := (cs.reverse.dropWhile isControl).reverse
  cs.filter fun c => !isLineBreak c

def isSlash (c : Char) : Bool := c == '/' || c == '\\'

/-- The digits of a byte behind a per cent sign. -/
def escapeByte (b : UInt8) : List Char := '%' :: (Text.byteHex b).map Char.toUpper

/-- Writes the characters of a class by their bytes, and so are all beyond ASCII. -/
def escape (reserved : List Char) (cs : List Char) : List Char :=
  cs.flatMap fun c =>
    if c.toNat < 0x21 || 0x7F ≤ c.toNat || reserved.contains c then
      (Text.encode (String.singleton c)).flatMap escapeByte
    else [c]

/-- What a path cannot hold. -/
def reservedInPath : List Char := ['"', '<', '>', '\x60', '#', '?', '\x7b', '\x7d']

/-- What a query cannot hold. -/
def reservedInQuery : List Char := ['"', '#', '<', '>', '\'']

/-! ## Paths -/

/-- A segment with its escaped points written out. -/
def unescapedDots : List Char → List Char
  | '%' :: '2' :: 'e' :: rest | '%' :: '2' :: 'E' :: rest => '.' :: unescapedDots rest
  | c :: rest => c :: unescapedDots rest
  | [] => []

/-- The segments of a path without `.` and `..`; `done` holds those before, last one first. -/
def resolve (done : List (List Char)) : List (List Char) → List (List Char)
  | [] => done.reverse
  | [last] =>
    match unescapedDots last with
    | ['.'] => (([] : List Char) :: done).reverse
    | ['.', '.'] => (([] : List Char) :: done.tail).reverse
    | _ => (escape reservedInPath last :: done).reverse
  | segment :: rest =>
    match unescapedDots segment with
    | ['.'] => resolve done rest
    | ['.', '.'] => resolve done.tail rest
    | _ => resolve (escape reservedInPath segment :: done) rest

/-- The path of a target, from what follows the authority up to the query. -/
def targetPath (cs : List Char) : List Char :=
  match cs with
  | [] => ['/']
  | _ :: cs => (resolve [] (Text.pieces isSlash cs)).flatMap ('/' :: ·)

/-! ## Targets -/

/-- What follows the scheme, if it is one of the two. -/
def afterScheme? (cs : List Char) : Option (List Char) :=
  let scheme := (cs.takeWhile (· != ':')).map Char.toLower
  if scheme = "http".toList || scheme = "https".toList then
    match cs.dropWhile (· != ':') with
    | ':' :: rest => some (rest.dropWhile isSlash)
    | _ => none
  else none

/-- Whether a character ends the authority. -/
def endsAuthority (c : Char) : Bool := isSlash c || c == '?' || c == '#'

/-- The target of requests to an address, if it is one. -/
def target? (address : String) : Option String := do
  let rest ← afterScheme? (cleaned address.toList)
  if (rest.takeWhile fun c => !endsAuthority c).isEmpty then none
  else
    let rest := (rest.dropWhile fun c => !endsAuthority c).takeWhile (· != '#')
    let path := targetPath (rest.takeWhile (· != '?'))
    match rest.dropWhile (· != '?') with
    | '?' :: query => return String.ofList (path ++ '?' :: escape reservedInQuery query)
    | _ => return String.ofList path

end Artboard.Address
