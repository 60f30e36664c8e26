/-!
# JSON values

A value keeps what readers can tell apart: whether a number was written as a whole number, the
order of the members of an object, and repeated keys. Numbers beyond the doubles and strings with
half a surrogate pair are well-formed text without a value; they are kept as `unreadable`, which
may be passed over but never read.

`distinct` keeps the last member for each key.
-/

namespace Artboard

inductive Json where
  | null
  | bool (b : Bool)
  /-- A number written without fraction and exponent that fits into 64 bits. -/
  | whole (n : Int)
  | real (x : Float)
  | text (s : String)
  | list (items : List Json)
  | object (members : List (String × Json))
  | unreadable
deriving Repr, Inhabited

namespace Json

/-- The value of the last member with a key. -/
def lookup (key : String) (members : List (String × Json)) : Option Json :=
  members.reverse.lookup key

/-- The member of an object. -/
def get? (j : Json) (key : String) : Option Json :=
  match j with
  | .object members => lookup key members
  | _ => none

/-- The members without those whose key comes again. -/
def lastOnly : List (String × Json) → List (String × Json)
  | [] => []
  | (key, value) :: rest =>
    if (rest.map (·.1)).contains key then lastOnly rest else (key, value) :: lastOnly rest

mutual

/-- The value with each key once, at every depth. -/
def distinct : Json → Json
  | .list items => .list (distinctItems items)
  | .object members => .object (lastOnly (distinctMembers members))
  | j => j

def distinctItems : List Json → List Json
  | [] => []
  | j :: rest => j.distinct :: distinctItems rest

def distinctMembers : List (String × Json) → List (String × Json)
  | [] => []
  | (key, j) :: rest => (key, j.distinct) :: distinctMembers rest

end

mutual

/-- Whether the value and all its parts can be read, and lists and objects are nested at most
`levels` deep. -/
def readable (levels : Nat) : Json → Bool
  | .unreadable => false
  | .list items => 0 < levels && readableItems (levels - 1) items
  | .object members => 0 < levels && readableMembers (levels - 1) members
  | _ => true

def readableItems (levels : Nat) : List Json → Bool
  | [] => true
  | j :: rest => j.readable levels && readableItems levels rest

def readableMembers (levels : Nat) : List (String × Json) → Bool
  | [] => true
  | (_, j) :: rest => j.readable levels && readableMembers levels rest

end

end Json

end Artboard
