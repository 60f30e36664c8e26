import Artboard.Json.Basic

/-!
# Readers

A reader takes a JSON value apart and fails on what does not fit. It is given the number of
levels of lists and objects that it may still enter, which bounds the nesting of a document and
makes readers of trees total.

**Records** (`record?`). The fields of a record come by name from an object, or by position from
a list. A field may be known under several names. Unknown names are passed over; a field that
comes twice is refused, and so is a list with more items than fields.

**Choices** (`choice`). One of a list of words, as a string or as the only key of an object with
the value `null`.
-/

namespace Artboard.Json

/-- Reads a value, entering at most so many levels of lists and objects. -/
abbrev Reader (α : Type) := Nat → Json → Option α

/-- The nesting that a text may have. -/
def textLevels : Nat := 127

/-! ## Single values -/

def asBool : Reader Bool
  | _, .bool b => some b
  | _, _ => none

def asText : Reader String
  | _, .text s => some s
  | _, _ => none

def asReal : Reader Float
  | _, .whole n => some (Float.ofInt n)
  | _, .real x => some x
  | _, _ => none

/-- A whole number from 0 up to and with `greatest`. -/
def asNat (greatest : Nat) : Reader Nat
  | _, .whole n => if 0 ≤ n ∧ n ≤ greatest then some n.toNat else none
  | _, _ => none

/-- Nothing for `null`. -/
def optional {α : Type} (read : Reader α) : Reader (Option α)
  | _, .null => some none
  | levels, j => (read levels j).map some

/-- One of the words of a table. -/
def choice {α : Type} (table : List (String × α)) : Reader α
  | _, .text s => table.lookup s
  | levels, .object [(s, .null)] => if 0 < levels then table.lookup s else none
  | _, _ => none

/-! ## Lists and maps -/

def asList {α : Type} (read : Reader α) : Reader (List α)
  | levels + 1, .list items => items.mapM (read levels)
  | _, _ => none

/-- A list with so many items. -/
def asListOf {α : Type} (length : Nat) (read : Reader α) : Reader (List α) := fun levels j =>
  match asList read levels j with
  | some items => if items.length = length then some items else none
  | none => none

/-- Puts a value under a key into a list that is sorted by keys. -/
def insertSorted {α : Type} (key : String) (value : α) : List (String × α) → List (String × α)
  | [] => [(key, value)]
  | (k, v) :: rest =>
    if key < k then (key, value) :: (k, v) :: rest
    else if key = k then (key, value) :: rest
    else (k, v) :: insertSorted key value rest

/-- The members of an object, sorted by keys; of equal keys the last one counts. -/
def asMap {α : Type} (read : Reader α) : Reader (List (String × α))
  | levels + 1, .object members =>
    members.foldlM (fun entries (key, j) =>
      (read levels j).map fun value => insertSorted key value entries) []
  | _, _ => none

/-! ## Records -/

/-- The fields of a record that are present, each under its first name. -/
structure Record where
  levels : Nat
  present : List (String × Json)

namespace Record

/-- The first name of the field that is known as `key`. -/
def nameOf? (fields : List (List String)) (key : String) : Option String :=
  (fields.find? (·.contains key)).bind (·.head?)

/-- The members that are fields, under their first names. -/
def known (fields : List (List String)) (members : List (String × Json)) :
    List (String × Json) :=
  members.filterMap fun (key, j) => (nameOf? fields key).map fun name => (name, j)

/-- Whether no name comes twice. -/
def once : List (String × Json) → Bool
  | [] => true
  | (name, _) :: rest => !(rest.map (·.1)).contains name && once rest

/-- A field that must be present. -/
def required {α : Type} (r : Record) (name : String) (read : Reader α) : Option α :=
  (r.present.lookup name).bind (read r.levels)

/-- A field that may be absent. -/
def field {α : Type} (r : Record) (name : String) (read : Reader α) (absent : α) : Option α :=
  match r.present.lookup name with
  | some j => read r.levels j
  | none => some absent

end Record

/-- The fields of a record. -/
def record? (fields : List (List String)) : Reader Record
  | levels + 1, .object members =>
    let present := Record.known fields members
    if Record.once present then some ⟨levels, present⟩ else none
  | levels + 1, .list items =>
    if items.length ≤ fields.length then
      some ⟨levels, List.zip (fields.filterMap (·.head?)) items⟩
    else none
  | _, _ => none

end Artboard.Json
