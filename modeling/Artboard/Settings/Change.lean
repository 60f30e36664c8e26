import Artboard.Number.Decimal
import Artboard.Settings.Document
import Artboard.Text.Blank

/-!
# Changing settings

A change names a slot of the settings document by a dotted path and gives it a new value. The
changed document is read again as a whole and must be in range; if anything is wrong, the
settings stay as they were.

The font families can also be set at once from a text of their own.
-/

namespace Artboard

/-- Why a value was refused. -/
inductive RangeFault where
  | threshold (percent : Float)
  | fontSize
deriving Repr, DecidableEq

namespace RangeFault

def reason : RangeFault → String
  | .threshold percent =>
    s!"thresholdPercent must be within 0..=50, got {Number.plain percent}"
  | .fontSize => "baseFontSize must be positive"

end RangeFault

/-- Why settings could not be read or changed. -/
inductive SettingsError where
  /-- The text is not JSON, or does not describe settings. -/
  | malformed
  | unknownKey (key : String)
  /-- The value has the wrong shape for its slot. -/
  | misfit (key : String)
  | outOfRange (key : String) (fault : RangeFault)
deriving Repr, DecidableEq

namespace SettingsError

/-- The message, where it does not quote a reader. -/
def message? : SettingsError → Option String
  | .malformed | .misfit _ => none
  | .unknownKey key => some s!"Unknown setting: {key}"
  | .outOfRange key fault => some s!"Invalid value for setting '{key}': {fault.reason}"

end SettingsError

namespace Json

mutual

/-- The value with the slot at a path replaced; every key of the path must be there. -/
def replaceAt (value : Json) : List String → Json → Option Json
  | [], _ => some value
  | key :: path, .object members => (replaceMember value key path members).map .object
  | _ :: _, _ => none

/-- The same in the members of an object. -/
def replaceMember (value : Json) (key : String) (path : List String) :
    List (String × Json) → Option (List (String × Json))
  | [] => none
  | (name, j) :: rest =>
    if name = key then (replaceAt value path j).map fun j => (name, j) :: rest
    else (replaceMember value key path rest).map fun rest => (name, j) :: rest

end

end Json

namespace Settings

/-- The keys of a dotted path. -/
def path (key : String) : List String :=
  (Text.pieces (· == '.') key.toList).map String.ofList

/-- What is out of range, the threshold first. -/
def fault? (s : Settings) : Option RangeFault :=
  let percent := s.rounding.thresholdPercent
  if !(0 ≤ percent && percent ≤ Rounding.maxThreshold) then some (.threshold percent)
  else if !s.baseFontSize.isFinite || s.baseFontSize ≤ 0 then some .fontSize
  else none

/-- The settings with the slot at `key` set to `value`. -/
def change (s : Settings) (key : String) (value : Json) : Except SettingsError Settings :=
  match Json.replaceAt value (path key) s.toJson with
  | none => .error (.unknownKey key)
  | some document =>
    match ofJson? document with
    | none => .error (.misfit key)
    | some changed =>
      match changed.fault? with
      | some fault => .error (.outOfRange key fault)
      | none => .ok changed

/-- The settings with the font families of a text; blank text has none. -/
def withFamilies (s : Settings) (text : String) : Except SettingsError Settings :=
  if Text.allBlank text.toList then .ok { s with fontFamilies := [] }
  else match (Json.parse? text).bind (readFamilies Json.textLevels) with
    | some families => .ok { s with fontFamilies := families }
    | none => .error .malformed

/-! ## Edits -/

/-- A request to change settings. -/
inductive Edit where
  | slot (key : String) (value : Json)
  | families (text : String)

def edited (s : Settings) : Edit → Except SettingsError Settings
  | .slot key value => s.change key value
  | .families text => s.withFamilies text

/-- The settings after an edit, which are the old ones if it failed. -/
def apply (s : Settings) (edit : Edit) : Settings :=
  match s.edited edit with
  | .ok changed => changed
  | .error _ => s

end Settings

end Artboard
