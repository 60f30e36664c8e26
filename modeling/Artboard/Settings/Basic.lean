/-!
# Settings

One value of `Settings` governs a whole conversion. Numbers are kept as they were given; the
functions `Rounding.threshold`, `Settings.fontSize` and `UploadSettings.limit` bring them into
range when they are read.
-/

namespace Artboard

/-- The flavour of the generated markup. -/
inductive Mode where
  | html
  | jsx
deriving Repr, DecidableEq

namespace Mode

def isJsx : Mode → Bool
  | .html => false
  | .jsx => true

def names : List (String × Mode) := [("html", .html), ("jsx", .jsx)]

def name : Mode → String
  | .html => "html"
  | .jsx => "jsx"

end Mode

/-- What happens to one kind of asset. -/
inductive Strategy where
  | upload
  | placeholder
deriving Repr, DecidableEq

namespace Strategy

def names : List (String × Strategy) := [("upload", .upload), ("placeholder", .placeholder)]

def name : Strategy → String
  | .upload => "upload"
  | .placeholder => "placeholder"

end Strategy

/-- Rounding of lengths onto scales and of colours onto the palette. -/
structure Rounding where
  values : Bool := true
  colors : Bool := true
  /-- The greatest difference, in per cent of the value, that rounding may make. -/
  thresholdPercent : Float := 15
deriving Repr, DecidableEq

namespace Rounding

/-- The greatest threshold that has an effect. -/
def maxThreshold : Float := 50

/-- The threshold within 0 and 50. -/
def threshold (r : Rounding) : Float :=
  let x := r.thresholdPercent
  if x.isNaN || x < 0 then 0 else if maxThreshold < x then maxThreshold else x

end Rounding

/-- Uploading of exported images and vectors. -/
structure UploadSettings where
  enabled : Bool := false
  endpoint : String := ""
  /-- Sent along with each upload. -/
  secret : String := ""
  /-- Kept for whoever stores the cache; the cache in memory does not expire. -/
  cacheHours : Float := 24
  maxConcurrent : Nat := 5
  bitmaps : Strategy := .upload
  vectors : Strategy := .upload
deriving Repr, DecidableEq

namespace UploadSettings

/-- How many uploads may run at once, at least one. -/
def limit (u : UploadSettings) : Nat := max u.maxConcurrent 1

def uploadsBitmaps (u : UploadSettings) : Bool := u.enabled && u.bitmaps = .upload

def uploadsVectors (u : UploadSettings) : Bool := u.enabled && u.vectors = .upload

end UploadSettings

structure Settings where
  mode : Mode := .jsx
  rounding : Rounding := {}
  useColorVariables : Bool := true
  embedImages : Bool := false
  embedVectors : Bool := false
  /-- Put in front of every class. -/
  classPrefix : String := ""
  baseFontSize : Float := 16
  baseFontFamily : String := ""
  /-- Font families by the key of their class, sorted by keys. -/
  fontFamilies : List (String × List String) := []
  showLayerNames : Bool := false
  uploads : UploadSettings := {}
deriving Repr, DecidableEq

namespace Settings

/-- The base font size, 16 unless it is a positive number. -/
def fontSize (s : Settings) : Float :=
  if s.baseFontSize.isFinite && 0 < s.baseFontSize then s.baseFontSize else 16

end Settings

end Artboard
