import Artboard.Json.Parse
import Artboard.Json.Read
import Artboard.Settings.Basic

/-!
# The settings document

Settings are stored as a JSON object. Every key may be missing; it then has its default. Unknown
keys are passed over. Two keys have a second, older name.
-/

namespace Artboard

open Json

/-- A number in a document; what is not finite has no notation. -/
def Json.ofReal (x : Float) : Json := if x.isFinite then .real x else .null

namespace Rounding

def toJson (r : Rounding) : Json :=
  .object [("values", .bool r.values), ("colors", .bool r.colors),
    ("thresholdPercent", .ofReal r.thresholdPercent)]

def read : Reader Rounding := fun levels j => do
  let r ← record? [["values"], ["colors"], ["thresholdPercent"]] levels j
  let absent : Rounding := {}
  return {
    values := ← r.field "values" asBool absent.values
    colors := ← r.field "colors" asBool absent.colors
    thresholdPercent := ← r.field "thresholdPercent" asReal absent.thresholdPercent }

end Rounding

namespace UploadSettings

/-- The greatest number of uploads at once that a document can ask for. -/
def maxLimit : Nat := Nat.pow 2 64 - 1

def toJson (u : UploadSettings) : Json :=
  .object [("enabled", .bool u.enabled), ("endpoint", .text u.endpoint),
    ("uploadSecret", .text u.secret), ("cacheTTLHours", .ofReal u.cacheHours),
    ("maxConcurrentUploads", .whole u.maxConcurrent), ("bitmapStrategy", .text u.bitmaps.name),
    ("vectorStrategy", .text u.vectors.name)]

def read : Reader UploadSettings := fun levels j => do
  let r ← record? [["enabled"], ["endpoint"], ["uploadSecret"], ["cacheTTLHours"],
    ["maxConcurrentUploads"], ["bitmapStrategy"], ["vectorStrategy"]] levels j
  let absent : UploadSettings := {}
  return {
    enabled := ← r.field "enabled" asBool absent.enabled
    endpoint := ← r.field "endpoint" asText absent.endpoint
    secret := ← r.field "uploadSecret" asText absent.secret
    cacheHours := ← r.field "cacheTTLHours" asReal absent.cacheHours
    maxConcurrent := ← r.field "maxConcurrentUploads" (asNat maxLimit) absent.maxConcurrent
    bitmaps := ← r.field "bitmapStrategy" (choice Strategy.names) absent.bitmaps
    vectors := ← r.field "vectorStrategy" (choice Strategy.names) absent.vectors }

end UploadSettings

namespace Settings

/-- The font families of a document. -/
def readFamilies : Reader (List (String × List String)) := asMap (asList asText)

def familiesJson (families : List (String × List String)) : Json :=
  .object (families.map fun (key, names) => (key, .list (names.map .text)))

def toJson (s : Settings) : Json :=
  .object [("generationMode", .text s.mode.name), ("rounding", s.rounding.toJson),
    ("useColorVariables", .bool s.useColorVariables), ("embedImages", .bool s.embedImages),
    ("embedVectors", .bool s.embedVectors), ("customClassPrefix", .text s.classPrefix),
    ("baseFontSize", .ofReal s.baseFontSize), ("baseFontFamily", .text s.baseFontFamily),
    ("fontFamilyCustomConfig", familiesJson s.fontFamilies),
    ("showLayerNames", .bool s.showLayerNames), ("assetUpload", s.uploads.toJson)]

/-- The names of the fields. -/
def fields : List (List String) :=
  [["generationMode", "tailwindGenerationMode"], ["rounding"], ["useColorVariables"],
    ["embedImages"], ["embedVectors"], ["customClassPrefix", "customTailwindPrefix"],
    ["baseFontSize"], ["baseFontFamily"], ["fontFamilyCustomConfig"], ["showLayerNames"],
    ["assetUpload"]]

def read : Reader Settings := fun levels j => do
  let r ← record? fields levels j
  let absent : Settings := {}
  return {
    mode := ← r.field "generationMode" (choice Mode.names) absent.mode
    rounding := ← r.field "rounding" Rounding.read absent.rounding
    useColorVariables := ← r.field "useColorVariables" asBool absent.useColorVariables
    embedImages := ← r.field "embedImages" asBool absent.embedImages
    embedVectors := ← r.field "embedVectors" asBool absent.embedVectors
    classPrefix := ← r.field "customClassPrefix" asText absent.classPrefix
    baseFontSize := ← r.field "baseFontSize" asReal absent.baseFontSize
    baseFontFamily := ← r.field "baseFontFamily" asText absent.baseFontFamily
    fontFamilies := ← r.field "fontFamilyCustomConfig" readFamilies absent.fontFamilies
    showLayerNames := ← r.field "showLayerNames" asBool absent.showLayerNames
    uploads := ← r.field "assetUpload" UploadSettings.read absent.uploads }

/-- The settings of a JSON value. -/
def ofJson? (j : Json) : Option Settings := read textLevels j

/-- The settings of a text. -/
def ofText? (text : String) : Option Settings := (parse? text).bind ofJson?

end Settings

end Artboard
