import Artboard.Json.Parse
import Artboard.Json.Read
import Artboard.Scene.Basic

/-!
# Reading scenes

Scenes are JSON objects, and every field of a layer may be missing. `null` stands for nothing
where a value is optional, and is refused everywhere else.

A paint says by its `type` what it is; an unknown type makes it unsupported, whatever its other
fields are. Paints are read as a whole before their type is known, so no part of one may be
unreadable.
-/

namespace Artboard

open Json

namespace Rgba

def read : Reader Rgba := fun levels j => do
  let r ← record? [["r"], ["g"], ["b"], ["a"]] levels j
  return ⟨← r.required "r" asReal, ← r.required "g" asReal, ← r.required "b" asReal,
    ← r.field "a" asReal 1⟩

end Rgba

namespace BoundVariables

def readAlias : Reader String := fun levels j => do
  let r ← record? [["id"]] levels j
  r.required "id" asText

def read : Reader BoundVariables := fun levels j => do
  let r ← record? [["color"]] levels j
  return ⟨← r.field "color" (optional readAlias) none⟩

end BoundVariables

namespace SolidPaint

def read : Reader SolidPaint := fun levels j => do
  let r ← record? [["color"], ["opacity"], ["visible"], ["boundVariables"]] levels j
  return {
    color := ← r.required "color" Rgba.read
    opacity := ← r.field "opacity" asReal 1
    visible := ← r.field "visible" asBool true
    bound := ← r.field "boundVariables" BoundVariables.read {} }

end SolidPaint

namespace ImagePaint

def read : Reader ImagePaint := fun levels j => do
  let r ← record? [["imageHash"], ["scaleMode"], ["visible"]] levels j
  return {
    imageHash := ← r.field "imageHash" (optional asText) none
    scaleMode := ← r.field "scaleMode" (optional asText) none
    visible := ← r.field "visible" asBool true }

end ImagePaint

namespace ColorStop

def read : Reader ColorStop := fun levels j => do
  let r ← record? [["position"], ["color"], ["boundVariables"]] levels j
  return {
    position := ← r.required "position" asReal
    color := ← r.required "color" Rgba.read
    bound := ← r.field "boundVariables" BoundVariables.read {} }

end ColorStop

namespace Affine

def read : Reader Affine := fun levels j => do
  match ← asListOf 2 (asListOf 3 asReal) levels j with
  | [[xx, xy, x], [yx, yy, y]] => some ⟨xx, xy, x, yx, yy, y⟩
  | _ => none

end Affine

namespace GradientPaint

def read : Reader GradientPaint := fun levels j => do
  let r ← record? [["gradientStops"], ["gradientTransform"], ["opacity"], ["visible"]] levels j
  return {
    stops := ← r.field "gradientStops" (asList ColorStop.read) []
    transform := ← r.field "gradientTransform" Affine.read {}
    opacity := ← r.field "opacity" asReal 1
    visible := ← r.field "visible" asBool true }

end GradientPaint

namespace Paint

/-- The paint of a type, from its other fields. -/
def ofType (type : String) : Reader Paint := fun levels j =>
  match type with
  | "SOLID" => (SolidPaint.read levels j).map .solid
  | "IMAGE" => (ImagePaint.read levels j).map .image
  | "GRADIENT_LINEAR" => (GradientPaint.read levels j).map .gradient
  | _ => some .unsupported

def read : Reader Paint := fun levels j =>
  if !j.readable levels then none
  else match j with
    | .object members =>
      match members.filter (·.1 == "type") with
      | [(_, .text type)] => ofType type levels (.object (members.filter (·.1 != "type")))
      | _ => none
    | .list (.text type :: rest) => ofType type levels (.list rest)
    | _ => none

end Paint

namespace FontName

def read : Reader FontName := fun levels j => do
  let r ← record? [["family"], ["style"]] levels j
  return { family := ← r.required "family" asText, style := ← r.field "style" asText "" }

end FontName

namespace SpacingValue

def read : Reader SpacingValue := fun levels j => do
  let r ← record? [["value"], ["unit"]] levels j
  return {
    value := ← r.field "value" asReal 0
    unit := ← r.field "unit" (choice SpacingUnit.names) .pixels }

end SpacingValue

namespace StyledText

def read : Reader StyledText := fun levels j => do
  let r ← record? [["characters"], ["fontSize"], ["fontName"], ["fontWeight"],
    ["textDecoration"], ["textCase"], ["letterSpacing"], ["lineHeight"], ["fills"],
    ["openTypeFeatures"]] levels j
  return {
    characters := ← r.field "characters" asText ""
    fontSize := ← r.field "fontSize" (optional asReal) none
    fontName := ← r.field "fontName" (optional FontName.read) none
    fontWeight := ← r.field "fontWeight" (optional (asNat 65535)) none
    decoration := ← r.field "textDecoration" (choice TextDecoration.names) .none
    textCase := ← r.field "textCase" (choice TextCase.names) .asTyped
    letterSpacing := ← r.field "letterSpacing" (optional SpacingValue.read) none
    lineHeight := ← r.field "lineHeight" (optional SpacingValue.read) none
    fills := ← r.field "fills" (asList Paint.read) []
    features := ← r.field "openTypeFeatures" (asMap asBool) [] }

end StyledText

namespace Layer

/-- The fields of a layer in their order; the last one holds the layers inside. -/
def fields : List (List String) :=
  [["id"], ["name"], ["type"], ["visible"], ["x"], ["y"], ["width"], ["height"], ["rotation"],
    ["opacity"], ["fills"], ["strokes"], ["strokeWeight"], ["cornerRadius"], ["topLeftRadius"],
    ["topRightRadius"], ["bottomRightRadius"], ["bottomLeftRadius"], ["clipsContent"],
    ["layoutMode"], ["primaryAxisAlignItems"], ["counterAxisAlignItems"], ["itemSpacing"],
    ["paddingLeft"], ["paddingRight"], ["paddingTop"], ["paddingBottom"], ["layoutWrap"],
    ["layoutPositioning"], ["layoutSizingHorizontal"], ["layoutSizingVertical"], ["characters"],
    ["textSegments"], ["textAlignHorizontal"], ["textAlignVertical"], ["textAutoResize"],
    ["children"]]

def ofRecord (r : Record) : Option Layer := do
  return {
    id := ← r.field "id" asText ""
    name := ← r.field "name" asText ""
    type := ← r.field "type" asText ""
    visible := ← r.field "visible" asBool true
    x := ← r.field "x" asReal 0
    y := ← r.field "y" asReal 0
    width := ← r.field "width" asReal 0
    height := ← r.field "height" asReal 0
    rotation := ← r.field "rotation" asReal 0
    opacity := ← r.field "opacity" asReal 1
    fills := ← r.field "fills" (asList Paint.read) []
    strokes := ← r.field "strokes" (asList Paint.read) []
    strokeWeight := ← r.field "strokeWeight" asReal 0
    cornerRadius := ← r.field "cornerRadius" asReal 0
    topLeftRadius := ← r.field "topLeftRadius" (optional asReal) none
    topRightRadius := ← r.field "topRightRadius" (optional asReal) none
    bottomRightRadius := ← r.field "bottomRightRadius" (optional asReal) none
    bottomLeftRadius := ← r.field "bottomLeftRadius" (optional asReal) none
    clipsContent := ← r.field "clipsContent" asBool false
    layoutMode := ← r.field "layoutMode" (choice LayoutMode.names) .none
    primaryAlign := ← r.field "primaryAxisAlignItems" (choice AxisAlign.names) .min
    counterAlign := ← r.field "counterAxisAlignItems" (choice AxisAlign.names) .min
    itemSpacing := ← r.field "itemSpacing" asReal 0
    paddingLeft := ← r.field "paddingLeft" asReal 0
    paddingRight := ← r.field "paddingRight" asReal 0
    paddingTop := ← r.field "paddingTop" asReal 0
    paddingBottom := ← r.field "paddingBottom" asReal 0
    wrap := ← r.field "layoutWrap" (choice LayoutWrap.names) .noWrap
    positioning := ← r.field "layoutPositioning" (choice LayoutPositioning.names) .auto
    horizontalSizing := ← r.field "layoutSizingHorizontal" (choice LayoutSizing.names) .fixed
    verticalSizing := ← r.field "layoutSizingVertical" (choice LayoutSizing.names) .fixed
    characters := ← r.field "characters" (optional asText) none
    segments := ← r.field "textSegments" (asList StyledText.read) []
    alignHorizontal := ← r.field "textAlignHorizontal" (choice TextAlignHorizontal.names) .left
    alignVertical := ← r.field "textAlignVertical" (choice TextAlignVertical.names) .top
    autoResize := ← r.field "textAutoResize" (choice TextAutoResize.names) .none }

end Layer

namespace Scene

/-- A scene takes two levels for each generation: one for the layer and one for the list of
layers inside it. -/
def read : Reader Scene
  | 0, _ => none
  | levels + 1, j => do
    let r ← record? Layer.fields (levels + 1) j
    let layer ← Layer.ofRecord r
    match r.present.lookup "children" with
    | none => some (.node layer [])
    | some (.list items) =>
      match levels with
      | 0 => none
      | below + 1 => (items.mapM (read below)).map (.node layer)
    | some _ => none

end Scene

namespace Selection

def read : Reader Selection := asList Scene.read

/-- The selection of a JSON value, nested as deep as the value is. -/
def ofJson? (levels : Nat) (j : Json) : Option Selection := read levels j

end Selection

end Artboard
