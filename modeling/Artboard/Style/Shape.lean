import Artboard.Style.Utility

/-!
# Paint and effects

Only the topmost fill and the topmost stroke are drawn. An image fill is left to the emission,
which has to fetch it first.
-/

namespace Artboard.Style

/-! ## Background -/

/-- The first stop, the middle one of more than two, and the last stop. -/
def gradientColors (stops : List GradientStop) : List Utility :=
  match stops.head?, stops.getLast? with
  | some first, some last =>
    .color .gradientFrom first.fill ::
      (if 2 < stops.length then
        (stops[stops.length / 2]?.map fun stop => Utility.color .gradientVia stop.fill).toList
      else []) ++
      [.color .gradientTo last.fill]
  | _, _ => []

def gradient (g : LinearGradient) : List Utility :=
  if g.stops.isEmpty then [] else .gradient g.angle :: gradientColors g.stops

/-- The topmost fill. -/
def background (fills : List Fill) : List Utility :=
  match fills.getLast? with
  | some (.solid fill) => [.color .background fill]
  | some (.gradient g) => gradient g
  | some (.image _) | none => []

/-! ## Corners and borders -/

/-- The radius of a corner, if it is positive. -/
def roundedCorner (corner : Corner) (x : Float) : List Utility :=
  if 0 < x then [.cornerRadius corner x] else []

def corners (item : Item) : List Utility :=
  match item.kind with
  | .ellipse => [.keyword .roundedFull]
  | _ =>
    let c := item.corners
    match c.uniform? with
    | some x => if 0 < x then [.radius x] else []
    | none =>
      roundedCorner .topLeft c.topLeft ++ roundedCorner .topRight c.topRight ++
        roundedCorner .bottomRight c.bottomRight ++ roundedCorner .bottomLeft c.bottomLeft

def borderSide : NodeKind → BorderSide
  | .line => .top
  | _ => .all

/-- A border in the colour of the topmost stroke, if that is a solid one of positive width. -/
def stroke (item : Item) : List Utility :=
  match item.strokes.getLast? with
  | some (.solid fill) =>
    if item.strokeWeight ≤ 0 then []
    else [.border (borderSide item.kind) item.strokeWeight, .color .border fill]
  | _ => []

/-- Background, corners and border. -/
def paint (item : Item) : List Utility := background item.fills ++ corners item ++ stroke item

/-! ## Effects -/

/-- Opacity, rotation and clipping. The design tool turns counter-clockwise. -/
def effects (item : Item) (children : List Node) : List Utility :=
  let rotation := item.geometry.rotation
  (if item.opacity < 1 then [.opacity (Number.greatest item.opacity 0)] else []) ++
    (if 0.01 ≤ rotation.abs then [.rotation (-rotation)] else []) ++
    (if item.clipsContent && !children.isEmpty then [.keyword .clip] else [])

end Artboard.Style
