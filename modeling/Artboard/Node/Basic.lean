import Artboard.Geometry.Rect
import Artboard.Scene.Basic
import Artboard.Scene.LayerTag

/-!
# Nodes

A node is a layer made ready for drawing: its tag is read, its fills are the visible ones with
opacity folded into the colours and variables resolved, and its place is relative to the node
around it.

**Places** (`Coordinate`). A coordinate keeps both the position that the design tool reports and
the origin it is measured from, so that its exact value is known; what is drawn is the rounded
difference.

**Addresses.** A node remembers the positions of its layer and of all layers around it in their
lists. Two nodes of one tree never have the same address, even where ids repeat.
-/

namespace Artboard

/-! ## Geometry -/

/-- A position and the origin it is measured from. -/
structure Coordinate where
  host : Float
  origin : Float
deriving Repr, DecidableEq

namespace Coordinate

def value (c : Coordinate) : Float := c.host - c.origin

end Coordinate

structure Geometry where
  x : Coordinate
  y : Coordinate
  width : Float
  height : Float
  rotation : Float
deriving Repr, DecidableEq

namespace Geometry

def rect (g : Geometry) : Rect := ⟨g.x.value, g.y.value, g.width, g.height⟩

def isFinite (g : Geometry) : Bool := g.rect.isFinite && g.rotation.isFinite

end Geometry

/-! ## Paint -/

/-- A colour with opacity folded in, and the variable it comes from. -/
structure SolidFill where
  color : Rgba
  token : Option String
deriving Repr, DecidableEq

structure GradientStop where
  position : Float
  fill : SolidFill
deriving Repr, DecidableEq

structure LinearGradient where
  /-- In degrees; 0 points to the right and 90 down. -/
  angle : Float
  stops : List GradientStop
deriving Repr, DecidableEq

inductive Fill where
  | solid (fill : SolidFill)
  | image (hash : Option String)
  | gradient (gradient : LinearGradient)
deriving Repr, DecidableEq

namespace Fill

def isImage : Fill → Bool
  | .image _ => true
  | _ => false

def solid? : Fill → Option SolidFill
  | .solid fill => some fill
  | _ => none

/-- The colours of a fill. -/
def colors : Fill → List SolidFill
  | .solid fill => [fill]
  | .image _ => []
  | .gradient g => g.stops.map (·.fill)

end Fill

structure CornerRadii where
  topLeft : Float
  topRight : Float
  bottomRight : Float
  bottomLeft : Float
deriving Repr, DecidableEq

namespace CornerRadii

/-- The radius of all four corners, if they agree. -/
def uniform? (c : CornerRadii) : Option Float :=
  let r := c.topLeft
  if c.topRight == r && c.bottomRight == r && c.bottomLeft == r then some r else none

end CornerRadii

/-! ## Layout -/

inductive Direction where
  | row
  | column
deriving Repr, DecidableEq

structure Padding where
  top : Float
  right : Float
  bottom : Float
  left : Float
deriving Repr, DecidableEq

/-- How a node lays out its children itself. -/
structure AutoLayout where
  direction : Direction
  primary : AxisAlign
  counter : AxisAlign
  gap : Float
  padding : Padding
  wrap : Bool
deriving Repr, DecidableEq

/-- How a node sits inside the node around it. -/
structure Placement where
  /-- By coordinates, although the parent lays out its children. -/
  absolute : Bool
  horizontal : LayoutSizing
  vertical : LayoutSizing
deriving Repr, DecidableEq

/-! ## Text -/

/-- The style of a run of text; what the design tool does not report is absent. -/
structure RunStyle where
  fontSize : Option Float := none
  fontFamily : Option String := none
  fontWeight : Option Nat := none
  italic : Bool := false
  decoration : TextDecoration := .none
  textCase : TextCase := .asTyped
  letterSpacing : Option SpacingValue := none
  lineHeight : Option SpacingValue := none
  color : Option SolidFill := none
  subscript : Bool := false
  superscript : Bool := false
deriving Repr, DecidableEq

/-- Both absent, or both present and in the relation. -/
def bothOr {α : Type} (same : α → α → Bool) : Option α → Option α → Bool
  | none, none => true
  | some a, some b => same a b
  | _, _ => false

def SpacingValue.same (a b : SpacingValue) : Bool := a.value == b.value && a.unit = b.unit

def SolidFill.same (a b : SolidFill) : Bool := a.color.equal b.color && a.token = b.token

namespace RunStyle

/-- Whether two styles are equal, comparing numbers by value. -/
def same (a b : RunStyle) : Bool :=
  bothOr (fun x y => x == y) a.fontSize b.fontSize && a.fontFamily = b.fontFamily &&
    a.fontWeight = b.fontWeight && a.italic = b.italic && a.decoration = b.decoration &&
    a.textCase = b.textCase && bothOr SpacingValue.same a.letterSpacing b.letterSpacing &&
    bothOr SpacingValue.same a.lineHeight b.lineHeight && bothOr SolidFill.same a.color b.color &&
    a.subscript = b.subscript && a.superscript = b.superscript

end RunStyle

structure TextRun where
  text : String
  style : RunStyle
deriving Repr, DecidableEq

structure TextContent where
  characters : String := ""
  runs : List TextRun := []
  alignHorizontal : TextAlignHorizontal := .left
  alignVertical : TextAlignVertical := .top
  autoResize : TextAutoResize := .none
deriving Repr, DecidableEq

/-! ## Nodes -/

inductive NodeKind where
  | rectangle
  | ellipse
  | group
  | frame
  | text (content : TextContent)
  | line
  | section
  | vector
  /-- A kind that is not drawn, by the tool's word for it. -/
  | unsupported (type : String)
deriving Repr, DecidableEq

namespace NodeKind

/-- The kind for the tool's word, text still without its content. -/
def ofType : String → NodeKind
  | "RECTANGLE" => .rectangle
  | "ELLIPSE" => .ellipse
  | "GROUP" => .group
  | "FRAME" | "COMPONENT" | "INSTANCE" | "COMPONENT_SET" => .frame
  | "TEXT" => .text {}
  | "LINE" => .line
  | "SECTION" => .section
  | "VECTOR" | "STAR" | "POLYGON" | "BOOLEAN_OPERATION" => .vector
  | type => .unsupported type

def text? : NodeKind → Option TextContent
  | .text content => some content
  | _ => none

/-- Whether the layers inside are never looked at. -/
def isLeaf : NodeKind → Bool
  | .text _ | .line | .unsupported _ => true
  | _ => false

end NodeKind

/-- A vector that was drawn beforehand. -/
inductive Artifact where
  | svg (markup : String)
  | remote (url : String)
deriving Repr, DecidableEq

/-- The positions, in their lists, of a layer and of the layers around it, outermost first. -/
abbrev Address := List Nat

/-- A layer ready for drawing, without the nodes inside it. -/
structure Item where
  address : Address
  id : String
  name : String
  kind : NodeKind
  geometry : Geometry
  visible : Bool
  tag : LayerTag
  /-- Visible fills, the lowest first. -/
  fills : List Fill
  strokes : List Fill
  strokeWeight : Float
  corners : CornerRadii
  opacity : Float
  clipsContent : Bool
  layout : Option AutoLayout
  placement : Placement
  artifact : Option Artifact
deriving Repr, DecidableEq

namespace Item

def hasImageFill (i : Item) : Bool := i.fills.any Fill.isImage

end Item

inductive Node where
  | node (item : Item) (children : List Node)
deriving Repr

namespace Node

def item : Node → Item
  | .node item _ => item

def children : Node → List Node
  | .node _ children => children

def isPrompt (n : Node) : Bool := n.item.tag.isPrompt

/-! ## Traversal -/

mutual

/-- The items of a tree, each before those inside it. -/
def items : Node → List Item
  | .node item children => item :: itemsOfAll children

def itemsOfAll : List Node → List Item
  | [] => []
  | n :: rest => n.items ++ itemsOfAll rest

end

mutual

/-- The tree without the instructions inside it. -/
def withoutPrompts : Node → Node
  | .node item children => .node item (dropPrompts children)

/-- The trees that are not instructions, without the instructions inside them. -/
def dropPrompts : List Node → List Node
  | [] => []
  | n :: rest => if n.isPrompt then dropPrompts rest else n.withoutPrompts :: dropPrompts rest

end

end Node

end Artboard
