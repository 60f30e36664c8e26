import Artboard.Style.Utility

/-!
# Position, size and layout

**Position.** A node is placed by coordinates if the node around it does not lay out its children,
or if the node opts out of that. Roots of the selection never are.

**Size.** Each axis is fixed, hugs its content, or fills the parent. Text that resizes itself and
lines have no size on the axes they determine themselves.

**Padding** is written with as few utilities as possible: one for all sides, one for each axis, or
one for each side.
-/

namespace Artboard

/-- What a node must know of the element around it. -/
structure ParentContext where
  layout : Option AutoLayout := none
  isRoot : Bool := false
deriving Repr, DecidableEq

namespace ParentContext

/-- Roots of the selection have no parent. -/
def root : ParentContext := { isRoot := true }

/-- The context of the nodes inside a node. -/
def inside (item : Item) : ParentContext := { layout := item.layout }

end ParentContext

namespace Style

/-- Whether a node is placed by coordinates. -/
def isAbsolute (item : Item) (parent : ParentContext) : Bool :=
  !parent.isRoot && (parent.layout.isNone || item.placement.absolute)

/-- Whether any node inside is placed by coordinates. -/
def hasAbsoluteChildren (item : Item) (children : List Node) : Bool :=
  children.any fun child => isAbsolute child.item (.inside item)

/-! ## Position and size -/

def position (item : Item) (parent : ParentContext) : List Utility :=
  if isAbsolute item parent then
    [.keyword .absolute, .offset .left item.geometry.x, .offset .top item.geometry.y]
  else []

/-- Whether the width is the element's own affair. -/
def hasWidth (kind : NodeKind) : Bool :=
  match kind.text? with
  | some content => content.autoResize ≠ .widthAndHeight
  | none => true

def hasHeight (kind : NodeKind) : Bool :=
  match kind with
  | .text content => content.autoResize ≠ .widthAndHeight && content.autoResize ≠ .height
  | .line => false
  | _ => true

def fullAxis : Direction → Keyword
  | .row => .fullWidth
  | .column => .fullHeight

def axisExtent : Direction → Extent
  | .row => .width
  | .column => .height

/-- The size along one axis. -/
def axisSize (sizing : LayoutSizing) (axis : Direction) (x : Float) (parent : ParentContext) :
    List Utility :=
  match sizing, parent.layout with
  | .hug, _ => []
  | .fill, some layout =>
    if layout.direction = axis then [.keyword .grow] else [.keyword (fullAxis axis)]
  | _, _ => [.length (axisExtent axis) (Number.greatest x 0)]

def size (item : Item) (parent : ParentContext) : List Utility :=
  (if hasWidth item.kind then
    axisSize item.placement.horizontal .row item.geometry.width parent else []) ++
  (if hasHeight item.kind then
    axisSize item.placement.vertical .column item.geometry.height parent else [])

/-! ## Layout of children -/

def primaryAlign : AxisAlign → List Utility
  | .center => [.keyword .justifyCenter]
  | .max => [.keyword .justifyEnd]
  | .spaceBetween => [.keyword .justifyBetween]
  | .min | .baseline => []

def counterAlign : AxisAlign → List Utility
  | .min => [.keyword .itemsStart]
  | .center => [.keyword .itemsCenter]
  | .max => [.keyword .itemsEnd]
  | .baseline => [.keyword .itemsBaseline]
  | .spaceBetween => []

/-- A length, if it is positive. -/
def positive (extent : Extent) (x : Float) : List Utility := if 0 < x then [.length extent x] else []

def padding (p : Padding) : List Utility :=
  if p.top == p.bottom && p.left == p.right then
    if p.top == p.left then positive .padding p.top
    else positive .paddingX p.left ++ positive .paddingY p.top
  else
    positive .paddingTop p.top ++ positive .paddingRight p.right ++
      positive .paddingBottom p.bottom ++ positive .paddingLeft p.left

def autoLayout (l : AutoLayout) : List Utility :=
  .keyword .flex :: (if l.direction = .column then [.keyword .flexColumn] else []) ++
    (if l.wrap then [.keyword .flexWrap] else []) ++
    primaryAlign l.primary ++ counterAlign l.counter ++
    (if l.primary ≠ .spaceBetween then positive .gap l.gap else []) ++ padding l.padding

/-- The layout of a node's children: by itself, and as the frame of their coordinates. -/
def childLayout (item : Item) (children : List Node) : List Utility :=
  (match item.layout with
    | some l => autoLayout l
    | none => []) ++
  (if hasAbsoluteChildren item children then [.keyword .relative] else [])

end Style

end Artboard
