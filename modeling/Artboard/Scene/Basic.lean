import Artboard.Color.Basic

/-!
# Scenes

A scene is a tree of layers as the design tool reports them. `Layer` holds what a layer says of
itself, with the values it has where the tool is silent; `Scene` adds the layers inside it.

Each set of words that the tool uses is an inductive type with `names`, the words as they are
written.
-/

namespace Artboard

/-! ## Words -/

inductive LayoutMode where
  | none
  | horizontal
  | vertical
deriving Repr, DecidableEq

def LayoutMode.names : List (String × LayoutMode) :=
  [("NONE", .none), ("HORIZONTAL", .horizontal), ("VERTICAL", .vertical)]

inductive AxisAlign where
  | min
  | center
  | max
  | spaceBetween
  | baseline
deriving Repr, DecidableEq

def AxisAlign.names : List (String × AxisAlign) :=
  [("MIN", .min), ("CENTER", .center), ("MAX", .max), ("SPACE_BETWEEN", .spaceBetween),
    ("BASELINE", .baseline)]

inductive LayoutWrap where
  | noWrap
  | wrap
deriving Repr, DecidableEq

def LayoutWrap.names : List (String × LayoutWrap) := [("NO_WRAP", .noWrap), ("WRAP", .wrap)]

inductive LayoutPositioning where
  | auto
  | absolute
deriving Repr, DecidableEq

def LayoutPositioning.names : List (String × LayoutPositioning) :=
  [("AUTO", .auto), ("ABSOLUTE", .absolute)]

inductive LayoutSizing where
  | fixed
  | hug
  | fill
deriving Repr, DecidableEq

def LayoutSizing.names : List (String × LayoutSizing) :=
  [("FIXED", .fixed), ("HUG", .hug), ("FILL", .fill)]

inductive TextAlignHorizontal where
  | left
  | center
  | right
  | justified
deriving Repr, DecidableEq

def TextAlignHorizontal.names : List (String × TextAlignHorizontal) :=
  [("LEFT", .left), ("CENTER", .center), ("RIGHT", .right), ("JUSTIFIED", .justified)]

inductive TextAlignVertical where
  | top
  | center
  | bottom
deriving Repr, DecidableEq

def TextAlignVertical.names : List (String × TextAlignVertical) :=
  [("TOP", .top), ("CENTER", .center), ("BOTTOM", .bottom)]

inductive TextAutoResize where
  | none
  | height
  | widthAndHeight
  | truncate
deriving Repr, DecidableEq

def TextAutoResize.names : List (String × TextAutoResize) :=
  [("NONE", .none), ("HEIGHT", .height), ("WIDTH_AND_HEIGHT", .widthAndHeight),
    ("TRUNCATE", .truncate)]

inductive TextDecoration where
  | none
  | underline
  | strikethrough
deriving Repr, DecidableEq

def TextDecoration.names : List (String × TextDecoration) :=
  [("NONE", .none), ("UNDERLINE", .underline), ("STRIKETHROUGH", .strikethrough)]

inductive TextCase where
  | asTyped
  | upper
  | lower
  | title
  | smallCaps
  | smallCapsForced
deriving Repr, DecidableEq

def TextCase.names : List (String × TextCase) :=
  [("ORIGINAL", .asTyped), ("UPPER", .upper), ("LOWER", .lower), ("TITLE", .title),
    ("SMALL_CAPS", .smallCaps), ("SMALL_CAPS_FORCED", .smallCapsForced)]

inductive SpacingUnit where
  | pixels
  | percent
  | auto
deriving Repr, DecidableEq

def SpacingUnit.names : List (String × SpacingUnit) :=
  [("PIXELS", .pixels), ("PERCENT", .percent), ("AUTO", .auto)]

/-! ## Paints -/

/-- The colour variables that a paint or a gradient stop is bound to. -/
structure BoundVariables where
  color : Option String := none
deriving Repr, DecidableEq

structure SolidPaint where
  color : Rgba
  opacity : Float := 1
  visible : Bool := true
  bound : BoundVariables := {}
deriving Repr, DecidableEq

structure ImagePaint where
  imageHash : Option String := none
  scaleMode : Option String := none
  visible : Bool := true
deriving Repr, DecidableEq

structure ColorStop where
  position : Float
  color : Rgba
  bound : BoundVariables := {}
deriving Repr, DecidableEq

/-- An affine map of the plane by its two rows. -/
structure Affine where
  xx : Float := 1
  xy : Float := 0
  x : Float := 0
  yx : Float := 0
  yy : Float := 1
  y : Float := 0
deriving Repr, DecidableEq

structure GradientPaint where
  stops : List ColorStop := []
  transform : Affine := {}
  opacity : Float := 1
  visible : Bool := true
deriving Repr, DecidableEq

/-- One layer of paint. -/
inductive Paint where
  | solid (paint : SolidPaint)
  | image (paint : ImagePaint)
  | gradient (paint : GradientPaint)
  /-- A kind of paint that is not drawn. -/
  | unsupported
deriving Repr, DecidableEq

namespace Paint

def isVisible : Paint → Bool
  | .solid p => p.visible && 0 < p.opacity
  | .image p => p.visible
  | .gradient p => p.visible
  | .unsupported => false

end Paint

/-! ## Text -/

structure FontName where
  family : String
  style : String := ""
deriving Repr, DecidableEq

structure SpacingValue where
  value : Float := 0
  unit : SpacingUnit := .pixels
deriving Repr, DecidableEq

/-- Characters that share one style. -/
structure StyledText where
  characters : String := ""
  fontSize : Option Float := none
  fontName : Option FontName := none
  fontWeight : Option Nat := none
  decoration : TextDecoration := .none
  textCase : TextCase := .asTyped
  letterSpacing : Option SpacingValue := none
  lineHeight : Option SpacingValue := none
  fills : List Paint := []
  /-- OpenType features by their names. -/
  features : List (String × Bool) := []
deriving Repr, DecidableEq

/-! ## Layers -/

/-- What a layer says of itself. -/
structure Layer where
  id : String := ""
  name : String := ""
  /-- The tool's own word for what the layer is. -/
  type : String := ""
  visible : Bool := true
  x : Float := 0
  y : Float := 0
  width : Float := 0
  height : Float := 0
  rotation : Float := 0
  opacity : Float := 1
  fills : List Paint := []
  strokes : List Paint := []
  strokeWeight : Float := 0
  cornerRadius : Float := 0
  topLeftRadius : Option Float := none
  topRightRadius : Option Float := none
  bottomRightRadius : Option Float := none
  bottomLeftRadius : Option Float := none
  clipsContent : Bool := false
  layoutMode : LayoutMode := .none
  primaryAlign : AxisAlign := .min
  counterAlign : AxisAlign := .min
  itemSpacing : Float := 0
  paddingLeft : Float := 0
  paddingRight : Float := 0
  paddingTop : Float := 0
  paddingBottom : Float := 0
  wrap : LayoutWrap := .noWrap
  positioning : LayoutPositioning := .auto
  horizontalSizing : LayoutSizing := .fixed
  verticalSizing : LayoutSizing := .fixed
  characters : Option String := none
  segments : List StyledText := []
  alignHorizontal : TextAlignHorizontal := .left
  alignVertical : TextAlignVertical := .top
  autoResize : TextAutoResize := .none
deriving Repr, DecidableEq

/-- A layer and the layers inside it. -/
inductive Scene where
  | node (layer : Layer) (children : List Scene)
deriving Repr

namespace Scene

def layer : Scene → Layer
  | .node layer _ => layer

def children : Scene → List Scene
  | .node _ children => children

/-- An empty layer named after its id. -/
def ofType (id type : String) : Scene := .node { id, name := id, type } []

end Scene

/-- The layers that a conversion starts from. -/
abbrev Selection := List Scene

end Artboard
