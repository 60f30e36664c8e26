import Artboard.Conversion.Plan
import Artboard.Text.Ascii
import Artboard.Text.Lowercase

/-!
# From scenes to nodes

Each layer is read into an item, in the order of the document; then the layers inside it are,
unless nothing of them can be drawn: ignored layers, instructions, texts, lines, unsupported
layers, and vectors that were drawn as a whole.

**Hidden layers** leave no node, except instructions.

**Siblings** are read side by side (`convertPlan`). `convert` is the same with one sibling after
the other.

**Faults.** Geometry that is not finite and nesting beyond `maxDepth` end the conversion. All
siblings are read before the first fault among them is reported.

**Places.** The design tool reports the layers of a group in the space around the group, so they
are measured from the group's own corner; all others are measured from their parent already.
-/

namespace Artboard

open Text (Bytes)

/-- Why a scene cannot be converted. -/
inductive NormalizeError where
  | invalidGeometry (id : String)
  | tooDeep (id : String)
deriving Repr, DecidableEq

/-- The deepest nesting that is accepted, roots having depth zero. -/
def maxDepth : Nat := 256

def NormalizeError.message : NormalizeError → String
  | .invalidGeometry id => s!"Node '{id}' has non-finite geometry"
  | .tooDeep id => s!"Node '{id}' is nested deeper than {maxDepth} levels"

/-! ## Reading single values -/

/-- A variable's name as part of a class: `Brand/Primary 500` gives `brand-primary-500`. -/
def variableToken (name : String) : String :=
  let fields := Text.fieldsOf (fun c => Text.isBlank c || c == '/') name.toList
  String.ofList (Text.lowercase (Text.joinWith ['-'] fields))

/-- The direction of a gradient in degrees, from 0 up to 360. -/
def gradientAngle (t : Affine) : Float :=
  let degrees := Float.atan2 t.yx t.xx * 57.29577951308232
  if degrees < 0 then degrees + 360 else degrees

namespace Layer

def corners (l : Layer) : CornerRadii :=
  ⟨l.topLeftRadius.getD l.cornerRadius, l.topRightRadius.getD l.cornerRadius,
    l.bottomRightRadius.getD l.cornerRadius, l.bottomLeftRadius.getD l.cornerRadius⟩

def layoutDirection? (l : Layer) : Option Direction :=
  match l.layoutMode with
  | .none => none
  | .horizontal => some .row
  | .vertical => some .column

def autoLayout? (l : Layer) : Option AutoLayout :=
  l.layoutDirection?.map fun direction => {
    direction
    primary := l.primaryAlign
    counter := l.counterAlign
    gap := l.itemSpacing
    padding := ⟨l.paddingTop, l.paddingRight, l.paddingBottom, l.paddingLeft⟩
    wrap := l.wrap = .wrap }

def placement (l : Layer) : Placement :=
  ⟨l.positioning = .absolute, l.horizontalSizing, l.verticalSizing⟩

end Layer

/-! ## Values with warnings -/

/-- A value, and the warnings that came up on the way to it. -/
structure Warned (α : Type) where
  value : α
  warnings : List String := []
deriving Repr

namespace Warned

def map {α β : Type} (f : α → β) (a : Warned α) : Warned β := ⟨f a.value, a.warnings⟩

/-- All values in order, with their warnings in order. -/
def all {α β : Type} (f : α → Warned β) (items : List α) : Warned (List β) :=
  let results := items.map f
  ⟨results.map (·.value), results.flatMap (·.warnings)⟩

end Warned

/-- What normalization looks up. -/
structure NormalizeContext where
  settings : Settings
  host : Host
  assets : AssetSource

namespace NormalizeContext

variable (cx : NormalizeContext)

/-- A colour that may be bound to a variable. -/
def solidFill (color : Rgba) (bound : BoundVariables) : Warned SolidFill :=
  match bound.color, cx.settings.useColorVariables with
  | some id, true =>
    match cx.host.variableName id with
    | some name => ⟨⟨color, some (variableToken name)⟩, []⟩
    | none =>
      ⟨⟨color, none⟩,
        [s!"Color variable \"{id}\" could not be resolved; using the literal color"]⟩
  | _, _ => ⟨⟨color, none⟩, []⟩

def gradientStop (opacity : Float) (stop : ColorStop) : Warned GradientStop :=
  (cx.solidFill (stop.color.fade opacity) stop.bound).map fun fill => ⟨stop.position, fill⟩

/-- The fill of a visible paint. -/
def fill? (paint : Paint) : Warned (Option Fill) :=
  match paint with
  | .solid p => (cx.solidFill (p.color.fade p.opacity) p.bound).map fun fill => some (.solid fill)
  | .image p => ⟨some (.image p.imageHash), []⟩
  | .gradient p =>
    (Warned.all (cx.gradientStop p.opacity) p.stops).map fun stops =>
      some (.gradient ⟨gradientAngle p.transform, stops⟩)
  | .unsupported => ⟨none, []⟩

/-- The fills of the visible paints. -/
def fills (paints : List Paint) : Warned (List Fill) :=
  (Warned.all cx.fill? (paints.filter Paint.isVisible)).map fun fills => fills.filterMap id

/-! ## Text -/

/-- The topmost solid colour. -/
def textColor (paints : List Paint) : Warned (Option SolidFill) :=
  (cx.fills paints).map fun fills => (fills.filterMap Fill.solid?).getLast?

/-- Whether a font style says that letters slant. -/
def isItalic (font : FontName) : Bool :=
  Text.occurs "italic".toList (Text.asciiSmall font.style).toList

def runOf (inherited : Option SolidFill) (text : StyledText) : Warned TextRun :=
  let color : Warned (Option SolidFill) :=
    if text.fills.isEmpty then ⟨inherited, []⟩ else cx.textColor text.fills
  color.map fun color => {
    text := text.characters
    style := {
      fontSize := text.fontSize
      fontFamily := text.fontName.map (·.family)
      fontWeight := text.fontWeight
      italic := text.fontName.any isItalic
      decoration := text.decoration
      textCase := text.textCase
      letterSpacing := text.letterSpacing
      lineHeight := text.lineHeight
      color
      subscript := (text.features.lookup "SUBS").getD false
      superscript := (text.features.lookup "SUPS").getD false } }

/-- The text of a layer. Characters without segments are one run. -/
def textContent (l : Layer) : Warned TextContent :=
  let inherited := cx.textColor l.fills
  let characters := l.characters.getD ""
  let runs : Warned (List TextRun) :=
    if l.segments.isEmpty then ⟨[⟨characters, { color := inherited.value }⟩], []⟩
    else Warned.all (cx.runOf inherited.value) l.segments
  ⟨⟨characters, runs.value, l.alignHorizontal, l.alignVertical, l.autoResize⟩,
    inherited.warnings ++ runs.warnings⟩

/-- The kind of a layer, with the content of a text. -/
def kindOf (l : Layer) : Warned NodeKind :=
  match NodeKind.ofType l.type with
  | .text _ => (cx.textContent l).map .text
  | kind => ⟨kind, []⟩

end NormalizeContext

/-! ## Tags -/

/-- The tag of a layer; an unknown one is reported and taken for none. -/
def Layer.tag (l : Layer) : Warned LayerTag :=
  match LayerTag.ofName l.name with
  | .ok tag => ⟨tag, []⟩
  | .error unknown =>
    ⟨.none, [s!"{unknown.message} on layer \"{l.name}\"; treated as a regular layer"]⟩

namespace Scene

mutual

/-- The first text that is not blank, a layer before the layers inside it. -/
def firstText : Scene → Option String
  | .node layer children =>
    match layer.characters with
    | some text => if Text.allBlank text.toList then firstTextOf children else some text
    | none => firstTextOf children

def firstTextOf : List Scene → Option String
  | [] => none
  | s :: rest =>
    match s.firstText with
    | some text => some text
    | none => firstTextOf rest

end

/-- The text of an instruction: the first text in the layer, else what its name says. -/
def instruction (s : Scene) (fromName : String) : String :=
  match s.firstText with
  | some text => Text.trimmed text
  | none => fromName

mutual

/-- Whether a layer is a vector, or a group or frame with visible layers that all are such. -/
def isFlattenable : Scene → Bool
  | .node layer children =>
    match NodeKind.ofType layer.type with
    | .vector => true
    | .group | .frame => anyVisible children && allFlattenable children
    | _ => false

def anyVisible : List Scene → Bool
  | [] => false
  | s :: rest => s.layer.visible || anyVisible rest

/-- Whether all visible ones among some layers are flattenable. -/
def allFlattenable : List Scene → Bool
  | [] => true
  | s :: rest => (!s.layer.visible || s.isFlattenable) && allFlattenable rest

end

end Scene

/-! ## Items -/

/-- The corner of the space that layers are reported in. -/
structure Origin where
  x : Float := 0
  y : Float := 0
deriving Repr, DecidableEq

def Layer.geometry (l : Layer) (origin : Origin) : Geometry :=
  ⟨⟨l.x, origin.x⟩, ⟨l.y, origin.y⟩, l.width, l.height, l.rotation⟩

namespace NormalizeContext

variable (cx : NormalizeContext)

/-- The item of a scene's own layer, with its warnings after those of the tag. -/
def item (s : Scene) (address : Address) (origin : Origin) : Warned Item :=
  let l := s.layer
  let tag := l.tag
  let kind := cx.kindOf l
  let fills := cx.fills l.fills
  let strokes := cx.fills l.strokes
  let item : Item := {
    address
    id := l.id
    name := l.name
    kind := kind.value
    geometry := l.geometry origin
    visible := l.visible
    tag := match tag.value with
      | .prompt fromName => .prompt (s.instruction fromName)
      | tag => tag
    fills := fills.value
    strokes := strokes.value
    strokeWeight := l.strokeWeight
    corners := l.corners
    opacity := l.opacity
    clipsContent := l.clipsContent
    layout := l.autoLayout?
    placement := l.placement
    artifact := none }
  ⟨item, tag.warnings ++ kind.warnings ++ fills.warnings ++ strokes.warnings⟩

/-- The layer as one vector, uploaded if the settings say so. -/
def artifactPlan (id : String) : Plan (Option Artifact) := do
  match ← Plan.errand (.ask ⟨id, .svg⟩) with
  | none => pure none
  | some bytes =>
    let inline := Artifact.svg (Text.decodeLossy bytes)
    let uploads := cx.settings.uploads
    if uploads.uploadsVectors then
      match ← Plan.errand (.address uploads .svg bytes) with
      | some url => pure (some (.remote url))
      | none => pure (some inline)
    else pure (some inline)

/-- Whether the layer is to be drawn as one vector. -/
def flattens (s : Scene) (item : Item) : Bool :=
  cx.settings.embedVectors && item.tag = .none && s.isFlattenable

/-- The vector that stands for the whole layer, if it is drawn as one and was exported. -/
def flattenedPlan (s : Scene) (item : Item) : Plan (Option Artifact) :=
  if cx.flattens s item then cx.artifactPlan item.id else pure none

/-- The fault of a layer by itself. -/
def fault? (l : Layer) (depth : Nat) (origin : Origin) : Option NormalizeError :=
  if maxDepth < depth then some (.tooDeep l.id)
  else if !(l.geometry origin).isFinite || !l.opacity.isFinite then some (.invalidGeometry l.id)
  else none

/-- Where the layers inside a layer are measured from. -/
def originInside (l : Layer) (kind : NodeKind) : Origin :=
  match kind with
  | .group => ⟨l.x, l.y⟩
  | _ => {}

/-- What came of one scene: a fault, no node, or a node with the warnings of its tree. -/
abbrev Converted := Except NormalizeError (Option (Warned Node))

/-- The nodes of siblings with all warnings, or the first fault. -/
def gather : List Converted → Except NormalizeError (Warned (List Node))
  | [] => .ok ⟨[], []⟩
  | first :: rest => do
    let node? ← first
    let others ← gather rest
    match node? with
    | none => .ok others
    | some node => .ok ⟨node.value :: others.value, node.warnings ++ others.warnings⟩

mutual

/-- The node of a scene. -/
def convertPlan (depth : Nat) (origin : Origin) (address : Address) (s : Scene) :
    Plan Converted :=
  match s with
  | .node l children =>
    match fault? l depth origin with
    | some fault => pure (.error fault)
    | none =>
      if !l.visible && !l.tag.value.isPrompt then pure (.ok none)
      else do
        let item := cx.item (.node l children) address origin
        if item.value.tag.isSuppressed || item.value.kind.isLeaf then
          pure (.ok (some ⟨.node item.value [], item.warnings⟩))
        else
          match ← cx.flattenedPlan (.node l children) item.value with
          | some artifact =>
            pure (.ok (some ⟨.node { item.value with artifact := some artifact } [], item.warnings⟩))
          | none =>
            let inside ←
              convertAllPlan (depth + 1) (originInside l item.value.kind) address 0 children
            pure ((gather inside).map fun inside =>
              some ⟨.node item.value inside.value, item.warnings ++ inside.warnings⟩)

/-- The nodes of siblings, the first of which stands at `position` in its list. -/
def convertAllPlan (depth : Nat) (origin : Origin) (parent : Address) (position : Nat) :
    List Scene → Plan (List Converted)
  | [] => pure []
  | s :: rest =>
    .both (convertPlan depth origin (parent ++ [position]) s)
      (convertAllPlan depth origin parent (position + 1) rest)
      fun first others => pure (first :: others)

end

/-- The nodes of a selection with all warnings. -/
def normalizePlan (selection : Selection) : Plan (Except NormalizeError (Warned (List Node))) := do
  let roots ← cx.convertAllPlan 0 {} [] 0 selection
  pure (gather roots)

/-! ## One after the other -/

def artifact (id : String) : Pass (Option Artifact) :=
  (cx.artifactPlan id).inOrder cx.host cx.assets

def flattened (s : Scene) (item : Item) : Pass (Option Artifact) :=
  (cx.flattenedPlan s item).inOrder cx.host cx.assets

def convert (depth : Nat) (origin : Origin) (address : Address) (s : Scene) : Pass Converted :=
  (cx.convertPlan depth origin address s).inOrder cx.host cx.assets

def convertAll (depth : Nat) (origin : Origin) (parent : Address) (position : Nat)
    (scenes : List Scene) : Pass (List Converted) :=
  (cx.convertAllPlan depth origin parent position scenes).inOrder cx.host cx.assets

def normalize (selection : Selection) : Pass (Except NormalizeError (Warned (List Node))) :=
  (cx.normalizePlan selection).inOrder cx.host cx.assets

theorem artifact_eq (id : String) : cx.artifact id = (do
    match ← Pass.ask cx.host ⟨id, .svg⟩ with
    | none => pure none
    | some bytes =>
      let inline := Artifact.svg (Text.decodeLossy bytes)
      let uploads := cx.settings.uploads
      if uploads.uploadsVectors then
        match ← cx.assets uploads .svg bytes with
        | some url => pure (some (.remote url))
        | none => pure (some inline)
      else pure (some inline)) := by
  rw [artifact, artifactPlan, Plan.inOrder_bind, Plan.inOrder_errand]
  refine bind_congr fun bytes => ?_
  cases bytes with
  | none => rfl
  | some bytes =>
    dsimp only
    split
    · rw [Plan.inOrder_bind, Plan.inOrder_errand]
      refine bind_congr fun url => ?_
      cases url <;> rfl
    · rfl

theorem flattened_eq (s : Scene) (item : Item) :
    cx.flattened s item = if cx.flattens s item then cx.artifact item.id else pure none := by
  rw [flattened, flattenedPlan]
  split <;> rfl

theorem convert_node (depth : Nat) (origin : Origin) (address : Address) (l : Layer)
    (children : List Scene) :
    cx.convert depth origin address (.node l children) =
      (match fault? l depth origin with
      | some fault => pure (.error fault)
      | none =>
        if !l.visible && !l.tag.value.isPrompt then pure (.ok none)
        else do
          let item := cx.item (.node l children) address origin
          if item.value.tag.isSuppressed || item.value.kind.isLeaf then
            pure (.ok (some ⟨.node item.value [], item.warnings⟩))
          else
            match ← cx.flattened (.node l children) item.value with
            | some artifact =>
              pure (.ok
                (some ⟨.node { item.value with artifact := some artifact } [], item.warnings⟩))
            | none =>
              let inside ←
                cx.convertAll (depth + 1) (originInside l item.value.kind) address 0 children
              pure ((gather inside).map fun inside =>
                some ⟨.node item.value inside.value, item.warnings ++ inside.warnings⟩)) := by
  rw [convert, convertPlan]
  cases fault? l depth origin with
  | some fault => rfl
  | none =>
    dsimp only
    split
    · rfl
    · split
      · rfl
      · rw [Plan.inOrder_bind]
        refine bind_congr fun artifact => ?_
        cases artifact with
        | some artifact => rfl
        | none => exact Plan.inOrder_bind _ _ _ _

theorem convertAll_nil (depth : Nat) (origin : Origin) (parent : Address) (position : Nat) :
    cx.convertAll depth origin parent position [] = pure [] := rfl

theorem convertAll_cons (depth : Nat) (origin : Origin) (parent : Address) (position : Nat)
    (s : Scene) (rest : List Scene) :
    cx.convertAll depth origin parent position (s :: rest) = (do
      let first ← cx.convert depth origin (parent ++ [position]) s
      let others ← cx.convertAll depth origin parent (position + 1) rest
      pure (first :: others)) := rfl

theorem normalize_eq (selection : Selection) : cx.normalize selection = (do
    let roots ← cx.convertAll 0 {} [] 0 selection
    pure (gather roots)) := Plan.inOrder_bind _ _ _ _

end NormalizeContext

end Artboard
