import Artboard.Conversion.Plan
import Artboard.Style.Layout
import Artboard.Style.Shape
import Artboard.Style.Typography
import Artboard.Text.Ascii

/-!
# From nodes to markup

Nodes are drawn after the nodes inside them, and siblings side by side (`emitPlan`); `emit` is the
same with one sibling after the other. Drawing never fails: what cannot be exported or uploaded is
replaced by a placeholder, and a warning says so.

**Tags first.** Ignored layers leave nothing, instructions become comments, and slots, lists,
canvases and static layers have elements of their own. Untagged nodes are drawn by their kind.

**Images.** The code uploads a bitmap, else embeds it, else shows a placeholder, as the settings
say. A live conversion embeds instead of uploading. The preview embeds what can be exported and
shows nothing else.

**Containers** of negative size, and groups without height, are left out while their children are
drawn in their place.
-/

namespace Artboard

open Text (Bytes)

/-! ## Fragments -/

/-- The classes of a segment of text. -/
structure TextStyle where
  text : String
  classes : List String
deriving Repr, DecidableEq

/-- What drawing some nodes gives. -/
structure Fragment where
  markup : List (Markup Style) := []
  warnings : List String := []
  textStyles : List TextStyle := []
deriving Repr

namespace Fragment

def append (a b : Fragment) : Fragment :=
  ⟨a.markup ++ b.markup, a.warnings ++ b.warnings, a.textStyles ++ b.textStyles⟩

/-- One piece of markup. -/
def ofMarkup (m : Markup Style) : Fragment := { markup := [m] }

end Fragment

/-! ## Images -/

/-- How bitmaps are shown. -/
inductive ImageMode where
  /-- Uploaded, else embedded, else a placeholder. -/
  | code
  /-- Embedded, else a placeholder. -/
  | live
  /-- Embedded or not at all. -/
  | preview
deriving Repr, DecidableEq

/-- Where an image comes from. -/
inductive ImageSource where
  | remote (url : String)
  | embedded (bytes : Bytes)
  | placeholder (width height : Float)
deriving Repr, DecidableEq

namespace ImageSource

/-- The address of an image. -/
def url : ImageSource → String
  | .remote url => url
  | .embedded bytes => dataUri bytes .png
  | .placeholder width height => placeholderUrl width height

end ImageSource

/-- What drawing looks up. -/
structure EmitContext where
  settings : Settings
  host : Host
  assets : AssetSource
  images : ImageMode

def placeholderWarning (name : String) : String :=
  s!"Image in \"{name}\" was replaced by a placeholder"

namespace EmitContext

variable (cx : EmitContext)

/-- The address that a bitmap is uploaded to, if it is to be uploaded. -/
def uploadedPlan (item : Item) (withChildren : Bool) : Plan (Option String) := do
  if cx.images = .code && cx.settings.uploads.uploadsBitmaps then
    match ← Plan.errand (.bitmap item withChildren) with
    | some bytes => Plan.errand (.address cx.settings.uploads .png bytes)
    | none => pure none
  else pure none

/-- The bytes of a bitmap, if it is to be embedded. -/
def embeddedPlan (item : Item) (withChildren : Bool) : Plan (Option Bytes) :=
  if cx.images = .live || cx.settings.embedImages then Plan.errand (.bitmap item withChildren)
  else pure none

/-- The bitmap of an item, and a warning if a placeholder stands for it. -/
def imagePlan (item : Item) (withChildren : Bool) : Plan (Option ImageSource × List String) := do
  if cx.images = .preview then
    let bytes ← Plan.errand (.bitmap item withChildren)
    pure (bytes.map .embedded, [])
  else
    match ← cx.uploadedPlan item withChildren with
    | some url => pure (some (.remote url), [])
    | none =>
      match ← cx.embeddedPlan item withChildren with
      | some bytes => pure (some (.embedded bytes), [])
      | none =>
        pure (some (.placeholder item.geometry.width item.geometry.height),
          [placeholderWarning item.name])

/-! ## Elements -/

/-- The name of the layer, if names are shown. -/
def layerName (item : Item) : List Markup.Attribute :=
  if cx.settings.showLayerNames then [("data-layer", .text item.name)] else []

/-- The start of an element for an item. -/
def head (tag : String) (item : Item) (style : Style) : Markup.Head Style :=
  { source := item.address, tag, before := cx.layerName item, style }

/-- Position, size and effects, which every element has. -/
def base (item : Item) (children : List Node) (parent : ParentContext) : List Utility :=
  Style.position item parent ++ Style.size item parent ++ Style.effects item children

/-- An element without content for an item. -/
def box (tag : String) (item : Item) (utilities : List Utility) : Markup Style :=
  .leaf (cx.head tag item (.ofUtilities utilities)) .empty

/-- An image, or an empty box if there is none. -/
def picture (item : Item) (utilities : List Utility) (source : Option ImageSource) :
    Markup Style :=
  match source with
  | some source =>
    .leaf { cx.head "img" item (.ofUtilities utilities) with after := [("src", .text source.url)] }
      .empty
  | none => cx.box "div" item utilities

/-- An element around others, or an empty one. -/
def around (head : Markup.Head Style) (inside : Fragment) : Fragment :=
  let markup : Markup Style :=
    if inside.markup.isEmpty then .leaf head .empty else .parent head inside.markup
  { inside with markup := [markup] }

/-! ## Kinds -/

/-- Rectangles and ellipses; those without width are left out. -/
def shapePlan (item : Item) (children : List Node) (parent : ParentContext) : Plan Fragment := do
  if item.geometry.width ≤ 0 then pure {}
  else
    let utilities := base item children parent ++ Style.paint item
    if item.hasImageFill then
      let (source, warnings) ← cx.imagePlan item true
      pure { markup := [cx.picture item utilities source], warnings }
    else pure (.ofMarkup (cx.box "div" item utilities))

def line (item : Item) (children : List Node) (parent : ParentContext) : Fragment :=
  .ofMarkup (cx.box "div" item (base item children parent ++ Style.stroke item))

def segmentStyle (s : Segment) : TextStyle :=
  ⟨s.text, (Style.ofUtilities (Style.run cx.settings s.style)).classes cx.settings⟩

/-- A segment among others, in an element of its own. -/
def span (s : Segment) : Markup.Span Style :=
  ⟨some (s.wrapper, .ofUtilities (Style.run cx.settings s.style)), s.text⟩

/-- A text. A single segment gives its style to the whole element. -/
def text (item : Item) (content : TextContent) (children : List Node) (parent : ParentContext) :
    Fragment :=
  let block := base item children parent ++ Style.alignment content
  let segments := Segment.ofRuns content.runs
  let (utilities, spans) : List Utility × List (Markup.Span Style) :=
    match segments with
    | [only] => (block ++ Style.run cx.settings only.style, [⟨none, only.text⟩])
    | segments => (block, segments.map cx.span)
  { markup := [.leaf (cx.head "p" item (.ofUtilities utilities)) (.spans spans)]
    textStyles := segments.map cx.segmentStyle }

/-- A vector that was drawn beforehand. -/
def artifact (item : Item) (artifact : Artifact) (children : List Node) (parent : ParentContext) :
    Fragment :=
  let utilities := base item children parent
  match artifact with
  | .svg markup =>
    let head := cx.head "div" item (.ofUtilities utilities)
    .ofMarkup (.leaf { head with before := ("data-svg-wrapper", .flag) :: head.before }
      (.block markup))
  | .remote url => .ofMarkup (cx.picture item utilities (some (.remote url)))

/-- Why a vector is drawn as a box. -/
def vectorWarning (name : String) : String :=
  if cx.settings.embedVectors then
    s!"Vector \"{name}\" could not be exported and was drawn as a box"
  else
    s!"Vector nodes are not supported without embedVectors; \"{name}\" was drawn as a box"

/-- A vector that was not drawn beforehand. -/
def vector (item : Item) (children : List Node) (parent : ParentContext) : Fragment :=
  { markup := [cx.box "div" item (base item children parent ++ Style.paint item)]
    warnings := [cx.vectorWarning item.name] }

def unsupported (item : Item) (type : String) : Fragment :=
  { warnings := [s!"Unsupported node type {type} on layer \"{item.name}\" was skipped"] }

/-! ## Containers -/

/-- Whether a container is left out for its size. -/
def isSkipped (item : Item) : Bool :=
  let g := item.geometry
  g.width < 0 || (if item.kind = .group then g.height ≤ 0 else g.height < 0)

/-- The background image of a container: a class for an address, a declaration for bytes. -/
def backdrop (source : Option ImageSource) : Style :=
  match source with
  | some (.embedded bytes) =>
    { utilities := [.keyword .cover]
      declarations := [("background-image", s!"url({(ImageSource.embedded bytes).url})")] }
  | some source => .ofUtilities [.backgroundImage source.url, .keyword .cover]
  | none => {}

/-- The style of a container without its background image. -/
def containerUtilities (item : Item) (children : List Node) (parent : ParentContext) :
    List Utility :=
  base item children parent ++ Style.childLayout item children ++ Style.paint item

/-- A container around what is drawn inside it. One without any style is left out too, unless its
name is to be shown. -/
def containerPlan (item : Item) (children : List Node) (parent : ParentContext)
    (inside : Fragment) : Plan Fragment := do
  if isSkipped item then pure inside
  else
    let (source, warnings) ←
      if item.hasImageFill then cx.imagePlan item false else pure (none, [])
    let inside := { inside with warnings := inside.warnings ++ warnings }
    let image := backdrop source
    let style : Style :=
      { image with utilities := containerUtilities item children parent ++ image.utilities }
    if style.isEmpty && !cx.settings.showLayerNames then pure inside
    else pure (around (cx.head "div" item style) inside)

/-! ## Tags -/

/-- A place to be filled, with its size in whole pixels. -/
def slot (item : Item) (kind : SlotKind) (subtype id : String) (parent : ParentContext) :
    Fragment :=
  let width := Number.short (Number.roundAway item.geometry.width)
  let height := Number.short (Number.roundAway item.geometry.height)
  let generic (name : String) : List Markup.Attribute :=
    if kind = .generic then [(name, .text subtype)] else []
  let (tag, attributes) : String × List Markup.Attribute :=
    match cx.settings.mode with
    | .jsx =>
      ("Slot" ++ kind.suffix,
        ("slotId", .text id) :: generic "slotType" ++
          [("width", .expr width), ("height", .expr height)])
    | .html =>
      (if kind = .generic then "slot-placeholder" else "slot-" ++ Text.asciiSmall kind.suffix,
        ("data-slot-id", .text id) :: generic "data-slot-type" ++
          [("data-width", .text width), ("data-height", .text height)])
  .ofMarkup (.leaf
    { source := item.address, tag, before := attributes
      style := .ofUtilities (Style.position item parent) } .empty)

def directionWord : Direction → String
  | .row => "row"
  | .column => "column"

/-- A repeated container around what is drawn inside it. -/
def list (item : Item) (id : String) (children : List Node) (parent : ParentContext)
    (inside : Fragment) : Fragment :=
  let (direction, gap) : Direction × Float :=
    match item.layout with
    | some layout => (layout.direction, layout.gap)
    | none => (.column, 0)
  let direction := directionWord direction
  let gap := Number.short gap
  let (tag, attributes) : String × List Markup.Attribute :=
    match cx.settings.mode with
    | .jsx => ("List", [("listId", .text id), ("direction", .text direction), ("gap", .expr gap)])
    | .html =>
      ("list-container",
        [("data-list-id", .text id), ("data-direction", .text direction), ("data-gap", .text gap)])
  around
    { source := item.address, tag, before := attributes
      style := .ofUtilities (containerUtilities item children parent) } inside

def canvas (item : Item) (id : String) (children : List Node) (parent : ParentContext) :
    Fragment :=
  .ofMarkup (.leaf
    { source := item.address, tag := "canvas", before := [("id", .text id)]
      style := .ofUtilities (base item children parent) } .empty)

/-- The whole layer as one image. -/
def staticImagePlan (item : Item) (children : List Node) (parent : ParentContext) :
    Plan Fragment := do
  let (source, warnings) ← cx.imagePlan item true
  pure { markup := [cx.picture item (base item children parent) source], warnings }

/-! ## Nodes -/

mutual

/-- What is drawn for a node. -/
def emitPlan (parent : ParentContext) (n : Node) : Plan Fragment :=
  match n with
  | .node item children =>
    match item.tag with
    | .ignore => pure {}
    | .prompt instruction => pure (.ofMarkup (.comment ("AI: " ++ instruction)))
    | .slot kind subtype id => pure (cx.slot item kind subtype id parent)
    | .list id => do
      let inside ← emitAllPlan (.inside item) children
      pure (cx.list item id children parent inside)
    | .canvas id => pure (canvas item id children parent)
    | .static => cx.staticImagePlan item children parent
    | .none =>
      match item.artifact with
      | some artifact => pure (cx.artifact item artifact children parent)
      | none =>
        match item.kind with
        | .rectangle | .ellipse => cx.shapePlan item children parent
        | .group | .frame | .section => do
          let inside ← emitAllPlan (.inside item) children
          cx.containerPlan item children parent inside
        | .text content => pure (cx.text item content children parent)
        | .line => pure (cx.line item children parent)
        | .vector => pure (cx.vector item children parent)
        | .unsupported type => pure (unsupported item type)

/-- What is drawn for siblings, each beside the others. -/
def emitAllPlan (parent : ParentContext) : List Node → Plan Fragment
  | [] => pure {}
  | n :: rest =>
    .both (emitPlan parent n) (emitAllPlan parent rest) fun first others =>
      pure (first.append others)

end

/-- What is drawn for the roots of a selection. -/
def emitRootsPlan (roots : List Node) : Plan Fragment := cx.emitAllPlan .root roots

/-- Markup as text. -/
def write (markup : List (Markup Style)) : String :=
  Markup.document cx.settings.mode (Markup.mapAll (Style.resolve cx.settings) markup)

/-! ## One after the other -/

def uploaded (item : Item) (withChildren : Bool) : Pass (Option String) :=
  (cx.uploadedPlan item withChildren).inOrder cx.host cx.assets

def embedded (item : Item) (withChildren : Bool) : Pass (Option Bytes) :=
  (cx.embeddedPlan item withChildren).inOrder cx.host cx.assets

def image (item : Item) (withChildren : Bool) : Pass (Option ImageSource × List String) :=
  (cx.imagePlan item withChildren).inOrder cx.host cx.assets

def shape (item : Item) (children : List Node) (parent : ParentContext) : Pass Fragment :=
  (cx.shapePlan item children parent).inOrder cx.host cx.assets

def container (item : Item) (children : List Node) (parent : ParentContext) (inside : Fragment) :
    Pass Fragment :=
  (cx.containerPlan item children parent inside).inOrder cx.host cx.assets

def staticImage (item : Item) (children : List Node) (parent : ParentContext) : Pass Fragment :=
  (cx.staticImagePlan item children parent).inOrder cx.host cx.assets

def emit (parent : ParentContext) (n : Node) : Pass Fragment :=
  (cx.emitPlan parent n).inOrder cx.host cx.assets

def emitAll (parent : ParentContext) (nodes : List Node) : Pass Fragment :=
  (cx.emitAllPlan parent nodes).inOrder cx.host cx.assets

def emitRoots (roots : List Node) : Pass Fragment :=
  (cx.emitRootsPlan roots).inOrder cx.host cx.assets

theorem uploaded_eq (item : Item) (withChildren : Bool) : cx.uploaded item withChildren = (do
    if cx.images = .code && cx.settings.uploads.uploadsBitmaps then
      match ← Pass.bitmap cx.host item withChildren with
      | some bytes => cx.assets cx.settings.uploads .png bytes
      | none => pure none
    else pure none) := by
  rw [uploaded, uploadedPlan]
  split
  · rw [Plan.inOrder_bind, Plan.inOrder_errand]
    refine bind_congr fun bytes => ?_
    cases bytes with
    | none => rfl
    | some bytes => exact Plan.inOrder_errand _ _ _
  · rfl

theorem embedded_eq (item : Item) (withChildren : Bool) : cx.embedded item withChildren =
    if cx.images = .live || cx.settings.embedImages then Pass.bitmap cx.host item withChildren
    else pure none := by
  rw [embedded, embeddedPlan]
  split
  · exact Plan.inOrder_errand _ _ _
  · rfl

theorem image_eq (item : Item) (withChildren : Bool) : cx.image item withChildren = (do
    if cx.images = .preview then
      let bytes ← Pass.bitmap cx.host item withChildren
      pure (bytes.map .embedded, [])
    else
      match ← cx.uploaded item withChildren with
      | some url => pure (some (.remote url), [])
      | none =>
        match ← cx.embedded item withChildren with
        | some bytes => pure (some (.embedded bytes), [])
        | none =>
          pure (some (.placeholder item.geometry.width item.geometry.height),
            [placeholderWarning item.name])) := by
  rw [image, imagePlan]
  split
  · rw [Plan.inOrder_bind, Plan.inOrder_errand]
    rfl
  · rw [Plan.inOrder_bind]
    refine bind_congr fun url => ?_
    cases url with
    | some url => rfl
    | none =>
      dsimp only
      rw [Plan.inOrder_bind]
      refine bind_congr fun bytes => ?_
      cases bytes <;> rfl

theorem shape_eq (item : Item) (children : List Node) (parent : ParentContext) :
    cx.shape item children parent = (do
      if item.geometry.width ≤ 0 then pure {}
      else
        let utilities := base item children parent ++ Style.paint item
        if item.hasImageFill then
          let (source, warnings) ← cx.image item true
          pure { markup := [cx.picture item utilities source], warnings }
        else pure (.ofMarkup (cx.box "div" item utilities))) := by
  rw [shape, shapePlan]
  split
  · rfl
  · dsimp only
    split
    · exact Plan.inOrder_bind _ _ _ _
    · rfl

theorem container_eq (item : Item) (children : List Node) (parent : ParentContext)
    (inside : Fragment) : cx.container item children parent inside = (do
      if isSkipped item then pure inside
      else
        let (source, warnings) ←
          if item.hasImageFill then cx.image item false else pure (none, [])
        let inside := { inside with warnings := inside.warnings ++ warnings }
        let image := backdrop source
        let style : Style :=
          { image with utilities := containerUtilities item children parent ++ image.utilities }
        if style.isEmpty && !cx.settings.showLayerNames then pure inside
        else pure (around (cx.head "div" item style) inside)) := by
  rw [container, containerPlan]
  split
  · rfl
  · dsimp only
    split
    · rw [Plan.inOrder_bind]
      refine bind_congr fun shown => ?_
      split <;> rfl
    · rw [Plan.inOrder_bind, Plan.inOrder_pure]
      refine bind_congr fun shown => ?_
      split <;> rfl

theorem staticImage_eq (item : Item) (children : List Node) (parent : ParentContext) :
    cx.staticImage item children parent = (do
      let (source, warnings) ← cx.image item true
      pure { markup := [cx.picture item (base item children parent) source], warnings }) :=
  Plan.inOrder_bind _ _ _ _

theorem emit_node (parent : ParentContext) (item : Item) (children : List Node) :
    cx.emit parent (.node item children) =
      (match item.tag with
      | .ignore => pure {}
      | .prompt instruction => pure (.ofMarkup (.comment ("AI: " ++ instruction)))
      | .slot kind subtype id => pure (cx.slot item kind subtype id parent)
      | .list id => do
        let inside ← cx.emitAll (.inside item) children
        pure (cx.list item id children parent inside)
      | .canvas id => pure (canvas item id children parent)
      | .static => cx.staticImage item children parent
      | .none =>
        match item.artifact with
        | some artifact => pure (cx.artifact item artifact children parent)
        | none =>
          match item.kind with
          | .rectangle | .ellipse => cx.shape item children parent
          | .group | .frame | .section => do
            let inside ← cx.emitAll (.inside item) children
            cx.container item children parent inside
          | .text content => pure (cx.text item content children parent)
          | .line => pure (cx.line item children parent)
          | .vector => pure (cx.vector item children parent)
          | .unsupported type => pure (unsupported item type)) := by
  rw [emit, emitPlan]
  cases item.tag with
  | list id => exact Plan.inOrder_bind _ _ _ _
  | none =>
    cases item.artifact with
    | some artifact => rfl
    | none =>
      cases item.kind with
      | group | frame | «section» => exact Plan.inOrder_bind _ _ _ _
      | _ => rfl
  | _ => rfl

theorem emitAll_nil (parent : ParentContext) : cx.emitAll parent [] = pure {} := rfl

theorem emitAll_cons (parent : ParentContext) (n : Node) (rest : List Node) :
    cx.emitAll parent (n :: rest) = (do
      let first ← cx.emit parent n
      let others ← cx.emitAll parent rest
      pure (first.append others)) := rfl

theorem emitRoots_eq (roots : List Node) : cx.emitRoots roots = cx.emitAll .root roots := rfl

end EmitContext

end Artboard
