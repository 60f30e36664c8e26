import Artboard.Proofs.Conversion.Drawings

/-!
# Drawing in stages

Whatever the tag and the kind of a node are, it is drawn in three stages: what is inside it, if the
nodes inside are drawn; its bitmap, if it shows one; and from these, without effects, what stands
for the node itself (`EmitContext.emit_eq`). So what holds of all drawings follows from what the
last stage does.
-/

namespace Artboard

open Pass

/-- Where an image comes from, if there is one, and the warnings about it. -/
abbrev Picture := Option ImageSource × List String

namespace Item

/-- Whether an item shows its bitmap, and if so, whether with the layers inside. -/
def bitmap? (i : Item) : Option Bool :=
  match i.tag with
  | .static => some true
  | .none =>
    if i.artifact.isSome || !i.hasImageFill then none
    else
      match i.kind with
      | .rectangle | .ellipse => if i.geometry.width ≤ 0 then none else some true
      | .group | .frame | .section => if EmitContext.isSkipped i then none else some false
      | .text _ | .line | .vector | .unsupported _ => none
  | .ignore | .prompt _ | .slot _ _ _ | .list _ | .canvas _ => none

end Item

namespace EmitContext

variable (cx : EmitContext)

/-- What is drawn inside an item. -/
def inside (item : Item) (children : List Node) : Pass Fragment :=
  if item.isOpen then cx.emitAll (.inside item) children else pure {}

/-- The bitmap that an item shows. -/
def pictured (item : Item) : Pass Picture :=
  match item.bitmap? with
  | some withChildren => cx.image item withChildren
  | none => pure (none, [])

/-- A container with its background image. -/
def framed (item : Item) (children : List Node) (parent : ParentContext) (picture : Picture)
    (inside : Fragment) : Fragment :=
  if isSkipped item then inside
  else
    let inside := { inside with warnings := inside.warnings ++ picture.2 }
    let image := backdrop picture.1
    let style : Style :=
      { image with utilities := containerUtilities item children parent ++ image.utilities }
    if style.isEmpty && !cx.settings.showLayerNames then inside
    else around (cx.head "div" item style) inside

/-- What stands for an item, given its bitmap and what is drawn inside it. -/
def drawn (item : Item) (children : List Node) (parent : ParentContext) (picture : Picture)
    (inside : Fragment) : Fragment :=
  match item.tag with
  | .ignore => {}
  | .prompt instruction => .ofMarkup (.comment ("AI: " ++ instruction))
  | .slot kind subtype id => cx.slot item kind subtype id parent
  | .list id => cx.list item id children parent inside
  | .canvas id => canvas item id children parent
  | .static =>
    { markup := [cx.picture item (base item children parent) picture.1], warnings := picture.2 }
  | .none =>
    match item.artifact with
    | some artifact => cx.artifact item artifact children parent
    | none =>
      match item.kind with
      | .rectangle | .ellipse =>
        if item.geometry.width ≤ 0 then {}
        else
          { markup :=
              [cx.picture item (base item children parent ++ Style.paint item) picture.1]
            warnings := picture.2 }
      | .group | .frame | .section => cx.framed item children parent picture inside
      | .text content => cx.text item content children parent
      | .line => cx.line item children parent
      | .vector => cx.vector item children parent
      | .unsupported type => unsupported item type

variable {cx}
variable {item : Item} {children : List Node} {parent : ParentContext}

section Untagged

variable (htag : item.tag = .none) (hartifact : item.artifact = none)
include htag hartifact

theorem shape_staged (hkind : item.kind = .rectangle ∨ item.kind = .ellipse) :
    cx.shape item children parent = (do
      let picture ← cx.pictured item
      pure (cx.drawn item children parent picture {})) := by
  have hbitmap : item.bitmap? =
      if item.hasImageFill then if item.geometry.width ≤ 0 then none else some true else none := by
    rcases hkind with hkind | hkind <;> cases himage : item.hasImageFill <;>
      simp [Item.bitmap?, htag, hartifact, hkind, himage]
  have hdrawn (picture : Picture) : cx.drawn item children parent picture {} =
      if item.geometry.width ≤ 0 then {}
      else
        { markup :=
            [cx.picture item (base item children parent ++ Style.paint item) picture.1]
          warnings := picture.2 } := by
    rcases hkind with hkind | hkind <;> simp only [drawn, htag, hartifact, hkind]
  simp only [shape_eq, pictured, hbitmap, hdrawn]
  split_ifs <;> rfl

theorem container_staged (hkind : item.kind = .group ∨ item.kind = .frame ∨ item.kind = .section)
    (inside : Fragment) :
    cx.container item children parent inside = (do
      let picture ← cx.pictured item
      pure (cx.drawn item children parent picture inside)) := by
  have hbitmap : item.bitmap? =
      if isSkipped item then none else if item.hasImageFill then some false else none := by
    rcases hkind with hkind | hkind | hkind <;> cases himage : item.hasImageFill <;>
      simp [Item.bitmap?, htag, hartifact, hkind, himage]
  have hdrawn (picture : Picture) :
      cx.drawn item children parent picture inside =
        cx.framed item children parent picture inside := by
    rcases hkind with hkind | hkind | hkind <;> simp only [drawn, htag, hartifact, hkind]
  simp only [container_eq, pictured, hbitmap, hdrawn, framed]
  split_ifs
  · rfl
  · simp only [apply_ite (pure : Fragment → Pass Fragment)]
  · simp only [pure_bind, apply_ite (pure : Fragment → Pass Fragment)]

end Untagged

theorem inside_of_not_isOpen (h : item.isOpen = false) : cx.inside item children = pure {} :=
  if_neg (by rw [h]; exact Bool.false_ne_true)

theorem pictured_of_bitmap? (h : item.bitmap? = none) : cx.pictured item = pure (none, []) := by
  rw [pictured, h]

/-- **A node is drawn in stages:** what is inside it, its bitmap, and what stands for the node. -/
theorem emit_eq (cx : EmitContext) (parent : ParentContext) (item : Item) (children : List Node) :
    cx.emit parent (.node item children) = (do
      let inside ← cx.inside item children
      let picture ← cx.pictured item
      pure (cx.drawn item children parent picture inside)) := by
  -- What shows no bitmap and draws nothing inside is drawn without effects.
  have hstill (hopen : item.isOpen = false) (hbitmap : item.bitmap? = none) : (do
      let inside ← cx.inside item children
      let picture ← cx.pictured item
      pure (cx.drawn item children parent picture inside)) =
        pure (cx.drawn item children parent (none, []) {}) := by
    rw [inside_of_not_isOpen hopen, pictured_of_bitmap? hbitmap]
    rfl
  rw [emit_node]
  cases htag : item.tag with
  | ignore | prompt instruction | slot kind subtype id | canvas id =>
    rw [hstill (by rw [Item.isOpen, htag]) (by rw [Item.bitmap?, htag]), drawn, htag]
  | list id =>
    have hopen : item.isOpen = true := by rw [Item.isOpen, htag]
    rw [inside, if_pos hopen, pictured_of_bitmap? (by rw [Item.bitmap?, htag])]
    simp only [pure_bind, drawn, htag]
  | static =>
    rw [inside_of_not_isOpen (by rw [Item.isOpen, htag]), pictured, Item.bitmap?, htag]
    simp only [pure_bind, drawn, htag]
    exact cx.staticImage_eq item children parent
  | none =>
    dsimp only
    cases hartifact : item.artifact with
    | some artifact =>
      rw [hstill (by simp [Item.isOpen, htag, hartifact]) (by simp [Item.bitmap?, htag, hartifact]),
        drawn, htag, hartifact]
    | none =>
      have hopen : item.isOpen = item.kind.isContainer := by simp [Item.isOpen, htag, hartifact]
      dsimp only
      cases hkind : item.kind with
      | rectangle | ellipse =>
        rw [shape_staged htag hartifact (by simp [hkind]),
          inside_of_not_isOpen (by rw [hopen, hkind]; rfl), pure_bind]
      | group | frame | «section» =>
        rw [inside, if_pos (by rw [hopen, hkind]; rfl)]
        simp only [container_staged htag hartifact (by simp [hkind])]
      | text content | line | vector | unsupported type =>
        rw [hstill (by rw [hopen, hkind]; rfl) (by simp [Item.bitmap?, htag, hartifact, hkind]),
          drawn, htag, hartifact, hkind]

section Congruence

variable {cx' : EmitContext}

mutual

theorem emit_congr (hpictured : cx.pictured = cx'.pictured) (hdrawn : cx.drawn = cx'.drawn)
    (parent : ParentContext) (n : Node) : cx.emit parent n = cx'.emit parent n := by
  match n with
  | .node item children =>
    simp only [emit_eq, inside, hpictured, hdrawn,
      emitAll_congr hpictured hdrawn (.inside item) children]

theorem emitAll_congr (hpictured : cx.pictured = cx'.pictured) (hdrawn : cx.drawn = cx'.drawn)
    (parent : ParentContext) (nodes : List Node) :
    cx.emitAll parent nodes = cx'.emitAll parent nodes := by
  match nodes with
  | [] => rfl
  | n :: rest =>
    rw [emitAll_cons, emitAll_cons, emit_congr hpictured hdrawn parent n,
      emitAll_congr hpictured hdrawn parent rest]

end

/-- **Drawing looks at nothing but bitmaps and what the last stage makes of them.** -/
theorem emitRoots_congr (hpictured : cx.pictured = cx'.pictured) (hdrawn : cx.drawn = cx'.drawn) :
    cx.emitRoots = cx'.emitRoots := by
  funext roots
  exact emitAll_congr hpictured hdrawn .root roots

end Congruence

end EmitContext

end Artboard
