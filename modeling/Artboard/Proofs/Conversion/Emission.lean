import Artboard.Conversion.Compile
import Artboard.Proofs.Conversion.Lockstep

/-!
# Drawing in step

Nodes that differ in nothing but their addresses (`Node.Alike`) are drawn in step, whatever the
services on both sides are, as long as requests for their bitmaps and for addresses of assets are
in step (`EmitContext.emitAll_inStep`). What is drawn differs in nothing but the addresses that
elements remember (`Fragment.SameBut`).

Only images have effects, so everything goes back to `EmitContext.image_inStep`. All else follows
the tree of nodes.
-/

namespace Artboard

open Pass

/-! ## Nodes -/

namespace Item

/-- The same item at another address. -/
def readdressed (i : Item) (address : Address) : Item := { i with address }

variable (i : Item) (address : Address)

@[simp] theorem address_readdressed : (i.readdressed address).address = address := rfl

@[simp] theorem tag_readdressed : (i.readdressed address).tag = i.tag := rfl

@[simp] theorem artifact_readdressed : (i.readdressed address).artifact = i.artifact := rfl

@[simp] theorem kind_readdressed : (i.readdressed address).kind = i.kind := rfl

@[simp] theorem hasImageFill_readdressed :
    (i.readdressed address).hasImageFill = i.hasImageFill := rfl

end Item

variable {ρ : Address → Address → Prop}

namespace Node

mutual

/-- The same node but for corresponding addresses. -/
inductive Alike (ρ : Address → Address → Prop) : Node → Node → Prop
  | node {item : Item} {address' : Address} {children children' : List Node}
      (haddress : ρ item.address address') (hchildren : AlikeAll ρ children children') :
      Alike ρ (.node item children) (.node (item.readdressed address') children')

inductive AlikeAll (ρ : Address → Address → Prop) : List Node → List Node → Prop
  | nil : AlikeAll ρ [] []
  | cons {n n' : Node} {rest rest' : List Node} (hfirst : Alike ρ n n')
      (hrest : AlikeAll ρ rest rest') : AlikeAll ρ (n :: rest) (n' :: rest')

end

mutual

theorem alike_refl (n : Node) : Alike Eq n n := by
  match n with
  | .node _ children => exact .node rfl (alikeAll_refl children)

theorem alikeAll_refl (nodes : List Node) : AlikeAll Eq nodes nodes := by
  match nodes with
  | [] => exact .nil
  | n :: rest => exact .cons (alike_refl n) (alikeAll_refl rest)

end

mutual

/-- What does not look at addresses is the same of all items. -/
theorem Alike.map_items {β : Type} {f : Item → β}
    (hf : ∀ item address', f (item.readdressed address') = f item) (n : Node) {n' : Node}
    (h : Alike ρ n n') : n'.items.map f = n.items.map f := by
  match n with
  | .node item children =>
    cases h with
    | node _ hchildren =>
      rw [items, items, List.map_cons, List.map_cons, hf, hchildren.map_itemsOfAll hf children]

theorem AlikeAll.map_itemsOfAll {β : Type} {f : Item → β}
    (hf : ∀ item address', f (item.readdressed address') = f item) (nodes : List Node)
    {nodes' : List Node} (h : AlikeAll ρ nodes nodes') :
    (itemsOfAll nodes').map f = (itemsOfAll nodes).map f := by
  match nodes with
  | [] =>
    cases h
    rfl
  | n :: rest =>
    cases h with
    | cons hfirst hrest =>
      rw [itemsOfAll, itemsOfAll, List.map_append, List.map_append, hfirst.map_items hf n,
        hrest.map_itemsOfAll hf rest]

end

namespace AlikeAll

variable {children children' : List Node} {item : Item} {parent : ParentContext}

theorem isEmpty_eq (h : AlikeAll ρ children children') : children'.isEmpty = children.isEmpty := by
  cases h <;> rfl

theorem hasAbsoluteChildren_eq (h : AlikeAll ρ children children') (address' : Address) :
    Style.hasAbsoluteChildren (item.readdressed address') children' =
      Style.hasAbsoluteChildren item children := by
  unfold Style.hasAbsoluteChildren
  induction children generalizing children' with
  | nil => cases h; rfl
  | cons n rest ih =>
    cases h with
    | cons hfirst hrest =>
      cases hfirst with
      | node haddress hchildren =>
        rw [List.any_cons, List.any_cons, ih hrest]
        rfl

theorem base_eq (h : AlikeAll ρ children children') (address' : Address) :
    EmitContext.base (item.readdressed address') children' parent =
      EmitContext.base item children parent := by
  simp only [EmitContext.base, Style.effects, h.isEmpty_eq]
  rfl

theorem containerUtilities_eq (h : AlikeAll ρ children children') (address' : Address) :
    EmitContext.containerUtilities (item.readdressed address') children' parent =
      EmitContext.containerUtilities item children parent := by
  simp only [EmitContext.containerUtilities, h.base_eq address', Style.childLayout,
    h.hasAbsoluteChildren_eq address']
  rfl

theorem append {nodes nodes' others others' : List Node} (h : AlikeAll ρ nodes nodes')
    (hothers : AlikeAll ρ others others') : AlikeAll ρ (nodes ++ others) (nodes' ++ others') := by
  induction nodes generalizing nodes' with
  | nil =>
    cases h
    exact hothers
  | cons n rest ih =>
    cases h with
    | cons hfirst hrest => exact .cons hfirst (ih hrest)

/-- Instructions are told by their tags, so the same ones are dropped. -/
theorem dropPrompts_alike (nodes : List Node) {nodes' : List Node} (h : AlikeAll ρ nodes nodes') :
    AlikeAll ρ (Node.dropPrompts nodes) (Node.dropPrompts nodes') := by
  match nodes with
  | [] =>
    cases h
    exact .nil
  | .node item children :: rest =>
    cases h with
    | cons hfirst hrest =>
      cases hfirst with
      | @node _ address' _ children' haddress hchildren =>
        have hsame : (Node.node (item.readdressed address') children').isPrompt =
            (Node.node item children).isPrompt := rfl
        rw [Node.dropPrompts, Node.dropPrompts, hsame]
        split_ifs
        · exact hrest.dropPrompts_alike rest
        · exact .cons (.node haddress (hchildren.dropPrompts_alike children))
            (hrest.dropPrompts_alike rest)

end AlikeAll

end Node

/-! ## Fragments -/

namespace Markup

variable {σ : Type}

mutual

/-- The same markup but for corresponding addresses. -/
inductive SameBut (ρ : Address → Address → Prop) : Markup σ → Markup σ → Prop
  | comment (text : String) : SameBut ρ (.comment text) (.comment text)
  | leaf {head : Head σ} {source' : Address} (hsource : ρ head.source source')
      (content : Content σ) :
      SameBut ρ (.leaf head content) (.leaf { head with source := source' } content)
  | parent {head : Head σ} {source' : Address} {children children' : List (Markup σ)}
      (hsource : ρ head.source source') (hchildren : AllSameBut ρ children children') :
      SameBut ρ (.parent head children) (.parent { head with source := source' } children')

inductive AllSameBut (ρ : Address → Address → Prop) : List (Markup σ) → List (Markup σ) → Prop
  | nil : AllSameBut ρ [] []
  | cons {m m' : Markup σ} {rest rest' : List (Markup σ)} (hfirst : SameBut ρ m m')
      (hrest : AllSameBut ρ rest rest') : AllSameBut ρ (m :: rest) (m' :: rest')

end

namespace AllSameBut

variable {markup markup' others others' : List (Markup σ)}

theorem singleton {m m' : Markup σ} (h : SameBut ρ m m') : AllSameBut ρ [m] [m'] := .cons h .nil

theorem isEmpty_eq (h : AllSameBut ρ markup markup') : markup'.isEmpty = markup.isEmpty := by
  cases h <;> rfl

theorem append (h : AllSameBut ρ markup markup') (hothers : AllSameBut ρ others others') :
    AllSameBut ρ (markup ++ others) (markup' ++ others') := by
  induction markup generalizing markup' with
  | nil =>
    cases h
    exact hothers
  | cons m rest ih =>
    cases h with
    | cons hfirst hrest => exact .cons hfirst (ih hrest)

end AllSameBut

mutual

theorem SameBut.eq (m : Markup σ) {m' : Markup σ} (h : SameBut Eq m m') : m' = m := by
  match m with
  | .comment text =>
    cases h
    rfl
  | .leaf head content =>
    cases h with
    | leaf hsource =>
      subst hsource
      rfl
  | .parent head children =>
    cases h with
    | parent hsource hchildren =>
      subst hsource
      rw [hchildren.eq children]

theorem AllSameBut.eq (markup : List (Markup σ)) {markup' : List (Markup σ)}
    (h : AllSameBut Eq markup markup') : markup' = markup := by
  match markup with
  | [] =>
    cases h
    rfl
  | m :: rest =>
    cases h with
    | cons hfirst hrest => rw [hfirst.eq m, hrest.eq rest]

end

/-! Addresses are not written. -/

section Writing

variable (mode : Mode) (f : σ → Classes)

mutual

theorem SameBut.render_eq (m : Markup σ) {m' : Markup σ} (h : SameBut ρ m m') :
    (m'.map f).render mode = (m.map f).render mode := by
  match m with
  | .comment text =>
    cases h
    rfl
  | .leaf head content =>
    cases h with
    | leaf => rfl
  | .parent head children =>
    cases h with
    | parent _ hchildren =>
      rw [map, map, render, render, hchildren.renderAll_eq children]
      rfl

theorem AllSameBut.renderAll_eq (markup : List (Markup σ)) {markup' : List (Markup σ)}
    (h : AllSameBut ρ markup markup') :
    renderAll mode (mapAll f markup') = renderAll mode (mapAll f markup) := by
  match markup with
  | [] =>
    cases h
    rfl
  | m :: rest =>
    cases h with
    | cons hfirst hrest =>
      rw [mapAll, mapAll, renderAll, renderAll, hfirst.render_eq m, hrest.renderAll_eq rest]

end

end Writing

end Markup

theorem EmitContext.write_of_sameBut (cx : EmitContext) {markup markup' : List (Markup Style)}
    (h : Markup.AllSameBut ρ markup markup') : cx.write markup' = cx.write markup := by
  rw [write, write, Markup.document, Markup.document, h.renderAll_eq]

namespace Fragment

open Markup (SameBut AllSameBut)

/-- The same fragment but for corresponding addresses. -/
structure SameBut (ρ : Address → Address → Prop) (f f' : Fragment) : Prop where
  markup : AllSameBut ρ f.markup f'.markup
  warnings : f'.warnings = f.warnings
  textStyles : f'.textStyles = f.textStyles

namespace SameBut

variable {f f' g g' : Fragment}

theorem empty : Fragment.SameBut ρ {} {} := ⟨.nil, rfl, rfl⟩

theorem single {m m' : Markup Style} (h : Markup.SameBut ρ m m') (warnings : List String)
    (textStyles : List TextStyle) :
    Fragment.SameBut ρ ⟨[m], warnings, textStyles⟩ ⟨[m'], warnings, textStyles⟩ :=
  ⟨.singleton h, rfl, rfl⟩

theorem append (h : f.SameBut ρ f') (h' : g.SameBut ρ g') :
    (f.append g).SameBut ρ (f'.append g') where
  markup := h.markup.append h'.markup
  warnings := congrArg₂ (· ++ ·) h.warnings h'.warnings
  textStyles := congrArg₂ (· ++ ·) h.textStyles h'.textStyles

theorem eq (h : f.SameBut Eq f') : f' = f := by
  rw [Fragment.mk.injEq f'.markup f'.warnings f'.textStyles]
  exact ⟨h.markup.eq f.markup, h.warnings, h.textStyles⟩

end SameBut

end Fragment

theorem Fragment.append_assoc (f g h : Fragment) :
    (f.append g).append h = f.append (g.append h) := by
  simp only [append, List.append_assoc]

theorem EmitContext.emitAll_append (cx : EmitContext) (parent : ParentContext)
    (nodes others : List Node) :
    cx.emitAll parent (nodes ++ others) = (do
      let f ← cx.emitAll parent nodes
      let g ← cx.emitAll parent others
      pure (f.append g)) := by
  induction nodes with
  | nil =>
    rw [List.nil_append, emitAll_nil, pure_bind]
    exact (bind_pure _).symm
  | cons n rest ih =>
    simp only [List.cons_append, emitAll_cons, ih, bind_assoc, pure_bind, Fragment.append_assoc]

/-! ## Constructs -/

namespace EmitContext

open Node Markup

variable {cx : EmitContext} {item : Item} {address' : Address} {children children' : List Node}
  {parent : ParentContext} {inside inside' : Fragment}

theorem around_same {head : Head Style} (hsource : ρ head.source address')
    (h : inside.SameBut ρ inside') :
    (around head inside).SameBut ρ (around { head with source := address' } inside') := by
  refine ⟨?_, h.warnings, h.textStyles⟩
  simp only [around, h.markup.isEmpty_eq]
  split_ifs
  · exact .singleton (.leaf hsource .empty)
  · exact .singleton (.parent hsource h.markup)

section Drawn

variable (haddress : ρ item.address address')
include haddress

theorem picture_same (utilities : List Utility) (source : Option ImageSource) :
    Markup.SameBut ρ (cx.picture item utilities source)
      (cx.picture (item.readdressed address') utilities source) := by
  cases source with
  | none => exact .leaf haddress .empty
  | some source => exact .leaf haddress .empty

variable (hchildren : AlikeAll ρ children children')
include hchildren

theorem list_same (id : String) (h : inside.SameBut ρ inside') :
    (cx.list item id children parent inside).SameBut ρ
      (cx.list (item.readdressed address') id children' parent inside') := by
  simp only [list, hchildren.containerUtilities_eq address']
  exact around_same haddress h

theorem text_same (content : TextContent) :
    (cx.text item content children parent).SameBut ρ
      (cx.text (item.readdressed address') content children' parent) := by
  unfold text
  rw [hchildren.base_eq address']
  exact .single (.leaf haddress _) _ _

theorem artifact_same (artifact : Artifact) :
    (cx.artifact item artifact children parent).SameBut ρ
      (cx.artifact (item.readdressed address') artifact children' parent) := by
  unfold EmitContext.artifact
  rw [hchildren.base_eq address']
  cases artifact with
  | svg => exact .single (.leaf haddress _) _ _
  | remote => exact .single (.leaf haddress _) _ _

theorem canvas_same (id : String) :
    (canvas item id children parent).SameBut ρ
      (canvas (item.readdressed address') id children' parent) := by
  unfold canvas
  rw [hchildren.base_eq address']
  exact .single (.leaf haddress _) _ _

theorem line_same :
    (cx.line item children parent).SameBut ρ
      (cx.line (item.readdressed address') children' parent) := by
  unfold line
  rw [hchildren.base_eq address']
  exact .single (.leaf haddress _) _ _

theorem vector_same :
    (cx.vector item children parent).SameBut ρ
      (cx.vector (item.readdressed address') children' parent) := by
  unfold vector
  rw [hchildren.base_eq address']
  exact .single (.leaf haddress _) _ _

end Drawn

/-! ## Images -/

section Images

variable {s : Settings} {images : ImageMode} {host host' : Host} {assets assets' : AssetSource}
  {R E : World → World → Prop}
  (hassets : ∀ uploads kind bytes,
    InStep R E Eq (assets uploads kind bytes) (assets' uploads kind bytes))
  (hbitmap : ∀ withChildren, InStep R E Eq (bitmap host item withChildren)
    (bitmap host' (item.readdressed address') withChildren))
include hassets hbitmap

theorem image_inStep (withChildren : Bool) :
    InStep R E Eq (image ⟨s, host, assets, images⟩ item withChildren)
      (image ⟨s, host', assets', images⟩ (item.readdressed address') withChildren) := by
  have huploaded : InStep R E Eq (uploaded ⟨s, host, assets, images⟩ item withChildren)
      (uploaded ⟨s, host', assets', images⟩ (item.readdressed address') withChildren) := by
    rw [uploaded_eq, uploaded_eq]
    split_ifs
    · refine (hbitmap withChildren).bind fun bytes _ hbytes => ?_
      subst hbytes
      cases bytes with
      | some bytes => exact hassets _ _ bytes
      | none => exact .pure rfl
    · exact .pure rfl
  have hembedded : InStep R E Eq (embedded ⟨s, host, assets, images⟩ item withChildren)
      (embedded ⟨s, host', assets', images⟩ (item.readdressed address') withChildren) := by
    rw [embedded_eq, embedded_eq]
    split_ifs
    · exact hbitmap withChildren
    · exact .pure rfl
  rw [image_eq, image_eq]
  split_ifs
  · refine (hbitmap withChildren).bind fun bytes _ hbytes => ?_
    subst hbytes
    exact .pure rfl
  · refine huploaded.bind fun url _ hurl => ?_
    subst hurl
    cases url with
    | some url => exact .pure rfl
    | none =>
      refine hembedded.bind fun bytes _ hbytes => ?_
      subst hbytes
      cases bytes <;> exact .pure rfl

variable (haddress : ρ item.address address') (hchildren : AlikeAll ρ children children')
include haddress hchildren

theorem shape_inStep :
    InStep R E (Fragment.SameBut ρ) (shape ⟨s, host, assets, images⟩ item children parent)
      (shape ⟨s, host', assets', images⟩ (item.readdressed address') children' parent) := by
  rw [shape_eq, shape_eq]
  rw [hchildren.base_eq address', Item.hasImageFill_readdressed]
  show InStep _ _ _ (if item.geometry.width ≤ 0 then _ else _)
    (if item.geometry.width ≤ 0 then _ else _)
  split_ifs
  · exact .pure .empty
  · refine (image_inStep hassets hbitmap true).bind fun image _ himage => ?_
    subst himage
    exact .pure (.single (picture_same haddress _ _) _ _)
  · exact .pure (.single (.leaf haddress _) _ _)

theorem staticImage_inStep :
    InStep R E (Fragment.SameBut ρ) (staticImage ⟨s, host, assets, images⟩ item children parent)
      (staticImage ⟨s, host', assets', images⟩ (item.readdressed address') children' parent) := by
  rw [staticImage_eq, staticImage_eq]
  refine (image_inStep hassets hbitmap true).bind fun image _ himage => ?_
  subst himage
  dsimp only
  rw [hchildren.base_eq address']
  exact .pure (.single (picture_same haddress _ _) _ _)

theorem container_inStep (hinside : inside.SameBut ρ inside') :
    InStep R E (Fragment.SameBut ρ)
      (container ⟨s, host, assets, images⟩ item children parent inside)
      (container ⟨s, host', assets', images⟩ (item.readdressed address') children' parent
        inside') := by
  rw [container_eq, container_eq]
  rw [hchildren.containerUtilities_eq address', Item.hasImageFill_readdressed]
  show InStep _ _ _ (if isSkipped item then _ else _) (if isSkipped item then _ else _)
  split_ifs
  · exact .pure hinside
  on_goal 1 => refine (image_inStep hassets hbitmap false).bind ?_
  on_goal 2 => refine InStep.bind (V := Eq) (.pure rfl) ?_
  all_goals
    rintro image _ rfl
    have hwarned : Fragment.SameBut ρ { inside with warnings := inside.warnings ++ image.2 }
        { inside' with warnings := inside'.warnings ++ image.2 } :=
      ⟨hinside.markup, congrArg (· ++ image.2) hinside.warnings, hinside.textStyles⟩
    dsimp only
    split_ifs
    · exact .pure hwarned
    · exact .pure (around_same haddress hwarned)

end Images

/-! ## Nodes -/

section Trees

variable {s : Settings} {images : ImageMode} {host host' : Host} {assets assets' : AssetSource}
  {R E : World → World → Prop}

mutual

/-- The cases are those of `emit`. -/
theorem emit_inStep
    (hassets : ∀ uploads kind bytes,
      InStep R E Eq (assets uploads kind bytes) (assets' uploads kind bytes))
    (parent : ParentContext) (n : Node) {n' : Node} (h : Alike ρ n n')
    (hbitmaps : ∀ item ∈ n.items, ∀ address', ρ item.address address' →
      item.readdressed address' ∈ n'.items → ∀ withChildren,
        InStep R E Eq (bitmap host item withChildren)
          (bitmap host' (item.readdressed address') withChildren)) :
    InStep R E (Fragment.SameBut ρ) (emit ⟨s, host, assets, images⟩ parent n)
      (emit ⟨s, host', assets', images⟩ parent n') := by
  match n with
  | .node item children =>
    cases h with
    | @node _ address' _ children' haddress hchildren =>
      rw [Node.items, Node.items] at hbitmaps
      have hown := hbitmaps item List.mem_cons_self address' haddress List.mem_cons_self
      have hinside := emitAll_inStep hassets (.inside item) children hchildren
        fun item hitem address' h hitem' =>
          hbitmaps item (List.mem_cons_of_mem _ hitem) address' h (List.mem_cons_of_mem _ hitem')
      rw [emit_node, emit_node, Item.tag_readdressed, Item.artifact_readdressed, Item.kind_readdressed]
      cases item.tag with
      | ignore => exact .pure .empty
      | prompt instruction => exact .pure (.single (.comment _) _ _)
      | slot kind subtype id => exact .pure (.single (.leaf haddress _) _ _)
      | list id => exact hinside.bind fun _ _ hf => .pure (list_same haddress hchildren id hf)
      | canvas id => exact .pure (canvas_same haddress hchildren id)
      | static => exact staticImage_inStep hassets hown haddress hchildren
      | none =>
        dsimp only
        cases item.artifact with
        | some artifact => exact .pure (artifact_same haddress hchildren artifact)
        | none =>
          cases item.kind with
          | rectangle | ellipse => exact shape_inStep hassets hown haddress hchildren
          | group | frame | «section» =>
            exact hinside.bind fun _ _ hf => container_inStep hassets hown haddress hchildren hf
          | text content => exact .pure (text_same haddress hchildren content)
          | line => exact .pure (line_same haddress hchildren)
          | vector => exact .pure (vector_same haddress hchildren)
          | unsupported type => exact .pure ⟨.nil, rfl, rfl⟩

/-- **Nodes alike are drawn in step** if requests for bitmaps and assets are. -/
theorem emitAll_inStep
    (hassets : ∀ uploads kind bytes,
      InStep R E Eq (assets uploads kind bytes) (assets' uploads kind bytes))
    (parent : ParentContext) (nodes : List Node) {nodes' : List Node} (h : AlikeAll ρ nodes nodes')
    (hbitmaps : ∀ item ∈ itemsOfAll nodes, ∀ address', ρ item.address address' →
      item.readdressed address' ∈ itemsOfAll nodes' → ∀ withChildren,
        InStep R E Eq (bitmap host item withChildren)
          (bitmap host' (item.readdressed address') withChildren)) :
    InStep R E (Fragment.SameBut ρ) (emitAll ⟨s, host, assets, images⟩ parent nodes)
      (emitAll ⟨s, host', assets', images⟩ parent nodes') := by
  match nodes with
  | [] =>
    cases h
    exact .pure .empty
  | n :: rest =>
    cases h with
    | cons hfirst hrest =>
      rw [itemsOfAll, itemsOfAll] at hbitmaps
      rw [emitAll_cons, emitAll_cons]
      have hn := emit_inStep hassets parent n hfirst fun item hitem address' h hitem' =>
        hbitmaps item (List.mem_append_left _ hitem) address' h (List.mem_append_left _ hitem')
      have hothers := emitAll_inStep hassets parent rest hrest fun item hitem address' h hitem' =>
        hbitmaps item (List.mem_append_right _ hitem) address' h (List.mem_append_right _ hitem')
      exact hn.bind fun _ _ hf => hothers.bind fun _ _ hg => .pure (hf.append hg)

end

end Trees

end EmitContext

end Artboard
