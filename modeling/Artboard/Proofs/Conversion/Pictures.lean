import Artboard.Proofs.Conversion.Provenance
import Artboard.Proofs.Conversion.Stages
import Artboard.Proofs.Markup.Depictions

/-!
# Which images are drawn

An item that shows its bitmap gets it from an upload or from the exported bytes, or a placeholder
stands for it; only in a preview there may be nothing (`Trail.Obtains`). All images in the markup of
a node are such a bitmap, the vector that stands for a layer, or the background that the name of a
colour variable spells (`EmitContext.Shown`).
-/

namespace Artboard

open Pass

/-! ## Bitmaps -/

namespace Trail

/-- What may come of the bitmap of an item. -/
inductive Obtains (t : Trail) (images : ImageMode) (item : Item) (withChildren : Bool) :
    Picture → Prop
  | missing (himages : images = .preview) : Obtains t images item withChildren (none, [])
  | remote {url : String} (himages : images = .code) (hurl : t.uploader.Answers url) :
      Obtains t images item withChildren (some (.remote url), [])
  | embedded {bytes : Text.Bytes} (hbytes : t.Exported item.address withChildren bytes) :
      Obtains t images item withChildren (some (.embedded bytes), [])
  | placeholder (himages : images ≠ .preview) :
      Obtains t images item withChildren
        (some (.placeholder item.geometry.width item.geometry.height),
          [placeholderWarning item.name])

/-- The picture of an item: what comes of its bitmap, if it shows one. -/
def Pictures (t : Trail) (images : ImageMode) (item : Item) (picture : Picture) : Prop :=
  match item.bitmap? with
  | some withChildren => t.Obtains images item withChildren picture
  | none => picture = (none, [])

variable {t : Trail} {settings : Settings} {images : ImageMode} {item : Item}

theorem ensures_image (hitem : item ∈ t.items) (withChildren : Bool) :
    t.Ensures (EmitContext.image ⟨settings, t.host, address t.uploader, images⟩ item withChildren)
      (t.Obtains images item withChildren) := by
  have hbitmap := ensures_bitmap hitem withChildren
  rw [EmitContext.image_eq]
  dsimp only
  split_ifs with hpreview
  · refine hbitmap.bind fun bytes => .pure fun hexported => ?_
    cases bytes with
    | none => exact .missing hpreview
    | some bytes => exact .embedded (hexported bytes rfl)
  · have huploaded : t.Ensures
        (EmitContext.uploaded ⟨settings, t.host, address t.uploader, images⟩ item withChildren)
        fun url? => ∀ url, url? = some url → images = .code ∧ t.uploader.Answers url := by
      rw [EmitContext.uploaded_eq]
      dsimp only
      split_ifs with huploads
      · simp only [Bool.and_eq_true, decide_eq_true_eq] at huploads
        refine hbitmap.bind fun bytes => ?_
        cases bytes with
        | none => exact .pure nofun
        | some bytes =>
          exact (t.ensures_address _ _ bytes).mono fun url? h _ url hurl => ⟨huploads.1, h url hurl⟩
      · exact .pure nofun
    have hembedded : t.Ensures
        (EmitContext.embedded ⟨settings, t.host, address t.uploader, images⟩ item withChildren)
        fun bytes? => ∀ bytes, bytes? = some bytes →
          t.Exported item.address withChildren bytes := by
      rw [EmitContext.embedded_eq]
      split_ifs
      · exact hbitmap
      · exact .pure nofun
    refine huploaded.bind fun url? => ?_
    cases url? with
    | some url => exact .pure fun hurl => .remote (hurl url rfl).1 (hurl url rfl).2
    | none =>
      refine hembedded.bind fun bytes? => ?_
      cases bytes? with
      | some bytes => exact .pure fun hbytes _ => .embedded (hbytes bytes rfl)
      | none => exact .pure fun _ _ => .placeholder hpreview

theorem ensures_pictured (hitem : item ∈ t.items) :
    t.Ensures (EmitContext.pictured ⟨settings, t.host, address t.uploader, images⟩ item)
      (t.Pictures images item) := by
  unfold EmitContext.pictured Pictures
  cases item.bitmap? with
  | some withChildren => exact ensures_image hitem withChildren
  | none => exact .pure rfl

end Trail

/-! ## Drawings with pictures -/

namespace EmitContext

mutual

/-- What is drawn for a node, pictures being given in some way. -/
inductive Emits (cx : EmitContext) (pictures : Item → Picture → Prop) :
    ParentContext → Node → Fragment → Prop
  | closed {parent : ParentContext} {item : Item} {children : List Node} {picture : Picture}
      (hopen : item.isOpen = false) (hpicture : pictures item picture) :
      Emits cx pictures parent (.node item children) (cx.drawn item children parent picture {})
  | opened {parent : ParentContext} {item : Item} {children : List Node} {picture : Picture}
      {inside : Fragment} (hopen : item.isOpen = true) (hpicture : pictures item picture)
      (hinside : EmitsAll cx pictures (.inside item) children inside) :
      Emits cx pictures parent (.node item children)
        (cx.drawn item children parent picture inside)

/-- What is drawn for siblings. -/
inductive EmitsAll (cx : EmitContext) (pictures : Item → Picture → Prop) :
    ParentContext → List Node → Fragment → Prop
  | nil {parent : ParentContext} : EmitsAll cx pictures parent [] {}
  | cons {parent : ParentContext} {n : Node} {rest : List Node} {first others : Fragment}
      (hfirst : Emits cx pictures parent n first)
      (hrest : EmitsAll cx pictures parent rest others) :
      EmitsAll cx pictures parent (n :: rest) (first.append others)

end

variable {I : World → Prop} {exports : List ExportRequest} {items : List Item} {cx : EmitContext}
  {pictures : Item → Picture → Prop}

mutual

/-- Stage by stage. -/
theorem leads_emit
    (hpictured : ∀ item ∈ items, Leads I exports (cx.pictured item) (pictures item))
    (parent : ParentContext) (n : Node) (hitems : ∀ item ∈ n.items, item ∈ items) :
    Leads I exports (cx.emit parent n) (cx.Emits pictures parent n) := by
  match n with
  | .node item children =>
    obtain ⟨hitem, hchildren⟩ := List.forall_mem_cons.1 hitems
    rw [emit_eq]
    cases hopen : item.isOpen with
    | true =>
      rw [inside, if_pos hopen]
      refine (leads_emitAll hpictured (.inside item) children hchildren).bind fun inside => ?_
      exact (hpictured item hitem).bind fun picture => .pure fun hpicture hinside =>
        .opened hopen hpicture hinside
    | false =>
      rw [inside_of_not_isOpen hopen, pure_bind]
      refine (hpictured item hitem).bind fun picture => .pure fun hpicture => ?_
      exact .closed hopen hpicture

theorem leads_emitAll
    (hpictured : ∀ item ∈ items, Leads I exports (cx.pictured item) (pictures item))
    (parent : ParentContext) (nodes : List Node)
    (hitems : ∀ item ∈ Node.itemsOfAll nodes, item ∈ items) :
    Leads I exports (cx.emitAll parent nodes) (cx.EmitsAll pictures parent nodes) := by
  match nodes with
  | [] =>
    rw [emitAll_nil]
    exact .pure .nil
  | n :: rest =>
    obtain ⟨hn, hrest⟩ := List.forall_mem_append.1 hitems
    rw [emitAll_cons]
    refine (leads_emit hpictured parent n hn).bind fun first => ?_
    exact (leads_emitAll hpictured parent rest hrest).bind fun others => .pure fun hothers hfirst =>
      .cons hfirst hothers

end

end EmitContext

theorem Trail.ensures_emitAll (t : Trail) (settings : Settings) (images : ImageMode)
    (parent : ParentContext) (nodes : List Node)
    (hitems : ∀ item ∈ Node.itemsOfAll nodes, item ∈ t.items) :
    t.Ensures (EmitContext.emitAll ⟨settings, t.host, address t.uploader, images⟩ parent nodes)
      (EmitContext.EmitsAll ⟨settings, t.host, address t.uploader, images⟩ (t.Pictures images)
        parent nodes) :=
  EmitContext.leads_emitAll (fun _ hitem => ensures_pictured hitem) parent nodes hitems

/-! ## Images of an item -/

/-- Where the image comes from that an item shows: from its bitmap, or from the address of the
vector that stands for it. -/
def Item.shownSource (i : Item) (picture : Picture) : Option ImageSource :=
  match i.tag, i.artifact with
  | .none, some (.remote url) => some (.remote url)
  | _, _ => picture.1

/-- A vector is shown only where there is no bitmap. -/
theorem Item.shownSource_cases (i : Item) (picture : Picture) :
    i.shownSource picture = picture.1 ∨ i.bitmap? = none ∧
      ∃ url, i.artifact = some (.remote url) ∧ i.shownSource picture = some (.remote url) := by
  unfold shownSource
  split
  case h_1 url htag hartifact =>
    exact .inr ⟨by simp [bitmap?, htag, hartifact], url, hartifact, rfl⟩
  case h_2 => exact .inl rfl

namespace EmitContext

open Markup (Depiction Head depictionsOfAll)
open Style (Tints imageUrls)

/-- The images of the elements that stand for an item itself. It has at most one image of its own,
as the content of an element or, around other nodes, as the background; all others are spelled by
colours. -/
inductive Shown (settings : Settings) (item : Item) : Option ImageSource → List Depiction → Prop
  | nothing : Shown settings item none []
  | plain {us : List Utility} (htints : Tints item.fills us) :
      Shown settings item none
        ((imageUrls settings (.ofUtilities us)).map (⟨item.address, ·, true⟩))
  | content {us : List Utility} {source : ImageSource} (htints : Tints item.fills us)
      (hopen : item.isOpen = false) :
      Shown settings item (some source)
        (⟨item.address, source.url, false⟩ ::
          (imageUrls settings (.ofUtilities us)).map (⟨item.address, ·, true⟩))
  | background {us : List Utility} {source : ImageSource} (htints : Tints item.fills us)
      (hopen : item.isOpen = true) :
      Shown settings item (some source)
        ((imageUrls settings
          { backdrop source with utilities := us ++ (backdrop source).utilities }).map
            (⟨item.address, ·, true⟩))

variable {cx : EmitContext} {item : Item} {children : List Node} {parent : ParentContext}
  {picture : Picture} {inside : Fragment} {us : List Utility}

/-- A backdrop adds the address of its image, in a class or in a declaration. -/
theorem mem_imageUrls_backdrop_iff {settings : Settings} {source : ImageSource} {url : String} :
    url ∈ imageUrls settings
        { backdrop source with utilities := us ++ (backdrop source).utilities } ↔
      url = source.url ∨ url ∈ imageUrls settings (.ofUtilities us) := by
  have hcover : (Utility.keyword .cover).text settings ≠ imageClass url := by
    intro h
    have hprefix : "bg-[url(".toList <+: (Keyword.text .cover).toList := by
      refine ⟨(url ++ ")]").toList, ?_⟩
      rw [← String.toList_append, ← String.append_assoc]
      exact congrArg String.toList h.symm
    exact absurd hprefix (by decide)
  have hclass (u : String) :
      (Utility.backgroundImage u).text settings = imageClass url ↔ url = u := by
    show imageClass u = imageClass url ↔ _
    rw [imageClass, imageClass, String.append_left_inj, String.append_right_inj, eq_comm]
  have hdeclaration (u : String) : imageDeclaration url = imageDeclaration u ↔ url = u := by
    rw [imageDeclaration, imageDeclaration, Prod.mk.injEq, String.append_left_inj,
      String.append_right_inj, and_iff_right rfl]
  rw [Style.mem_imageUrls_iff, Style.mem_imageUrls_iff]
  cases source with
  | embedded bytes =>
    show (∃ u ∈ us ++ [.keyword .cover], _) ∨
      imageDeclaration url ∈ [imageDeclaration (ImageSource.embedded bytes).url] ↔ _
    simp only [Style.ofUtilities, List.mem_append, List.mem_cons, List.not_mem_nil, or_false,
      or_and_right, exists_or, exists_eq_left, hcover, hdeclaration]
    exact or_comm
  | remote | placeholder =>
    simp only [backdrop, Style.ofUtilities, List.mem_append, List.mem_cons, List.not_mem_nil,
      or_false, or_and_right, exists_or, exists_eq_left, hcover, hclass]
    exact or_comm

namespace Shown

variable {settings : Settings} {shown : List Depiction}

/-- An image of its own is among those that an item shows. -/
theorem own_mem {source : ImageSource} (h : Shown settings item (some source) shown) :
    ⟨item.address, source.url, item.isOpen⟩ ∈ shown := by
  cases h with
  | content _ hopen =>
    rw [hopen]
    exact List.mem_cons_self
  | background _ hopen =>
    rw [hopen]
    exact List.mem_map_of_mem (mem_imageUrls_backdrop_iff.2 (.inl rfl))

/-- An item shows nothing but its own image and what its colours spell. -/
theorem eq_or_spells {source : Option ImageSource} {d : Depiction}
    (h : Shown settings item source shown) (hd : d ∈ shown) :
    (∃ s, source = some s ∧ d = ⟨item.address, s.url, item.isOpen⟩) ∨
      d.source = item.address ∧ d.isBackground = true ∧
        ∃ fill, Fill.solid fill ∈ item.fills ∧ fill.Spells d.url := by
  cases h with
  | nothing => cases hd
  | plain htints =>
    obtain ⟨url, hurl, rfl⟩ := List.mem_map.1 hd
    exact .inr ⟨rfl, rfl, htints.spells hurl⟩
  | content htints hopen =>
    rw [hopen]
    rcases List.mem_cons.1 hd with rfl | hd
    · exact .inl ⟨_, rfl, rfl⟩
    · obtain ⟨url, hurl, rfl⟩ := List.mem_map.1 hd
      exact .inr ⟨rfl, rfl, htints.spells hurl⟩
  | background htints hopen =>
    rw [hopen]
    obtain ⟨url, hurl, rfl⟩ := List.mem_map.1 hd
    rcases mem_imageUrls_backdrop_iff.1 hurl with rfl | hurl
    · exact .inl ⟨_, rfl, rfl⟩
    · exact .inr ⟨rfl, rfl, htints.spells hurl⟩

/-- No image is shown twice, unless bytes are declared and spelled as well. -/
theorem nodup {source : Option ImageSource} (h : Shown settings item source shown)
    (hsource : ∀ bytes, source ≠ some (.embedded bytes)) : shown.Nodup := by
  have hmap {s : Style} (hs : s.declarations = []) :
      ((imageUrls settings s).map fun url => (⟨item.address, url, true⟩ : Depiction)).Nodup :=
    (Style.nodup_imageUrls hs).map fun _ _ h => congrArg Depiction.url h
  cases h with
  | nothing => exact List.nodup_nil
  | plain => exact hmap rfl
  | content =>
    refine List.nodup_cons.2 ⟨fun hmem => ?_, hmap rfl⟩
    obtain ⟨_, -, h⟩ := List.mem_map.1 hmem
    cases h
  | @background us source =>
    cases source with
    | embedded bytes => exact absurd rfl (hsource bytes)
    | remote | placeholder => exact hmap rfl

end Shown

/-! ### Elements -/

theorem tints_base : Tints item.fills (base item children parent) :=
  (Style.tints_position.append (Style.tints_of_marked Style.marked_size)).append
    (Style.tints_of_marked Style.marked_effects)

theorem tints_containerUtilities : Tints item.fills (containerUtilities item children parent) :=
  (tints_base.append Style.tints_childLayout).append Style.tints_paint

theorem depictions_head {urls : Style → List String} {head : Head Style} (htag : head.tag ≠ "img") :
    head.depictions urls = (urls head.style).map (⟨head.source, ·, true⟩) := by
  rw [Head.depictions, if_neg htag]
  rfl

/-- An element that is no image. -/
theorem shown_leaf {head : Head Style} (hsource : head.source = item.address)
    (htag : head.tag ≠ "img") (hstyle : head.style = .ofUtilities us) (htints : Tints item.fills us)
    {content : Markup.Content Style}
    (hcontent : content.styles.flatMap (imageUrls cx.settings) = []) :
    Shown cx.settings item none (cx.depictions [.leaf head content]) := by
  rw [depictions_eq, Markup.depictionsOfAll_singleton, Markup.depictions, Markup.Content.depictions,
    hcontent, depictions_head htag, hsource, hstyle]
  exact .plain htints

theorem shown_box {tag : String} (htag : tag ≠ "img") (htints : Tints item.fills us) :
    Shown cx.settings item none (cx.depictions [cx.box tag item us]) :=
  shown_leaf rfl htag rfl htints rfl

theorem shown_picture (htints : Tints item.fills us) (hopen : item.isOpen = false)
    (source : Option ImageSource) :
    Shown cx.settings item source (cx.depictions [cx.picture item us source]) := by
  cases source with
  | none => exact shown_box (by decide) htints
  | some source =>
    have hname : (cx.layerName item).filterMap Markup.Attribute.src? = [] := by
      unfold layerName
      split_ifs <;> rfl
    rw [depictions_eq, Markup.depictionsOfAll_singleton]
    simp only [picture, Markup.depictions, Markup.Content.depictions, Markup.Content.styles,
      Head.depictions, head, if_true, List.filterMap_append, hname]
    exact .content htints hopen

theorem shown_slot (kind : SlotKind) (subtype id : String) :
    Shown cx.settings item none (cx.depictions (cx.slot item kind subtype id parent).markup) := by
  have htag : "Slot" ++ kind.suffix ≠ "img" ∧
      (if kind = .generic then "slot-placeholder" else "slot-" ++ Text.asciiSmall kind.suffix) ≠
        "img" := by
    cases kind <;> decide
  refine shown_leaf rfl ?_ rfl Style.tints_position rfl
  cases cx.settings.mode with
  | jsx => exact htag.1
  | html => exact htag.2

/-- The runs of a text have no background. -/
theorem shown_text (content : TextContent) :
    Shown cx.settings item none
      (cx.depictions (cx.text item content children parent).markup) := by
  have hblock : Tints item.fills (base item children parent ++ Style.alignment content) :=
    tints_base.append (Style.tints_of_marked (Style.marked_alignment content))
  have hspans (segments : List Segment) :
      (Markup.Content.spans (segments.map cx.span)).styles.flatMap (imageUrls cx.settings) =
        [] := by
    rw [List.flatMap_eq_nil_iff]
    intro style hstyle
    simp only [Markup.Content.styles, List.mem_filterMap, List.mem_map] at hstyle
    obtain ⟨_, ⟨s, -, rfl⟩, hs⟩ := hstyle
    obtain rfl := Option.some.inj hs
    refine List.eq_nil_iff_forall_not_mem.2 fun url hurl => ?_
    have htints : Tints [] (Style.run cx.settings s.style) :=
      Style.tints_of_marked (Style.marked_run cx.settings s.style)
    obtain ⟨fill, hfill, -⟩ := htints.spells hurl
    cases hfill
  have htag : "p" ≠ "img" := by decide
  unfold text
  rcases Segment.ofRuns content.runs with _ | ⟨only, _ | ⟨next, rest⟩⟩
  · exact shown_leaf rfl htag rfl hblock (hspans [])
  · exact shown_leaf rfl htag rfl
      (hblock.append (Style.tints_of_marked (Style.marked_run cx.settings only.style))) rfl
  · exact shown_leaf rfl htag rfl hblock (hspans (only :: next :: rest))

theorem depictions_around {head : Head Style} :
    cx.depictions (around head inside).markup =
      cx.depictions inside.markup ++ head.depictions (imageUrls cx.settings) := by
  rw [depictions_eq, depictions_eq]
  show depictionsOfAll _ [Markup.wrap head inside.markup] = _
  rw [Markup.depictionsOfAll_singleton, Markup.depictions_wrap]

/-! ### The last stage -/

/-- What is not open has nothing inside, and what shows no bitmap has no picture. -/
structure Fits (item : Item) (picture : Picture) (inside : Fragment) : Prop where
  closed : item.isOpen = false → inside = {}
  plain : item.bitmap? = none → picture = (none, [])

theorem framed_depictions (hopen : item.isOpen = true)
    (hskipped : isSkipped item = true → picture.1 = none) :
    ∃ own, cx.depictions (cx.framed item children parent picture inside).markup =
        cx.depictions inside.markup ++ own ∧ Shown cx.settings item picture.1 own := by
  unfold framed
  dsimp only
  split_ifs with hskip hempty
  · exact ⟨[], (List.append_nil _).symm, hskipped hskip ▸ .nothing⟩
  · refine ⟨[], (List.append_nil _).symm, ?_⟩
    cases hsource : picture.1 with
    | none => exact .nothing
    | some source =>
      rw [hsource, isEmpty_backdrop] at hempty
      cases hempty
  · refine ⟨_, depictions_around, ?_⟩
    rw [depictions_head (by simp [head])]
    cases picture.1 with
    | none =>
      rw [backdrop, List.append_nil]
      exact .plain tints_containerUtilities
    | some source => exact .background tints_containerUtilities hopen

/-- The images of a node are those inside it, and then its own. -/
theorem drawn_depictions (h : Fits item picture inside) :
    ∃ own, cx.depictions (cx.drawn item children parent picture inside).markup =
        cx.depictions inside.markup ++ own ∧
      Shown cx.settings item (item.shownSource picture) own := by
  -- What is not open has only images of its own.
  have hclosed {f : Fragment} {source : Option ImageSource} (hopen : item.isOpen = false)
      (hshown : Shown cx.settings item source (cx.depictions f.markup)) :
      ∃ own, cx.depictions f.markup = cx.depictions inside.markup ++ own ∧
        Shown cx.settings item source own := by
    rw [h.closed hopen]
    exact ⟨_, rfl, hshown⟩
  have hplain (hbitmap : item.bitmap? = none) : picture.1 = none := by rw [h.plain hbitmap]
  unfold drawn Item.shownSource
  cases htag : item.tag with
  | ignore =>
    rw [hplain (by rw [Item.bitmap?, htag])]
    exact hclosed (by rw [Item.isOpen, htag]) .nothing
  | prompt instruction =>
    rw [hplain (by rw [Item.bitmap?, htag])]
    exact hclosed (by rw [Item.isOpen, htag]) .nothing
  | slot kind subtype id =>
    rw [hplain (by rw [Item.bitmap?, htag])]
    exact hclosed (by rw [Item.isOpen, htag]) (shown_slot kind subtype id)
  | list id =>
    rw [hplain (by rw [Item.bitmap?, htag])]
    refine ⟨_, depictions_around, ?_⟩
    rw [depictions_head]
    · exact .plain tints_containerUtilities
    · cases cx.settings.mode with
      | jsx => exact (by decide : "List" ≠ "img")
      | html => exact (by decide : "list-container" ≠ "img")
  | canvas id =>
    rw [hplain (by rw [Item.bitmap?, htag])]
    exact hclosed (by rw [Item.isOpen, htag])
      (shown_leaf rfl (by decide : "canvas" ≠ "img") rfl tints_base rfl)
  | static =>
    have hopen : item.isOpen = false := by rw [Item.isOpen, htag]
    exact hclosed hopen (shown_picture tints_base hopen picture.1)
  | none =>
    dsimp only
    cases hartifact : item.artifact with
    | some artifact =>
      have hopen : item.isOpen = false := by simp [Item.isOpen, htag, hartifact]
      have hsource := hplain (by simp [Item.bitmap?, htag, hartifact])
      cases artifact with
      | svg markup =>
        rw [hsource]
        exact hclosed hopen (shown_leaf rfl (by decide : "div" ≠ "img") rfl tints_base rfl)
      | remote url => exact hclosed hopen (shown_picture tints_base hopen (some (.remote url)))
    | none =>
      have hopen : item.isOpen = item.kind.isContainer := by simp [Item.isOpen, htag, hartifact]
      dsimp only
      cases hkind : item.kind with
      | rectangle | ellipse =>
        have hclosed' : item.isOpen = false := by rw [hopen, hkind]; rfl
        dsimp only
        split_ifs with hwidth
        · rw [hplain (by simp [Item.bitmap?, htag, hartifact, hkind, hwidth])]
          exact hclosed hclosed' .nothing
        · exact hclosed hclosed' (shown_picture (tints_base.append Style.tints_paint) hclosed' _)
      | group | frame | «section» =>
        refine framed_depictions (by rw [hopen, hkind]; rfl) fun hskipped => hplain ?_
        simp [Item.bitmap?, htag, hartifact, hkind, hskipped]
      | text content =>
        rw [hplain (by simp [Item.bitmap?, htag, hartifact, hkind])]
        exact hclosed (by rw [hopen, hkind]; rfl) (shown_text content)
      | line =>
        rw [hplain (by simp [Item.bitmap?, htag, hartifact, hkind])]
        exact hclosed (by rw [hopen, hkind]; rfl)
          (shown_box (by decide) (tints_base.append (Style.tints_of_marked Style.marked_stroke)))
      | vector =>
        rw [hplain (by simp [Item.bitmap?, htag, hartifact, hkind])]
        exact hclosed (by rw [hopen, hkind]; rfl)
          (shown_box (by decide) (tints_base.append Style.tints_paint))
      | unsupported type =>
        rw [hplain (by simp [Item.bitmap?, htag, hartifact, hkind])]
        exact hclosed (by rw [hopen, hkind]; rfl) .nothing

/-- The warnings about an item itself. -/
def remarks (cx : EmitContext) (item : Item) (picture : Picture) : List String :=
  picture.2 ++
    match item.tag, item.artifact, item.kind with
    | .none, none, .vector => [cx.vectorWarning item.name]
    | .none, none, .unsupported type => (unsupported item type).warnings
    | _, _, _ => []

/-- The warnings about a node are those about what is inside it, and then its own. -/
theorem drawn_warnings (h : Fits item picture inside) :
    (cx.drawn item children parent picture inside).warnings =
      inside.warnings ++ cx.remarks item picture := by
  have hplain (hbitmap : item.bitmap? = none) : picture.2 = [] := by rw [h.plain hbitmap]
  have hclosed (hopen : item.isOpen = false) : inside.warnings = [] := by rw [h.closed hopen]
  unfold drawn remarks
  cases htag : item.tag with
  | ignore | prompt instruction | slot kind subtype id | canvas id =>
    rw [hplain (by rw [Item.bitmap?, htag]), hclosed (by rw [Item.isOpen, htag])]
    rfl
  | list id =>
    rw [hplain (by rw [Item.bitmap?, htag])]
    exact (List.append_nil _).symm
  | static =>
    rw [hclosed (by rw [Item.isOpen, htag])]
    exact (List.append_nil _).symm
  | none =>
    dsimp only
    cases hartifact : item.artifact with
    | some artifact =>
      rw [hplain (by simp [Item.bitmap?, htag, hartifact]),
        hclosed (by simp [Item.isOpen, htag, hartifact])]
      cases artifact <;> rfl
    | none =>
      have hopen : item.isOpen = item.kind.isContainer := by simp [Item.isOpen, htag, hartifact]
      dsimp only
      cases hkind : item.kind with
      | rectangle | ellipse =>
        rw [hclosed (by rw [hopen, hkind]; rfl)]
        dsimp only
        split_ifs with hwidth
        · rw [hplain (by simp [Item.bitmap?, htag, hartifact, hkind, hwidth])]
          rfl
        · exact (List.append_nil _).symm
      | group | frame | «section» =>
        unfold framed
        dsimp only
        split_ifs with hskipped
        · rw [hplain (by simp [Item.bitmap?, htag, hartifact, hkind, hskipped])]
          exact (List.append_nil _).symm
        · rw [List.append_nil]
        · rw [List.append_nil]
          rfl
      | text content | line | vector | unsupported type =>
        rw [hclosed (by rw [hopen, hkind]; rfl),
          hplain (by simp [Item.bitmap?, htag, hartifact, hkind])]
        rfl

end EmitContext

/-! ## Accounts -/

namespace Node

mutual

/-- The items that are drawn for a tree, each behind those inside it. -/
def drawnItems : Node → List Item
  | .node item children => (if item.isOpen then drawnItemsOfAll children else []) ++ [item]

def drawnItemsOfAll : List Node → List Item
  | [] => []
  | n :: rest => n.drawnItems ++ drawnItemsOfAll rest

end

mutual

theorem drawnItems_subperm (n : Node) : n.drawnItems.Subperm n.items := by
  match n with
  | .node item children =>
    have hinside : (if item.isOpen then drawnItemsOfAll children else []).Subperm
        (itemsOfAll children) := by
      split_ifs
      · exact drawnItemsOfAll_subperm children
      · exact List.nil_subperm
    exact (List.perm_append_singleton item _).subperm.trans ((List.subperm_cons item).2 hinside)

/-- Of the items of some trees only some may be drawn, but none twice. -/
theorem drawnItemsOfAll_subperm (nodes : List Node) :
    (drawnItemsOfAll nodes).Subperm (itemsOfAll nodes) := by
  match nodes with
  | [] => exact List.nil_subperm
  | n :: rest => exact (drawnItems_subperm n).append (drawnItemsOfAll_subperm rest)

end

end Node

namespace EmitContext

/-- An item with its picture and the images that it shows. -/
structure Drawing where
  item : Item
  picture : Picture
  shown : List Markup.Depiction

/-- An account of a drawing, item by item: the images and the warnings are those of each item, in
the order in which the items are drawn. -/
structure Accounts (cx : EmitContext) (pictures : Item → Picture → Prop) (items : List Item)
    (f : Fragment) (drawings : List Drawing) : Prop where
  items : drawings.map (·.item) = items
  pictures : ∀ d ∈ drawings, pictures d.item d.picture
  shown : ∀ d ∈ drawings, Shown cx.settings d.item (d.item.shownSource d.picture) d.shown
  depictions : cx.depictions f.markup = drawings.flatMap (·.shown)
  warnings : f.warnings = drawings.flatMap fun d => cx.remarks d.item d.picture

variable {cx : EmitContext} {pictures : Item → Picture → Prop}

namespace Accounts

variable {items others : List Item} {f g : Fragment} {drawings drawings' : List Drawing}

theorem nil : cx.Accounts pictures [] {} [] where
  items := rfl
  pictures := List.forall_mem_nil _
  shown := List.forall_mem_nil _
  depictions := by
    rw [depictions_eq, Markup.depictionsOfAll]
    rfl
  warnings := rfl

theorem append (h : cx.Accounts pictures items f drawings)
    (h' : cx.Accounts pictures others g drawings') :
    cx.Accounts pictures (items ++ others) (f.append g) (drawings ++ drawings') where
  items := by rw [List.map_append, h.items, h'.items]
  pictures := List.forall_mem_append.2 ⟨h.pictures, h'.pictures⟩
  shown := List.forall_mem_append.2 ⟨h.shown, h'.shown⟩
  depictions := by
    rw [List.flatMap_append, ← h.depictions, ← h'.depictions]
    simp [depictions_eq, Fragment.append]
  warnings := by
    rw [List.flatMap_append, ← h.warnings, ← h'.warnings]
    rfl

theorem item_mem (h : cx.Accounts pictures items f drawings) {d : Drawing} (hd : d ∈ drawings) :
    d.item ∈ items := by
  rw [← h.items]
  exact List.mem_map_of_mem hd

theorem exists_drawing (h : cx.Accounts pictures items f drawings) {item : Item}
    (hitem : item ∈ items) : ∃ d ∈ drawings, d.item = item := by
  rw [← h.items] at hitem
  exact List.mem_map.1 hitem

theorem exists_shown (h : cx.Accounts pictures items f drawings) {i : Markup.Depiction}
    (hi : i ∈ cx.depictions f.markup) : ∃ d ∈ drawings, i ∈ d.shown := by
  rw [h.depictions] at hi
  exact List.mem_flatMap.1 hi

/-- One more item, drawn around the others or behind them. -/
theorem concat {item : Item} {children : List Node} {parent : ParentContext} {picture : Picture}
    (h : cx.Accounts pictures items f drawings) (hpicture : pictures item picture)
    (hfits : Fits item picture f) :
    ∃ shown, cx.Accounts pictures (items ++ [item]) (cx.drawn item children parent picture f)
      (drawings ++ [⟨item, picture, shown⟩]) := by
  obtain ⟨own, hdepictions, hshown⟩ : ∃ own,
      cx.depictions (cx.drawn item children parent picture f).markup =
          cx.depictions f.markup ++ own ∧
        Shown cx.settings item (item.shownSource picture) own := drawn_depictions hfits
  refine ⟨own, ?_, ?_, ?_, ?_, ?_⟩
  · rw [List.map_append, h.items]
    rfl
  · exact List.forall_mem_append.2 ⟨h.pictures, List.forall_mem_singleton.2 hpicture⟩
  · exact List.forall_mem_append.2 ⟨h.shown, List.forall_mem_singleton.2 hshown⟩
  · rw [hdepictions, h.depictions, List.flatMap_append, List.flatMap_singleton]
  · rw [drawn_warnings hfits, h.warnings, List.flatMap_append, List.flatMap_singleton]

end Accounts

mutual

/-- The induction is that of the drawing: what is inside an item comes before the item. -/
theorem Emits.exists_accounts {parent : ParentContext} {n : Node} {f : Fragment}
    (h : cx.Emits pictures parent n f)
    (hplain : ∀ item picture, pictures item picture → item.bitmap? = none → picture = (none, [])) :
    ∃ drawings, cx.Accounts pictures n.drawnItems f drawings := by
  cases h with
  | closed hopen hpicture =>
    rw [Node.drawnItems, hopen]
    obtain ⟨shown, h⟩ := Accounts.nil.concat hpicture ⟨fun _ => rfl, hplain _ _ hpicture⟩
    exact ⟨_, h⟩
  | opened hopen hpicture hinside =>
    obtain ⟨drawings, hdrawings⟩ := hinside.exists_accounts hplain
    rw [Node.drawnItems, if_pos hopen]
    obtain ⟨shown, h⟩ := hdrawings.concat hpicture
      ⟨fun hclosed => absurd (hopen.symm.trans hclosed) nofun, hplain _ _ hpicture⟩
    exact ⟨_, h⟩

theorem EmitsAll.exists_accounts {parent : ParentContext} {nodes : List Node} {f : Fragment}
    (h : cx.EmitsAll pictures parent nodes f)
    (hplain : ∀ item picture, pictures item picture → item.bitmap? = none → picture = (none, [])) :
    ∃ drawings, cx.Accounts pictures (Node.drawnItemsOfAll nodes) f drawings := by
  cases h with
  | nil => exact ⟨[], .nil⟩
  | cons hfirst hrest =>
    obtain ⟨drawings, hdrawings⟩ := hfirst.exists_accounts hplain
    obtain ⟨drawings', hdrawings'⟩ := hrest.exists_accounts hplain
    exact ⟨_, hdrawings.append hdrawings'⟩

end

end EmitContext

/-- **Whatever is drawn can be accounted for item by item.** -/
theorem Trail.ensures_accounts (t : Trail) (settings : Settings) (images : ImageMode)
    (parent : ParentContext) (nodes : List Node)
    (hitems : ∀ item ∈ Node.itemsOfAll nodes, item ∈ t.items) :
    t.Ensures (EmitContext.emitAll ⟨settings, t.host, address t.uploader, images⟩ parent nodes)
      fun f => ∃ drawings,
        EmitContext.Accounts ⟨settings, t.host, address t.uploader, images⟩ (t.Pictures images)
          (Node.drawnItemsOfAll nodes) f drawings := by
  refine (t.ensures_emitAll settings images parent nodes hitems).mono fun f hf => ?_
  refine hf.exists_accounts fun item picture hpicture hbitmap => ?_
  rwa [Trail.Pictures, hbitmap] at hpicture

end Artboard
