import Artboard.Proofs.Conversion.Courses

/-!
# What is drawn in a poorer form

Drawing never fails. A bitmap that cannot be had is replaced by a placeholder, a vector without
markup of its own by a box, and a layer of an unknown kind is left out; each time there is a warning
(`EmitContext.degradation`).

**Exactly one warning each** (`Services.compile_degradations`). The warnings about the code, before
equal ones are dropped, are those of the items that are drawn, in order. Placeholders are found in
the markup, so there are as many of them as there are warnings about placeholders.
-/

namespace Artboard

open Text (Bytes)

/-! ## Placeholders -/

/-- The address of a placeholder. -/
def IsPlaceholder (url : String) : Prop := ∃ width height, url = placeholderUrl width height

/-- A warning about a placeholder. -/
def IsPlaceholderWarning (message : String) : Prop := ∃ name, message = placeholderWarning name

theorem IsPlaceholder.exists_toList {url : String} (h : IsPlaceholder url) :
    ∃ rest, url.toList = placeholderHost.toList ++ rest := by
  obtain ⟨width, height, rfl⟩ := h
  simp only [placeholderUrl, String.append_assoc, String.toList_append]
  exact ⟨_, rfl⟩

theorem IsPlaceholder.slash_mem {url : String} (h : IsPlaceholder url) : '/' ∈ url.toList := by
  obtain ⟨rest, hrest⟩ := h.exists_toList
  rw [hrest]
  exact List.mem_append_left _ (by decide)

theorem not_isPlaceholder_dataUri (bytes : Bytes) (kind : AssetKind) :
    ¬IsPlaceholder (dataUri bytes kind) := by
  intro h
  obtain ⟨rest, hrest⟩ := h.exists_toList
  simp only [dataUri, String.append_assoc, String.toList_append] at hrest
  cases hrest

/-! ## Warnings -/

/-- The warning about a layer of an unknown kind. -/
def unsupportedWarning (name type : String) : String :=
  s!"Unsupported node type {type} on layer \"{name}\" was skipped"

/-- Other warnings begin in other ways. -/
theorem not_isPlaceholderWarning {start rest : String}
    (hstart : ¬start.toList <+: "Image in \"".toList ∧ ¬"Image in \"".toList <+: start.toList) :
    ¬IsPlaceholderWarning (start ++ rest) := by
  rintro ⟨name, h⟩
  have hlist := congrArg String.toList h
  simp only [placeholderWarning, String.append_assoc, String.toList_append] at hlist
  rcases List.prefix_or_prefix_of_prefix (List.prefix_append _ _) ⟨_, hlist.symm⟩ with h | h
  · exact hstart.1 h
  · exact hstart.2 h

theorem not_isPlaceholderWarning_unsupportedWarning (name type : String) :
    ¬IsPlaceholderWarning (unsupportedWarning name type) := by
  unfold unsupportedWarning
  rw [String.append_assoc, String.append_assoc, String.append_assoc]
  exact not_isPlaceholderWarning (by decide)

/-- What is known of an item after normalization: where its vector is shown from, that its colours
spell no address with a slash, and that a layer of an unknown kind has no vector. -/
structure Trail.Knows (t : Trail) (settings : Settings) (item : Item) : Prop where
  vouches : t.Vouches settings item
  slash_not_mem : ∀ {fill url}, Fill.solid fill ∈ item.fills → fill.Spells url →
    '/' ∉ url.toList
  artifact_eq_none : ∀ {type}, item.kind = .unsupported type → item.artifact = none

namespace EmitContext

variable {cx : EmitContext}

theorem not_isPlaceholderWarning_vectorWarning (name : String) :
    ¬IsPlaceholderWarning (cx.vectorWarning name) := by
  unfold vectorWarning
  simp only [String.append_assoc]
  split_ifs
  all_goals exact not_isPlaceholderWarning (by decide)

open Classical in
/-- The nodes that placeholders stand for in what is drawn, once for each placeholder. -/
noncomputable def placeholders (cx : EmitContext) (f : Fragment) : List Address :=
  ((cx.depictions f.markup).filter (IsPlaceholder ·.url)).map (·.source)

/-- The warning about an item that is drawn in a poorer form or left out for its kind, placeholders
standing for the bitmaps of some nodes. -/
def degradation (cx : EmitContext) (lost : List Address) (item : Item) : Option String :=
  match item.bitmap? with
  | some _ => if item.address ∈ lost then some (placeholderWarning item.name) else none
  | none =>
    match item.tag, item.kind with
    | .none, .vector => if item.artifact = none then some (cx.vectorWarning item.name) else none
    | .none, .unsupported type => some (unsupportedWarning item.name type)
    | _, _ => none

/-! ## Drawings -/

/-- The item shows a placeholder. -/
def Drawing.Lost (d : Drawing) : Prop :=
  ∃ s, d.item.shownSource d.picture = some s ∧ IsPlaceholder s.url

variable {t : Trail} {settings : Settings} {images : ImageMode} {d : Drawing} {lost : List Address}

open Classical in
/-- At most one of the images that an item shows is a placeholder: its own. -/
theorem Drawing.placeholders_eq {shownBy : Settings}
    (h : Shown shownBy d.item (d.item.shownSource d.picture) d.shown)
    (hknown : t.Knows settings d.item) :
    (d.shown.filter (IsPlaceholder ·.url)).map (·.source) =
      if d.Lost then [d.item.address] else [] := by
  have hown {i : Markup.Depiction} (hi : i ∈ d.shown) (hplaceholder : IsPlaceholder i.url) :
      ∃ s, d.item.shownSource d.picture = some s ∧
        i = ⟨d.item.address, s.url, d.item.isOpen⟩ := by
    rcases h.eq_or_spells hi with hown | ⟨-, -, fill, hfill, hspells⟩
    · exact hown
    · exact absurd hplaceholder.slash_mem (hknown.slash_not_mem hfill hspells)
  split_ifs with hlost
  · obtain ⟨s, hsource, hs⟩ := hlost
    rw [hsource] at h
    have hnodup : d.shown.Nodup := h.nodup fun bytes heq => by
      rw [Option.some.inj heq] at hs
      exact not_isPlaceholder_dataUri bytes .png hs
    have hfilter :
        d.shown.filter (IsPlaceholder ·.url) = [⟨d.item.address, s.url, d.item.isOpen⟩] := by
      rw [← List.perm_singleton,
        List.perm_ext_iff_of_nodup (hnodup.filter _) (List.nodup_singleton _)]
      intro i
      rw [List.mem_filter, List.mem_singleton, decide_eq_true_eq]
      constructor
      · rintro ⟨hi, hplaceholder⟩
        obtain ⟨s', hsource', rfl⟩ := hown hi hplaceholder
        rw [Option.some.inj (hsource.symm.trans hsource')]
      · rintro rfl
        exact ⟨h.own_mem, hs⟩
    rw [hfilter, List.map_singleton]
  · rw [List.filter_eq_nil_iff.2, List.map_nil]
    intro i hi hplaceholder
    have hplaceholder := of_decide_eq_true hplaceholder
    obtain ⟨s, hs, rfl⟩ := hown hi hplaceholder
    exact hlost ⟨s, hs, hplaceholder⟩

/-- A placeholder stands for a bitmap, and there is a warning about it and about nothing else. -/
theorem lost_cases (hpicture : t.Pictures images d.item d.picture)
    (hknown : t.Knows settings d.item)
    (hanswers : ∀ url, t.uploader.Answers url → ¬IsPlaceholder url) :
    (d.Lost ∧ images ≠ .preview ∧ d.item.bitmap?.isSome = true ∧
        d.picture.2 = [placeholderWarning d.item.name]) ∨
      ¬d.Lost ∧ d.picture.2 = [] := by
  obtain ⟨item, picture, shown⟩ := d
  unfold Drawing.Lost
  dsimp only at *
  rcases item.shownSource_cases picture with hsource | ⟨hbitmap, url, hartifact, hsource⟩
  · rw [hsource]
    cases hbitmap : item.bitmap? with
    | none =>
      rw [Trail.Pictures, hbitmap] at hpicture
      exact .inr (by simp [hpicture])
    | some withChildren =>
      rw [Trail.Pictures, hbitmap] at hpicture
      cases hpicture with
      | missing => exact .inr (by simp)
      | remote _ hurl => exact .inr (by simpa [ImageSource.url] using hanswers _ hurl)
      | embedded => exact .inr (by simp [ImageSource.url, not_isPlaceholder_dataUri])
      | placeholder himages => exact .inl ⟨⟨_, rfl, _, _, rfl⟩, himages, rfl, rfl⟩
  · rw [Trail.Pictures, hbitmap] at hpicture
    refine .inr ⟨?_, by rw [hpicture]⟩
    rw [hsource]
    rintro ⟨_, ⟨⟩, hplaceholder⟩
    exact hanswers url (hknown.vouches url hartifact).2.2 hplaceholder

/-- What shows a bitmap is not drawn in a poorer form for its kind. -/
theorem remark_of_bitmap? {item : Item} {withChildren : Bool}
    (hbitmap : item.bitmap? = some withChildren) : cx.remarks item (none, []) = [] := by
  unfold remarks
  cases htag : item.tag with
  | ignore | prompt instruction | slot kind subtype id | list id | canvas id | static => rfl
  | none =>
    cases item.artifact with
    | some artifact => rfl
    | none =>
      cases hkind : item.kind with
      | vector | unsupported type => simp [Item.bitmap?, htag, hkind] at hbitmap
      | rectangle | ellipse | group | frame | «section» | text content | line => rfl

/-- The warnings about an item, read off what is shown. -/
theorem remarks_eq {item : Item} {picture : Picture} (hknown : t.Knows settings item)
    (hpicture : item.address ∈ lost ∧ item.bitmap?.isSome = true ∧
        picture.2 = [placeholderWarning item.name] ∨ item.address ∉ lost ∧ picture.2 = []) :
    cx.remarks item picture = (cx.degradation lost item).toList := by
  have hremarks : cx.remarks item picture = picture.2 ++ cx.remarks item (none, []) := rfl
  rw [hremarks, degradation]
  cases hbitmap : item.bitmap? with
  | some withChildren =>
    rw [remark_of_bitmap? hbitmap, List.append_nil]
    rcases hpicture with ⟨hlost, -, hpicture⟩ | ⟨hlost, hpicture⟩
    · rw [hpicture, if_pos hlost]
      rfl
    · rw [hpicture, if_neg hlost]
      rfl
  | none =>
    rcases hpicture with ⟨-, hsome, -⟩ | ⟨-, hpicture⟩
    · rw [hbitmap] at hsome
      cases hsome
    rw [hpicture, List.nil_append, remarks]
    cases item.tag with
    | ignore | prompt instruction | slot kind subtype id | list id | canvas id | static => rfl
    | none =>
      cases hkind : item.kind with
      | unsupported type =>
        rw [hknown.artifact_eq_none hkind]
        rfl
      | vector => cases item.artifact <;> rfl
      | rectangle | ellipse | group | frame | «section» | text content | line =>
        cases item.artifact <;> rfl

open Classical in
/-- Warnings about placeholders are those about lost bitmaps. -/
theorem isPlaceholderWarning_degradation {item : Item} :
    ((cx.degradation lost item).map (decide <| IsPlaceholderWarning ·)).getD false = true ↔
      item.bitmap?.isSome = true ∧ item.address ∈ lost := by
  unfold degradation
  cases item.bitmap? with
  | some withChildren =>
    dsimp only
    split_ifs with hlost
    · simpa [hlost] using ⟨item.name, rfl⟩
    · simpa using hlost
  | none =>
    dsimp only
    split
    · split_ifs
      · simp [not_isPlaceholderWarning_vectorWarning]
      · simp
    · simp [not_isPlaceholderWarning_unsupportedWarning]
    · simp

/-! ## Accounts -/

namespace Accounts

variable {items : List Item} {f : Fragment} {drawings : List Drawing}
  (h : cx.Accounts (t.Pictures images) items f drawings)
  (hknown : ∀ item ∈ items, t.Knows settings item)
  (hanswers : ∀ url, t.uploader.Answers url → ¬IsPlaceholder url)
  (hnodup : (items.map (·.address)).Nodup)
include h hknown

open Classical in
theorem placeholders_eq :
    cx.placeholders f = (drawings.filter (·.Lost)).map (·.item.address) := by
  have hshown : ∀ d ∈ drawings, (d.shown.filter (IsPlaceholder ·.url)).map (·.source) =
      if d.Lost then [d.item.address] else [] := fun d hd =>
    Drawing.placeholders_eq (h.shown d hd) (hknown _ (h.item_mem hd))
  rw [placeholders, h.depictions, List.filter_flatMap, List.map_flatMap, List.flatMap_congr hshown]
  clear * -
  induction drawings with
  | nil => rfl
  | cons d rest ih => by_cases hlost : d.Lost <;> simp [hlost, ih]

/-- No placeholder is in a preview. -/
theorem placeholders_eq_nil (hanswers : ∀ url, t.uploader.Answers url → ¬IsPlaceholder url)
    (himages : images = .preview) : cx.placeholders f = [] := by
  classical
  rw [h.placeholders_eq hknown, List.filter_eq_nil_iff.2, List.map_nil]
  intro d hd hlost
  rcases lost_cases (h.pictures d hd) (hknown _ (h.item_mem hd)) hanswers with
    ⟨-, hpreview, -⟩ | ⟨hlost', -⟩
  · exact hpreview himages
  · exact hlost' (of_decide_eq_true hlost)

include hnodup

/-- A placeholder in the markup is that of the item with its address. -/
theorem mem_placeholders_iff (hd : d ∈ drawings) :
    d.item.address ∈ cx.placeholders f ↔ d.Lost := by
  classical
  rw [h.placeholders_eq hknown]
  rw [← h.items, List.map_map] at hnodup
  constructor
  · intro hmem
    obtain ⟨d', hd', haddress⟩ := List.mem_map.1 hmem
    obtain ⟨hd', hlost⟩ := List.mem_filter.1 hd'
    obtain rfl := List.inj_on_of_nodup_map hnodup hd' hd haddress
    exact of_decide_eq_true hlost
  · intro hlost
    exact List.mem_map_of_mem (List.mem_filter.2 ⟨hd, decide_eq_true hlost⟩)

include hanswers

/-- The warnings are those about each item, in order. -/
theorem warnings_eq : f.warnings = items.filterMap (cx.degradation (cx.placeholders f)) := by
  rw [h.warnings, List.filterMap_eq_flatMap_toList, ← h.items, List.flatMap_map]
  refine List.flatMap_congr fun d hd => ?_
  have hitem := hknown _ (h.item_mem hd)
  refine remarks_eq hitem ?_
  rw [h.mem_placeholders_iff hknown hnodup hd]
  rcases lost_cases (h.pictures d hd) hitem hanswers with
    ⟨hlost, -, hbitmap, hpicture⟩ | hpicture
  · exact .inl ⟨hlost, hbitmap, hpicture⟩
  · exact .inr hpicture

open Classical in
/-- There are as many placeholders as warnings about them. -/
theorem length_placeholders :
    (cx.placeholders f).length = f.warnings.countP (IsPlaceholderWarning ·) := by
  have hlength : (cx.placeholders f).length = drawings.countP (·.Lost) := by
    rw [h.placeholders_eq hknown, List.length_map, List.countP_eq_length_filter]
  rw [hlength, h.warnings_eq hknown hanswers hnodup, List.countP_filterMap, ← h.items,
    List.countP_map]
  refine List.countP_congr fun d hd => ?_
  rw [decide_eq_true_eq, Function.comp_apply, isPlaceholderWarning_degradation,
    h.mem_placeholders_iff hknown hnodup hd]
  constructor
  · intro hlost
    rcases lost_cases (h.pictures d hd) (hknown _ (h.item_mem hd)) hanswers with
      ⟨-, -, hbitmap, -⟩ | ⟨hlost', -⟩
    · exact ⟨hbitmap, hlost⟩
    · exact absurd hlost hlost'
  · exact And.right

end Accounts

end EmitContext

/-! ## Conversions -/

/-- A layer of an unknown kind never gets a vector. -/
theorem NormalizeContext.ItemOf.artifact_eq_none {cx : NormalizeContext} {address : Address}
    {s : Scene} {item : Item} (h : cx.ItemOf address s item) {type : String}
    (hkind : item.kind = .unsupported type) : item.artifact = none := by
  by_contra hartifact
  obtain ⟨-, -, hvectors⟩ := h.of_artifact hartifact
  have htype : NodeKind.ofType s.layer.type = .vector ∨ NodeKind.ofType s.layer.type = .group ∨
      NodeKind.ofType s.layer.type = .frame := by
    cases hvectors with
    | vector hvector => exact .inl hvector
    | around haround => exact .inr haround
  have hunsupported : NodeKind.ofType s.layer.type = .unsupported type := by
    cases h with
    | plain origin | vector origin =>
      rwa [← apply_kind_item (· = .unsupported type) (fun _ _ => by simp) cx s address origin]
  rcases htype with htype | htype | htype <;> cases hunsupported.symm.trans htype

namespace Services

open Pass Node

theorem IsCourse.knows {host : Host} {uploader : Uploader} {settings : Settings}
    {options : ConversionOptions} {selection : Selection} {conversion : Conversion} {w : World}
    {c : Course}
    (h : (uploading host uploader).IsCourse settings options selection w conversion c)
    (hw : w.Answered uploader) {item : Item} (hitem : item ∈ itemsOfAll c.nodes.value) :
    (c.trail host uploader w).Knows settings item where
  vouches := (h.leads hw).1 item hitem
  slash_not_mem hfill hspells := by
    obtain ⟨s, hof⟩ := h.exists_itemOf hitem
    exact hof.slash_not_mem hfill hspells
  artifact_eq_none hkind := by
    obtain ⟨s, hof⟩ := h.exists_itemOf hitem
    exact hof.artifact_eq_none hkind

open Classical in
/-- **Every degradation is reported exactly once.** Let the uploader never answer with the address
of a placeholder. Then the warnings about the code are, in order, those about the items that are
drawn in a poorer form, the items inside a container coming before it; there are as many
placeholders in the code as there are warnings about placeholders; and none is in the preview. -/
theorem compile_degradations (host : Host) (uploader : Uploader) (initial : Settings)
    (before : List Session.Step) (settings : Settings) (options : ConversionOptions)
    (selection : Selection) (conversion : Conversion)
    (hanswers : ∀ url, uploader.Answers url → ¬IsPlaceholder url) :
    let services := uploading host uploader
    let cx := services.emitting settings options
    let w := (Session.run services { settings := initial } before).2.world
    (services.compile settings options selection w).1 = .ok (.converted conversion) →
      ∃ c, services.IsCourse settings options selection w conversion c ∧
        c.code.warnings = (drawnItemsOfAll c.nodes.value).filterMap
          (cx.degradation (cx.placeholders c.code)) ∧
        (cx.placeholders c.code).length = c.code.warnings.countP (IsPlaceholderWarning ·) ∧
        (Preview.context settings host services.assets).placeholders c.preview = [] := by
  intro services cx w hcompile
  obtain ⟨c, hcourse, -⟩ := exists_course (Prod.ext hcompile rfl)
  have hw : w.Answered uploader := Session.answered host uploader initial before
  obtain ⟨-, ⟨drawings, hcode⟩, ⟨drawings', hpreview⟩⟩ := hcourse.leads hw
  have hdrawn : ∀ item ∈ drawnItemsOfAll c.nodes.value,
      (c.trail host uploader w).Knows settings item := fun _ hitem =>
    hcourse.knows hw ((drawnItemsOfAll_subperm c.nodes.value).subset hitem)
  have hshown : ∀ item ∈ drawnItemsOfAll (dropPrompts c.nodes.value),
      (c.trail host uploader w).Knows settings item := fun _ hitem =>
    hcourse.knows hw ((itemsOfAll_dropPrompts_sublist c.nodes.value).subset
      ((drawnItemsOfAll_subperm (dropPrompts c.nodes.value)).subset hitem))
  exact ⟨c, hcourse, hcode.warnings_eq hdrawn hanswers hcourse.nodup_drawn,
    hcode.length_placeholders hdrawn hanswers hcourse.nodup_drawn,
    hpreview.placeholders_eq_nil hshown hanswers rfl⟩

open Classical in
/-- A card with a bitmap that is uploaded behind it, and in it a photo that cannot be exported, an
icon that is not to be exported, and a layer of an unknown kind. -/
theorem compile_degradations_card :
    let photo : Scene := .node
      { id := "photo", name := "Photo", type := "RECTANGLE", width := 40, height := 30,
        fills := [.image {}] } []
    let icon : Scene := .node
      { id := "icon", name := "Icon", type := "VECTOR", width := 24, height := 24 } []
    let sticky : Scene := .node { id := "note", name := "Note", type := "STICKY" } []
    let card : Selection := [.node
      { id := "card", name := "Card", type := "FRAME", width := 100, height := 100,
        fills := [.image {}] } [photo, icon, sticky]]
    let settings : Settings := { uploads := { enabled := true } }
    let host : Host := ⟨fun _ => none, fun _ request =>
      if request.id = "card" then .done "CARD".toUTF8.toList else .failed⟩
    let uploader : Uploader := fun _ request => .done ("https://cdn.test/" ++ request.key)
    let services := uploading host uploader
    let cx := services.emitting settings {}
    (∀ url, uploader.Answers url → ¬IsPlaceholder url) ∧
      ∃ conversion, (services.compile settings {} card {}).1 = .ok (.converted conversion) ∧
        ∃ c, services.IsCourse settings {} card {} conversion c ∧
          c.code.warnings = (drawnItemsOfAll c.nodes.value).filterMap
            (cx.degradation (cx.placeholders c.code)) ∧
          (cx.placeholders c.code).length = c.code.warnings.countP (IsPlaceholderWarning ·) ∧
          (Preview.context settings host services.assets).placeholders c.preview = [] := by
  intro photo icon sticky card settings host uploader services cx
  have hanswers : ∀ url, uploader.Answers url → ¬IsPlaceholder url := by
    rintro _ ⟨_, request, ⟨⟩⟩ hplaceholder
    obtain ⟨rest, hrest⟩ := hplaceholder.exists_toList
    rw [String.toList_append] at hrest
    cases hrest
  have hcode : (codeOf (services.compile settings {} card {}).1).isSome = true := by decide +kernel
  obtain ⟨conversion, hconversion⟩ := exists_of_codeOf hcode
  exact ⟨hanswers, conversion, hconversion,
    compile_degradations host uploader {} [] settings {} card conversion hanswers hconversion⟩

end Services

end Artboard
