import Artboard.Proofs.Conversion.Degradations

/-!
# Live conversions

A live conversion embeds its bitmaps. It comes to the same end with a source of assets that has no
addresses for bitmaps, whatever the settings say about embedding and uploading them
(`Services.compile_live_eq`), so it uploads nothing but vectors.

**Replies** (`Trail.Replied`). What the code shows for a bitmap follows from the reply of the design
tool alone: the bytes if there are any, and otherwise a placeholder, with a warning about it. The
bitmaps of a world record the replies to the items of the conversion, which their addresses tell
apart (`Trail.Records`).
-/

namespace Artboard

open Text (Bytes)

/-! ## Conversions without addresses for bitmaps -/

/-- The services without addresses for bitmaps. -/
def Services.vectorsOnly (services : Services) : Services where
  host := services.host
  assets uploads kind bytes :=
    match kind with
    | .svg => services.assets uploads .svg bytes
    | .png => pure none

/-- The settings with other answers to whether bitmaps are embedded or uploaded. -/
def Settings.storing (s : Settings) (embedImages : Bool) (bitmaps : Strategy) : Settings :=
  { s with embedImages, uploads := { s.uploads with bitmaps } }

/-- What a live conversion shows for a bitmap that it has or that it cannot have. -/
def Item.livePicture (i : Item) : Option Bytes → Picture
  | some bytes => (some (.embedded bytes), [])
  | none =>
    (some (.placeholder i.geometry.width i.geometry.height), [placeholderWarning i.name])

namespace EmitContext

variable {s s' : Settings} {host : Host} {assets assets' : AssetSource}

theorem image_live (item : Item) (withChildren : Bool) :
    image ⟨s, host, assets, .live⟩ item withChildren = (do
      let known ← Pass.bitmap host item withChildren
      pure (item.livePicture known)) := by
  rw [image_eq, uploaded_eq, embedded_eq]
  simp only [reduceCtorEq, ite_false, decide_false, Bool.false_and, decide_true, Bool.true_or,
    ite_true, pure_bind, Bool.false_eq_true]
  congr 1
  funext known
  cases known <;> rfl

theorem image_preview (item : Item) (withChildren : Bool) :
    image ⟨s, host, assets, .preview⟩ item withChildren = (do
      let known ← Pass.bitmap host item withChildren
      pure (known.map .embedded, [])) := by
  rw [image_eq, if_pos rfl]

/-- Live bitmaps depend on nothing but the design tool. -/
theorem pictured_live :
    pictured ⟨s, host, assets, .live⟩ = pictured ⟨s', host, assets', .live⟩ := by
  funext item
  unfold pictured
  cases item.bitmap? with
  | none => rfl
  | some withChildren => simp only [image_live]

theorem pictured_preview :
    pictured ⟨s, host, assets, .preview⟩ = pictured ⟨s', host, assets', .preview⟩ := by
  funext item
  unfold pictured
  cases item.bitmap? with
  | none => rfl
  | some withChildren => simp only [image_preview]

end EmitContext

namespace Services

open Pass

variable {host : Host} {uploader : Uploader} {settings : Settings} {options : ConversionOptions}

theorem normalize_storing (embedImages : Bool) (bitmaps : Strategy) :
    ((uploading host uploader).normalizing (settings.storing embedImages bitmaps)).normalize =
      ((uploading host uploader).vectorsOnly.normalizing settings).normalize := by
  refine NormalizeContext.normalize_congr rfl ?_
  funext s item
  simp only [NormalizeContext.flattened_eq, NormalizeContext.artifact_eq]
  rfl

theorem draw_storing (hlive : options.isLive = true) (embedImages : Bool) (bitmaps : Strategy) :
    (uploading host uploader).draw (settings.storing embedImages bitmaps) options =
      (uploading host uploader).vectorsOnly.draw settings options := by
  funext nodes
  have hcode : ((uploading host uploader).emitting (settings.storing embedImages bitmaps)
      options).emitRoots =
        ((uploading host uploader).vectorsOnly.emitting settings options).emitRoots := by
    unfold emitting
    rw [if_pos hlive]
    exact EmitContext.emitRoots_congr EmitContext.pictured_live rfl
  have hroots : (Preview.context (settings.storing embedImages bitmaps) host
      (address uploader)).emitRoots =
        (Preview.context settings host (uploading host uploader).vectorsOnly.assets).emitRoots :=
    EmitContext.emitRoots_congr EmitContext.pictured_preview rfl
  have hpreview : Preview.ofNodes (settings.storing embedImages bitmaps) host (address uploader)
      nodes.value =
        Preview.ofNodes settings host (uploading host uploader).vectorsOnly.assets nodes.value := by
    rw [Preview.ofNodes_eq, Preview.ofNodes_eq]
    dsimp only
    rw [hroots]
    rfl
  rw [draw_eq, draw_eq]
  dsimp only
  rw [hcode]
  exact congrArg _ (funext fun code => congrArg₂ (· >>= ·) hpreview rfl)

/-- **A live conversion does without addresses for bitmaps.** -/
theorem compile_live_eq (host : Host) (uploader : Uploader) (settings : Settings)
    (options : ConversionOptions) (selection : Selection) (w : World)
    (hlive : options.isLive = true) (embedImages : Bool) (bitmaps : Strategy) :
    (uploading host uploader).compile (settings.storing embedImages bitmaps) options selection w =
      (uploading host uploader).vectorsOnly.compile settings options selection w := by
  unfold compile
  rw [run_eq, run_eq, normalize_storing, draw_storing hlive]

end Services

/-! ## Uploads -/

/-- A request for an address sends nothing, or assets of one kind, be the pipeline in whatever
state. -/
theorem Pass.runIn_address_uploads (uploader : Uploader) (uploads : UploadSettings)
    (kind : AssetKind) (bytes : Bytes) (w : World) :
    ∃ sent, ((address uploader uploads kind bytes).runIn w).2.uploads = w.uploads ++ sent ∧
      ∀ request ∈ sent, request.kind = kind := by
  have hget : (get : Pass World).runIn w = (.ok w, w) := rfl
  have hset (v : World) : (set v : Pass PUnit).runIn w = (.ok ⟨⟩, v) := rfl
  have hnone : ∃ sent, w.uploads = w.uploads ++ sent ∧ ∀ request ∈ sent, request.kind = kind :=
    ⟨[], (List.append_nil _).symm, List.forall_mem_nil _⟩
  unfold address
  split_ifs
  · exact hnone
  rw [runIn_bind, hget]
  dsimp only
  split
  · exact hnone
  split
  · rw [runIn_bind, hset]
    exact hnone
  rw [runIn_bind, hset]
  dsimp only
  split
  · exact hnone
  · rw [runIn_send]
    dsimp only
    split <;> exact ⟨_, rfl, List.forall_mem_singleton.2 rfl⟩

/-- Nothing but vectors is uploaded where there are no addresses for bitmaps. -/
theorem invariant_vectorsOnly (host : Host) (uploader : Uploader) (before : List UploadRequest) :
    Invariant
      (fun w => ∃ sent, w.uploads = before ++ sent ∧ ∀ request ∈ sent, request.kind = .svg)
      host (Services.uploading host uploader).vectorsOnly.assets where
  ask request w hw := by
    rw [Pass.runIn_ask]
    exact hw
  address uploads kind bytes w := by
    rintro ⟨sent, hsent, hkinds⟩
    cases kind with
    | png => exact ⟨sent, hsent, hkinds⟩
    | svg =>
      obtain ⟨more, hmore, hkinds'⟩ :=
        Pass.runIn_address_uploads uploader uploads .svg bytes w
      refine ⟨sent ++ more, ?_, List.forall_mem_append.2 ⟨hkinds, hkinds'⟩⟩
      rw [← List.append_assoc, ← hsent]
      exact hmore
  remember bitmaps hw := hw

/-! ## Replies to a conversion -/

namespace Trail

open Pass

/-- The conversion asked for the bitmap of an item, and got these bytes or none. -/
def Replied (t : Trail) (item : Item) (withChildren : Bool) (known : Option Bytes) : Prop :=
  ∃ n, t.start ≤ n ∧ t.exports[n]? = some ⟨item.id, .png withChildren⟩ ∧
    t.host.provide n ⟨item.id, .png withChildren⟩ = .ofOption known

/-- The bitmaps that are on record for items are the replies to the conversion. -/
structure Records (t : Trail) (w : World) : Prop where
  begun : t.start ≤ w.exports.length
  bitmaps : ∀ item ∈ t.items, ∀ {withChildren known},
    w.bitmaps.lookup (item.address, withChildren) = some known → t.Replied item withChildren known

/-- The picture of an item in live code: what comes of the reply, if it shows its bitmap. -/
def LivePictures (t : Trail) (item : Item) (picture : Picture) : Prop :=
  match item.bitmap? with
  | some withChildren =>
    ∃ known, t.Replied item withChildren known ∧ picture = item.livePicture known
  | none => picture = (none, [])

variable {t : Trail} {item : Item} (haddresses : (t.items.map (·.address)).Nodup)
  (hitem : item ∈ t.items)
include haddresses hitem

/-- Addresses tell items apart, so a reply is put on record for one item. -/
theorem leads_bitmap_replied (withChildren : Bool) :
    Leads t.Records t.exports (bitmap t.host item withChildren) (t.Replied item withChildren) := by
  refine leads_bitmap (fun hw => hw.bitmaps item hitem) ?_
  intro w v known hw hv hask
  obtain ⟨hreply, rfl⟩ := runIn_ask_eq_ok_iff.1 hask
  have hreplied : t.Replied item withChildren known :=
    ⟨w.exports.length, hw.begun, getElem?_of_concat_prefix hv, hreply⟩
  refine ⟨⟨?_, fun other hother children' known' hlookup => ?_⟩, hreplied⟩
  · exact hw.begun.trans (by simp)
  · by_cases hkey : (other.address, children') = (item.address, withChildren)
    · obtain ⟨haddress, rfl⟩ := Prod.ext_iff.1 hkey
      obtain rfl := List.inj_on_of_nodup_map haddresses hother hitem haddress
      rw [List.lookup_cons_self] at hlookup
      exact Option.some.inj hlookup ▸ hreplied
    · rw [List.lookup_cons, beq_false_of_ne hkey] at hlookup
      exact hw.bitmaps other hother hlookup

theorem leads_pictured_live (s : Settings) (assets : AssetSource) :
    Leads t.Records t.exports (EmitContext.pictured ⟨s, t.host, assets, .live⟩ item)
      (t.LivePictures item) := by
  unfold EmitContext.pictured LivePictures
  cases item.bitmap? with
  | none => exact .pure rfl
  | some withChildren =>
    dsimp only
    rw [EmitContext.image_live]
    exact (leads_bitmap_replied haddresses hitem withChildren).bind fun known =>
      .pure fun hreplied => ⟨known, hreplied, rfl⟩

end Trail

/-! ## What live code shows -/

namespace EmitContext

/-- The code shows an item with an image from this address, and with no others but those that the
colours of the item spell. -/
structure ShowsOnly (cx : EmitContext) (f : Fragment) (item : Item) (url : String) : Prop where
  shown : ⟨item.address, url, item.isOpen⟩ ∈ cx.depictions f.markup
  only : ∀ d ∈ cx.depictions f.markup, d.source = item.address →
    d.url = url ∨ ∃ fill, Fill.solid fill ∈ item.fills ∧ fill.Spells d.url

/-- What the code shows for bitmaps, and what it says about placeholders, is what comes of the
replies of the design tool to a conversion. -/
structure ShowsReplies (cx : EmitContext) (t : Trail) (items : List Item) (f : Fragment) :
    Prop where
  /-- Bytes are embedded. A placeholder stands for a bitmap that could not be had, and there is a
  warning about it. -/
  bitmaps : ∀ item ∈ items, ∀ withChildren, item.bitmap? = some withChildren →
    (∃ bytes, t.Replied item withChildren (some bytes) ∧
      cx.ShowsOnly f item (dataUri bytes .png)) ∨
    t.Replied item withChildren none ∧
      cx.ShowsOnly f item (placeholderUrl item.geometry.width item.geometry.height) ∧
      placeholderWarning item.name ∈ f.warnings
  /-- No other placeholder is warned about. -/
  warnings : ∀ name, placeholderWarning name ∈ f.warnings → ∃ item ∈ items, item.name = name ∧
    ∃ withChildren, item.bitmap? = some withChildren ∧ t.Replied item withChildren none
  /-- All other images are the vectors of items, or spelled by their colours. -/
  images : ∀ d ∈ cx.depictions f.markup, ∃ item ∈ items, item.address = d.source ∧
    (item.bitmap?.isSome = true ∨ item.artifact = some (.remote d.url) ∨
      ∃ fill, Fill.solid fill ∈ item.fills ∧ fill.Spells d.url)

theorem placeholderWarning_inj {name name' : String} :
    placeholderWarning name = placeholderWarning name' ↔ name = name' := by
  unfold placeholderWarning
  rw [String.append_left_inj, String.append_right_inj]
  exact Iff.rfl

/-- A warning about a placeholder comes with a picture. -/
theorem mem_picture_of_remarks {cx : EmitContext} {item : Item} {picture : Picture} {name : String}
    (h : placeholderWarning name ∈ cx.remarks item picture) :
    placeholderWarning name ∈ picture.2 := by
  rcases List.mem_append.1 h with h | h
  · exact h
  · split at h
    · exact absurd ⟨name, (List.mem_singleton.1 h).symm⟩
        (not_isPlaceholderWarning_vectorWarning item.name)
    · rename_i type _ _ _
      exact absurd ⟨name, (List.mem_singleton.1 h).symm⟩
        (not_isPlaceholderWarning_unsupportedWarning item.name type)
    · cases h

namespace Accounts

variable {t : Trail} {cx : EmitContext} {items : List Item} {f : Fragment}
  {drawings : List Drawing} (h : cx.Accounts t.LivePictures items f drawings)
include h

/-- All images of a drawing are the bitmaps of items, their vectors, or spelled by colours. -/
theorem exists_item_of_live {i : Markup.Depiction} (hi : i ∈ cx.depictions f.markup) :
    ∃ item ∈ items, item.address = i.source ∧
      (item.bitmap?.isSome = true ∨ item.artifact = some (.remote i.url) ∨
        ∃ fill, Fill.solid fill ∈ item.fills ∧ fill.Spells i.url) := by
  obtain ⟨d, hd, hshown⟩ := h.exists_shown hi
  refine ⟨d.item, h.item_mem hd, ?_⟩
  rcases (h.shown d hd).eq_or_spells hshown with ⟨s, hs, rfl⟩ | ⟨hsource, -, hspells⟩
  · refine ⟨rfl, ?_⟩
    rcases d.item.shownSource_cases d.picture with hsource | ⟨-, url, hartifact, hsource⟩
    · have hpicture := h.pictures d hd
      unfold Trail.LivePictures at hpicture
      cases hbitmap : d.item.bitmap? with
      | some withChildren => exact .inl rfl
      | none =>
        rw [hbitmap] at hpicture
        rw [hsource, hpicture] at hs
        cases hs
    · rw [hsource] at hs
      cases hs
      exact .inr (.inl hartifact)
  · exact ⟨hsource.symm, .inr (.inr hspells)⟩

/-- A warning about a placeholder tells of a bitmap that could not be had. -/
theorem exists_lost_of_live {name : String} (hwarning : placeholderWarning name ∈ f.warnings) :
    ∃ item ∈ items, item.name = name ∧
      ∃ withChildren, item.bitmap? = some withChildren ∧ t.Replied item withChildren none := by
  rw [h.warnings] at hwarning
  obtain ⟨d, hd, hremark⟩ := List.mem_flatMap.1 hwarning
  have hmem := mem_picture_of_remarks hremark
  refine ⟨d.item, h.item_mem hd, ?_⟩
  have hpicture := h.pictures d hd
  unfold Trail.LivePictures at hpicture
  cases hbitmap : d.item.bitmap? with
  | none =>
    rw [hbitmap] at hpicture
    rw [hpicture] at hmem
    cases hmem
  | some withChildren =>
    rw [hbitmap] at hpicture
    obtain ⟨known, hreplied, hpicture⟩ := hpicture
    rw [hpicture] at hmem
    cases known with
    | some bytes => cases hmem
    | none =>
      have hname := placeholderWarning_inj.1 (List.mem_singleton.1 hmem)
      exact ⟨hname.symm, withChildren, rfl, hreplied⟩

/-- An item shows what comes of the reply to it. -/
theorem exists_reply_of_live (hnodup : (items.map (·.address)).Nodup) {item : Item}
    (hitem : item ∈ items) {withChildren : Bool} (hbitmap : item.bitmap? = some withChildren) :
    ∃ known source, t.Replied item withChildren known ∧
      (item.livePicture known).1 = some source ∧ cx.ShowsOnly f item source.url ∧
        ∀ warning ∈ (item.livePicture known).2, warning ∈ f.warnings := by
  obtain ⟨d, hd, rfl⟩ := h.exists_drawing hitem
  have hpicture := h.pictures d hd
  rw [Trail.LivePictures, hbitmap] at hpicture
  obtain ⟨known, hreplied, hpicture⟩ := hpicture
  obtain ⟨source, hsource⟩ : ∃ source, (d.item.livePicture known).1 = some source := by
    cases known <;> exact ⟨_, rfl⟩
  have hown : d.item.shownSource d.picture = some source := by
    rcases d.item.shownSource_cases d.picture with hshown | ⟨hnone, -⟩
    · rw [hshown, hpicture, hsource]
    · rw [hbitmap] at hnone
      cases hnone
  have hshown := h.shown d hd
  rw [hown] at hshown
  refine ⟨known, source, hreplied, hsource, ⟨?_, fun i hi haddress => ?_⟩, fun warning hmem => ?_⟩
  · rw [h.depictions]
    exact List.mem_flatMap.2 ⟨d, hd, hshown.own_mem⟩
  · obtain ⟨d', hd', hi⟩ := h.exists_shown hi
    rw [← h.items, List.map_map] at hnodup
    rcases (h.shown d' hd').eq_or_spells hi with ⟨s, hs, rfl⟩ | ⟨hsource', -, hspells⟩
    · obtain rfl := List.inj_on_of_nodup_map hnodup hd' hd haddress
      exact .inl (congrArg ImageSource.url (Option.some.inj (hs.symm.trans hown)))
    · obtain rfl := List.inj_on_of_nodup_map hnodup hd' hd (hsource'.symm.trans haddress)
      exact .inr hspells
  · rw [h.warnings]
    refine List.mem_flatMap.2 ⟨d, hd, List.mem_append_left _ ?_⟩
    rwa [hpicture]

theorem showsReplies (hnodup : (items.map (·.address)).Nodup) : cx.ShowsReplies t items f where
  bitmaps item hitem withChildren hbitmap := by
    obtain ⟨known, source, hreplied, hsource, hshows, hwarnings⟩ :=
      h.exists_reply_of_live hnodup hitem hbitmap
    cases known with
    | some bytes =>
      cases hsource
      exact .inl ⟨bytes, hreplied, hshows⟩
    | none =>
      cases hsource
      exact .inr ⟨hreplied, hshows, hwarnings _ List.mem_cons_self⟩
  warnings _ hwarning := h.exists_lost_of_live hwarning
  images _ hd := h.exists_item_of_live hd

end Accounts

end EmitContext

/-! ## Live conversions -/

namespace Services

open Pass Node

variable {host : Host} {uploader : Uploader} {settings : Settings} {options : ConversionOptions}
  {selection : Selection} {conversion : Conversion} {w : World} {c : Course}

/-- The code of a live conversion can be accounted for by the replies alone, whatever was in the
cache. -/
theorem IsCourse.exists_live_accounts
    (h : (uploading host uploader).IsCourse settings options selection w conversion c)
    (hlive : options.isLive = true) :
    ∃ drawings, EmitContext.Accounts ((uploading host uploader).emitting settings options)
      (c.trail host uploader w).LivePictures (drawnItemsOfAll c.nodes.value) c.code drawings := by
  -- Normalization asks for vectors only, so there are no bitmaps when the drawing begins.
  have hread : (c.trail host uploader w).Records c.read := by
    obtain ⟨asked, -, hexports, hbitmaps⟩ := NormalizeContext.asksAmong_normalize settings host
      uploader selection { w with bitmaps := [] }
    have hnormalized := h.normalized
    dsimp only [normalizing, uploading] at hnormalized
    rw [hnormalized] at hexports hbitmaps
    dsimp only at hexports hbitmaps
    refine ⟨?_, fun item _ _ _ hlookup => ?_⟩
    · rw [hexports, List.length_append]
      exact Nat.le_add_right _ _
    · rw [hbitmaps] at hlookup
      cases hlookup
  have hpictured (item : Item) (hitem : item ∈ itemsOfAll c.nodes.value) :=
    Trail.leads_pictured_live (t := c.trail host uploader w) h.nodup_addresses hitem settings
      (address uploader)
  have hcode := EmitContext.leads_emitAll hpictured .root c.nodes.value fun _ hitem => hitem
  have hpreviewed : c.drawn.exports <+: c.ended.exports :=
    ((c.trail host uploader w).ensures_emitAll (Preview.settings settings) .preview .root
      (dropPrompts c.nodes.value) fun _ hitem =>
        (itemsOfAll_dropPrompts_sublist c.nodes.value).subset hitem).grows_of_run h.previewed
  have hcoded := h.coded
  unfold emitting at hcoded ⊢
  rw [if_pos hlive] at hcoded ⊢
  obtain ⟨-, hemits⟩ := hcode.leads hread hcoded hpreviewed
  refine hemits.exists_accounts fun item picture hpicture hbitmap => ?_
  rwa [Trail.LivePictures, hbitmap] at hpicture

/-- **Live conversions do not upload bitmaps.** Whatever the selection, the settings, the design
tool, the uploader and the world are, and however a live conversion ends, nothing but vectors is
uploaded, and neither its end nor the world afterwards depends on whether bitmaps are to be embedded
or uploaded. If it succeeds, the code embeds the bytes that the design tool replied with, and a
placeholder stands, with a warning, exactly where there are none. -/
theorem compile_live (host : Host) (uploader : Uploader) (settings : Settings)
    (options : ConversionOptions) (selection : Selection) (w : World)
    (hlive : options.isLive = true) :
    let services := uploading host uploader
    let cx := services.emitting settings options
    let result := services.compile settings options selection w
    (∃ sent, result.2.uploads = w.uploads ++ sent ∧ ∀ request ∈ sent, request.kind = .svg) ∧
      (∀ embedImages bitmaps,
        services.compile (settings.storing embedImages bitmaps) options selection w = result) ∧
      ∀ conversion, result.1 = .ok (.converted conversion) →
        ∃ c, services.IsCourse settings options selection w conversion c ∧
          c.code.warnings ⊆ conversion.warnings ∧
          cx.ShowsReplies (c.trail host uploader w) (drawnItemsOfAll c.nodes.value) c.code := by
  intro services cx result
  have hstoring := compile_live_eq host uploader settings options selection w hlive
  have hresult : result = services.vectorsOnly.compile settings options selection w :=
    hstoring settings.embedImages settings.uploads.bitmaps
  refine ⟨?_, fun embedImages bitmaps => ?_, fun conversion hcompile => ?_⟩
  · rw [hresult]
    exact (invariant_vectorsOnly host uploader w.uploads).compile settings options selection
      ⟨[], (List.append_nil _).symm, List.forall_mem_nil _⟩
  · rw [hresult]
    exact hstoring embedImages bitmaps
  · obtain ⟨c, hcourse, -⟩ := exists_course (Prod.ext hcompile rfl)
    obtain ⟨drawings, haccounts⟩ := hcourse.exists_live_accounts hlive
    refine ⟨c, hcourse, fun warning hwarning => ?_, haccounts.showsReplies hcourse.nodup_drawn⟩
    obtain ⟨width, height, rfl⟩ := hcourse.assembled
    exact mem_dedup.2 (List.mem_append_right _ hwarning)

/-- A card with a bitmap behind it, and in it a photo that cannot be exported and an icon that is
uploaded. -/
theorem compile_live_card :
    let photo : Scene := .node
      { id := "photo", name := "Photo", type := "RECTANGLE", width := 40, height := 30,
        fills := [.image {}] } []
    let icon : Scene := .node
      { id := "icon", name := "Icon", type := "VECTOR", width := 24, height := 24 } []
    let card : Selection := [.node
      { id := "card", name := "Card", type := "FRAME", width := 100, height := 100,
        fills := [.image {}] } [photo, icon]]
    let settings : Settings := { embedVectors := true, uploads := { enabled := true } }
    let options : ConversionOptions := { isLive := true }
    let host : Host := ⟨fun _ => none, fun _ request =>
      if request.id = "photo" then .failed else .done "<svg></svg>".toUTF8.toList⟩
    let uploader : Uploader := fun _ request => .done ("https://cdn.test/" ++ request.key)
    let services := uploading host uploader
    let cx := services.emitting settings options
    let result := services.compile settings options card {}
    options.isLive = true ∧
      (∃ sent, result.2.uploads = [] ++ sent ∧ ∀ request ∈ sent, request.kind = .svg) ∧
      (∀ embedImages bitmaps,
        services.compile (settings.storing embedImages bitmaps) options card {} = result) ∧
      ∃ conversion, result.1 = .ok (.converted conversion) ∧
        ∃ c, services.IsCourse settings options card {} conversion c ∧
          c.code.warnings ⊆ conversion.warnings ∧
          cx.ShowsReplies (c.trail host uploader {}) (drawnItemsOfAll c.nodes.value) c.code := by
  intro photo icon card settings options host uploader services cx result
  have hcode : (codeOf result.1).isSome = true := by decide +kernel
  obtain ⟨conversion, hconversion⟩ := exists_of_codeOf hcode
  obtain ⟨huploads, hstoring, hshows⟩ := compile_live host uploader settings options card {} rfl
  exact ⟨rfl, huploads, hstoring, conversion, hconversion, hshows conversion hconversion⟩

end Services

end Artboard
