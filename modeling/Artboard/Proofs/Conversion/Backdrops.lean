import Artboard.Proofs.Conversion.Courses

/-!
# Images behind containers

A container with an image fill has a background image in the code: the address of an upload, the
exported bytes, or a placeholder with a warning. A list has none, for it is drawn without its bitmap
(`Services.compile_backdrops`), and nothing is said of it
(`Services.compile_list_without_backdrop`).
-/

namespace Artboard

namespace EmitContext

variable {t : Trail} {images : ImageMode} {d : Drawing}

/-- An untagged container with an image fill shows its bitmap without the layers inside, unless it
is left out. -/
theorem bitmap?_of_isOpen {item : Item} (htag : item.tag = .none) (hopen : item.isOpen = true)
    (hkept : item.isLeftOut = false) (himage : item.hasImageFill = true) :
    item.bitmap? = some false := by
  simp only [Item.isOpen, htag, Bool.and_eq_true, Option.isNone_iff_eq_none] at hopen
  have hskipped : isSkipped item = false := by
    simpa [Item.isLeftOut, Item.isOpen, htag, hopen] using hkept
  cases hkind : item.kind with
  | group | frame | «section» => simp [Item.bitmap?, htag, hopen.1, himage, hkind, hskipped]
  | rectangle | ellipse | text content | line | vector | unsupported type =>
    rw [hkind] at hopen
    cases hopen.2

/-- What may stand behind a container in the code. -/
theorem backdrop_cases (cx : EmitContext) (hpicture : t.Pictures images d.item d.picture)
    (himages : images ≠ .preview) (hbitmap : d.item.bitmap? = some false) :
    ∃ s, d.item.shownSource d.picture = some s ∧
      (t.uploader.Answers s.url ∨
        (∃ bytes, s.url = dataUri bytes .png ∧ t.Exported d.item.address false bytes) ∨
        s.url = placeholderUrl d.item.geometry.width d.item.geometry.height ∧
          placeholderWarning d.item.name ∈ cx.remarks d.item d.picture) := by
  obtain ⟨item, picture, shown⟩ := d
  dsimp only at *
  rcases item.shownSource_cases picture with hsource | ⟨hnone, -⟩
  · rw [hsource]
    rw [Trail.Pictures, hbitmap] at hpicture
    cases hpicture with
    | missing hpreview => exact absurd hpreview himages
    | remote _ hurl => exact ⟨_, rfl, .inl hurl⟩
    | embedded hbytes => exact ⟨_, rfl, .inr (.inl ⟨_, rfl, hbytes⟩)⟩
    | placeholder =>
      exact ⟨_, rfl, .inr (.inr ⟨rfl, List.mem_append_left _ List.mem_cons_self⟩)⟩
  · rw [hbitmap] at hnone
    cases hnone

/-- A list shows no image of its own. -/
theorem shownSource_list (hpicture : t.Pictures images d.item d.picture) {id : String}
    (htag : d.item.tag = .list id) : d.item.shownSource d.picture = none := by
  have hbitmap : d.item.bitmap? = none := by rw [Item.bitmap?, htag]
  rw [Trail.Pictures, hbitmap] at hpicture
  rw [Item.shownSource, htag, hpicture]

/-! ## Accounts -/

namespace Accounts

variable {cx : EmitContext} {items : List Item} {f : Fragment} {drawings : List Drawing}
  (h : cx.Accounts (t.Pictures images) items f drawings) {item : Item} (hitem : item ∈ items)
include h hitem

/-- An untagged container with an image fill has a background image, and there is a warning if it is
a placeholder. -/
theorem exists_backdrop (himages : images ≠ .preview) (htag : item.tag = .none)
    (hopen : item.isOpen = true) (hkept : item.isLeftOut = false)
    (himage : item.hasImageFill = true) :
    ∃ url, ⟨item.address, url, true⟩ ∈ cx.depictions f.markup ∧
      (t.uploader.Answers url ∨
        (∃ bytes, url = dataUri bytes .png ∧ t.Exported item.address false bytes) ∨
        url = placeholderUrl item.geometry.width item.geometry.height ∧
          placeholderWarning item.name ∈ f.warnings) := by
  obtain ⟨d, hd, rfl⟩ := h.exists_drawing hitem
  obtain ⟨s, hs, hsource⟩ := backdrop_cases cx (h.pictures d hd) himages
    (bitmap?_of_isOpen htag hopen hkept himage)
  refine ⟨s.url, ?_, hsource.imp_right (Or.imp_right (And.imp_right fun hwarning => ?_))⟩
  · have hshown := h.shown d hd
    rw [hs] at hshown
    rw [← hopen, h.depictions]
    exact List.mem_flatMap.2 ⟨d, hd, hshown.own_mem⟩
  · rw [h.warnings]
    exact List.mem_flatMap.2 ⟨d, hd, hwarning⟩

/-- All images of a list are spelled by its colours. -/
theorem spells_of_list (hnodup : (items.map (·.address)).Nodup) {id : String}
    (htag : item.tag = .list id) {i : Markup.Depiction} (hi : i ∈ cx.depictions f.markup)
    (hsource : i.source = item.address) :
    ∃ fill, Fill.solid fill ∈ item.fills ∧ fill.Spells i.url := by
  obtain ⟨d, hd, rfl⟩ := h.exists_drawing hitem
  obtain ⟨d', hd', hi⟩ := h.exists_shown hi
  rw [← h.items, List.map_map] at hnodup
  rcases (h.shown d' hd').eq_or_spells hi with ⟨s, hs, rfl⟩ | ⟨hsource', -, hspells⟩
  · obtain rfl := List.inj_on_of_nodup_map hnodup hd' hd hsource
    rw [shownSource_list (h.pictures d' hd') htag] at hs
    cases hs
  · obtain rfl := List.inj_on_of_nodup_map hnodup hd' hd (hsource'.symm.trans hsource)
    exact hspells

end Accounts

end EmitContext

namespace Services

open Pass Node

/-- **What stands behind containers in the code.** Let a container with an image fill be drawn
around the nodes inside it. If it is untagged, it has a background image: the address of an upload,
its bitmap as it was exported for this conversion, or a placeholder of its size, about which there
is a warning. If it is a list, it has none but what the names of its colour variables spell. -/
theorem compile_backdrops (host : Host) (uploader : Uploader) (initial : Settings)
    (before : List Session.Step) (settings : Settings) (options : ConversionOptions)
    (selection : Selection) (conversion : Conversion) :
    let services := uploading host uploader
    let cx := services.emitting settings options
    let w := (Session.run services { settings := initial } before).2.world
    (services.compile settings options selection w).1 = .ok (.converted conversion) →
      ∃ c, services.IsCourse settings options selection w conversion c ∧
        ∀ item ∈ drawnItemsOfAll c.nodes.value, item.isOpen = true → item.isLeftOut = false →
          item.hasImageFill = true →
            (item.tag = .none → ∃ url, ⟨item.address, url, true⟩ ∈ cx.depictions c.code.markup ∧
              (uploader.Answers url ∨
                (∃ bytes, url = dataUri bytes .png ∧
                  (c.trail host uploader w).Exported item.address false bytes) ∨
                url = placeholderUrl item.geometry.width item.geometry.height ∧
                  placeholderWarning item.name ∈ conversion.warnings)) ∧
            ∀ id, item.tag = .list id → ∀ d ∈ cx.depictions c.code.markup,
              d.source = item.address →
                ∃ fill, Fill.solid fill ∈ item.fills ∧ fill.Spells d.url := by
  intro services cx w hcompile
  obtain ⟨c, hcourse, -⟩ := exists_course (Prod.ext hcompile rfl)
  have hw : w.Answered uploader := Session.answered host uploader initial before
  obtain ⟨-, ⟨drawings, haccounts⟩, -⟩ := hcourse.leads hw
  have himages : (if options.isLive then .live else .code) ≠ ImageMode.preview := by
    split_ifs <;> exact nofun
  refine ⟨c, hcourse, fun item hitem hopen hkept himage => ⟨fun htag => ?_, fun id htag d hd => ?_⟩⟩
  · obtain ⟨url, hmem, hurl⟩ :=
      haccounts.exists_backdrop hitem himages htag hopen hkept himage
    refine ⟨url, hmem, hurl.imp_right (Or.imp_right (And.imp_right fun hwarning => ?_))⟩
    obtain ⟨width, height, rfl⟩ := hcourse.assembled
    exact mem_dedup.2 (List.mem_append_right _ hwarning)
  · exact haccounts.spells_of_list hitem hcourse.nodup_drawn htag hd

/-- A card with a bitmap that is uploaded, and in it a banner without one and a list. -/
theorem compile_backdrops_card :
    let banner : Scene := .node
      { id := "banner", name := "Banner", type := "FRAME", width := 40, height := 30,
        fills := [.image {}] } []
    let rows : Scene := .node
      { id := "rows", name := "#list:rows", type := "FRAME", width := 40, height := 30,
        fills := [.image {}] } []
    let card : Selection := [.node
      { id := "card", name := "Card", type := "SECTION", width := 100, height := 100,
        fills := [.image {}] } [banner, rows]]
    let settings : Settings := { uploads := { enabled := true } }
    let host : Host := ⟨fun _ => none, fun _ request =>
      if request.id = "card" then .done "CARD".toUTF8.toList else .failed⟩
    let uploader : Uploader := fun _ request => .done ("https://cdn.test/" ++ request.key)
    let services := uploading host uploader
    let cx := services.emitting settings {}
    ∃ conversion, (services.compile settings {} card {}).1 = .ok (.converted conversion) ∧
      ∃ c, services.IsCourse settings {} card {} conversion c ∧
        ∀ item ∈ drawnItemsOfAll c.nodes.value, item.isOpen = true → item.isLeftOut = false →
          item.hasImageFill = true →
            (item.tag = .none → ∃ url, ⟨item.address, url, true⟩ ∈ cx.depictions c.code.markup ∧
              (uploader.Answers url ∨
                (∃ bytes, url = dataUri bytes .png ∧
                  (c.trail host uploader {}).Exported item.address false bytes) ∨
                url = placeholderUrl item.geometry.width item.geometry.height ∧
                  placeholderWarning item.name ∈ conversion.warnings)) ∧
            ∀ id, item.tag = .list id → ∀ d ∈ cx.depictions c.code.markup,
              d.source = item.address →
                ∃ fill, Fill.solid fill ∈ item.fills ∧ fill.Spells d.url := by
  intro banner rows card settings host uploader services cx
  have hcode : (codeOf (services.compile settings {} card {}).1).isSome = true := by decide +kernel
  obtain ⟨conversion, hconversion⟩ := exists_of_codeOf hcode
  exact ⟨conversion, hconversion,
    compile_backdrops host uploader {} [] settings {} card conversion hconversion⟩

/-- **The image fill of a list is lost without a word.** A list of one row has an image fill, but in
the code there is neither a background image nor a placeholder, and there is no warning. -/
theorem compile_list_without_backdrop :
    let row : Scene := .node
      { id := "row", name := "Row", type := "RECTANGLE", width := 40, height := 20 } []
    let rows : Scene := .node
      { id := "rows", name := "#list:rows", type := "FRAME", width := 100, height := 80,
        fills := [.image {}] } [row]
    let services := uploading ⟨fun _ => none, fun _ _ => .failed⟩ fun _ _ => .failed
    (services.compile {} {} [rows] {}).1 = .ok (.converted {
      code :=
        "<List listId=\"rows\" direction=\"column\" gap=\x7b0\x7d " ++
          "className=\"w-24 h-20 relative\">\n" ++
          "  <div className=\"absolute left-0 top-0 w-10 h-5\" />\n</List>"
      preview := ⟨100, 80,
        "<list-container data-list-id=\"rows\" data-direction=\"column\" data-gap=\"0\" " ++
          "class=\"w-24 h-20 relative\">\n" ++
          "  <div class=\"absolute left-0 top-0 w-10 h-5\"></div>\n</list-container>"⟩
      warnings := []
      colors := []
      textStyles := []
      trigger := none }) := by
  decide +kernel

end Services

end Artboard
