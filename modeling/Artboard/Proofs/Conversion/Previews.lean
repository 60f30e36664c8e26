import Artboard.Proofs.Conversion.Courses

/-!
# Images of previews

In a preview bitmaps are embedded or left out. Vectors are not looked at again: where the settings
upload them, the preview refers to the address that the code refers to
(`Services.compile_preview_images`), so it cannot be shown without the network
(`Services.compile_preview_of_uploaded_icon`).
-/

namespace Artboard

namespace EmitContext

variable {t : Trail} {settings : Settings} {d : Drawing}

/-- The image of an item of a preview is its bitmap as it was exported, or the vector that was
uploaded for it. -/
theorem preview_source (hpicture : t.Pictures .preview d.item d.picture)
    (hvouches : t.Vouches settings d.item) {s : ImageSource}
    (hs : d.item.shownSource d.picture = some s) :
    (∃ withChildren bytes, s = .embedded bytes ∧ t.Exported d.item.address withChildren bytes) ∨
      ∃ url, s = .remote url ∧ d.item.artifact = some (.remote url) ∧
        settings.embedVectors = true ∧ settings.uploads.uploadsVectors = true ∧
        t.uploader.Answers url := by
  obtain ⟨item, picture, shown⟩ := d
  dsimp only at *
  rcases item.shownSource_cases picture with hsource | ⟨-, url, hartifact, hsource⟩
  · rw [hsource] at hs
    unfold Trail.Pictures at hpicture
    split at hpicture
    case h_1 withChildren _ =>
      cases hpicture with
      | missing => cases hs
      | remote himages => cases himages
      | embedded hbytes =>
        cases hs
        exact .inl ⟨withChildren, _, rfl, hbytes⟩
      | placeholder himages => exact absurd rfl himages
    case h_2 =>
      rw [hpicture] at hs
      cases hs
  · rw [hsource] at hs
    cases hs
    exact .inr ⟨url, rfl, hartifact, hvouches url hartifact⟩

end EmitContext

namespace Services

open Pass Node

/-- **What the images of a preview are.** Each belongs to an item, and is the bitmap of the item as
it was exported for this conversion, or the address that the uploader gave to its vector, or the
background that the name of one of its colour variables spells. -/
theorem compile_preview_images (host : Host) (uploader : Uploader) (initial : Settings)
    (before : List Session.Step) (settings : Settings) (options : ConversionOptions)
    (selection : Selection) (conversion : Conversion) :
    let services := uploading host uploader
    let w := (Session.run services { settings := initial } before).2.world
    (services.compile settings options selection w).1 = .ok (.converted conversion) →
      ∃ c, services.IsCourse settings options selection w conversion c ∧
        ∀ d ∈ (Preview.context settings host services.assets).depictions c.preview.markup,
          ∃ item ∈ itemsOfAll c.nodes.value, item.address = d.source ∧
            ((∃ withChildren bytes, d.url = dataUri bytes .png ∧
                (c.trail host uploader w).Exported d.source withChildren bytes) ∨
              (item.artifact = some (.remote d.url) ∧ settings.embedVectors = true ∧
                settings.uploads.uploadsVectors = true ∧ uploader.Answers d.url) ∨
              ∃ fill, Fill.solid fill ∈ item.fills ∧ fill.Spells d.url) := by
  intro services w hcompile
  obtain ⟨c, hcourse, -⟩ := exists_course (Prod.ext hcompile rfl)
  have hw : w.Answered uploader := Session.answered host uploader initial before
  obtain ⟨hvouches, -, drawings, haccounts⟩ := hcourse.leads hw
  refine ⟨c, hcourse, fun i hi => ?_⟩
  obtain ⟨d, hd, hshown⟩ := haccounts.exists_shown hi
  have hitem : d.item ∈ itemsOfAll c.nodes.value :=
    (itemsOfAll_dropPrompts_sublist c.nodes.value).subset
      ((drawnItemsOfAll_subperm (dropPrompts c.nodes.value)).subset (haccounts.item_mem hd))
  refine ⟨d.item, hitem, ?_⟩
  rcases (haccounts.shown d hd).eq_or_spells hshown with ⟨s, hs, rfl⟩ | ⟨hsource, -, hspells⟩
  · refine ⟨rfl, ?_⟩
    rcases EmitContext.preview_source (haccounts.pictures d hd) (hvouches d.item hitem) hs with
      ⟨withChildren, bytes, rfl, hexported⟩ | ⟨url, rfl, huploaded⟩
    · exact .inl ⟨withChildren, bytes, rfl, hexported⟩
    · exact .inr (.inl huploaded)
  · exact ⟨hsource.symm, .inr (.inr hspells)⟩

/-- A card with a bitmap behind it, and in it an icon that is uploaded. -/
theorem compile_preview_images_card :
    let icon : Scene := .node
      { id := "icon", name := "Icon", type := "VECTOR", width := 24, height := 24 } []
    let card : Selection := [.node
      { id := "card", name := "Card", type := "FRAME", width := 100, height := 100,
        fills := [.image {}] } [icon]]
    let settings : Settings := { embedVectors := true, uploads := { enabled := true } }
    let host : Host := ⟨fun _ => none, fun _ _ => .done "<svg></svg>".toUTF8.toList⟩
    let uploader : Uploader := fun _ request => .done ("https://cdn.test/" ++ request.key)
    let services := uploading host uploader
    ∃ conversion, (services.compile settings {} card {}).1 = .ok (.converted conversion) ∧
      ∃ c, services.IsCourse settings {} card {} conversion c ∧
        ∀ d ∈ (Preview.context settings host services.assets).depictions c.preview.markup,
          ∃ item ∈ itemsOfAll c.nodes.value, item.address = d.source ∧
            ((∃ withChildren bytes, d.url = dataUri bytes .png ∧
                (c.trail host uploader {}).Exported d.source withChildren bytes) ∨
              (item.artifact = some (.remote d.url) ∧ settings.embedVectors = true ∧
                settings.uploads.uploadsVectors = true ∧ uploader.Answers d.url) ∨
              ∃ fill, Fill.solid fill ∈ item.fills ∧ fill.Spells d.url) := by
  intro icon card settings host uploader services
  have hcode : (codeOf (services.compile settings {} card {}).1).isSome = true := by decide +kernel
  obtain ⟨conversion, hconversion⟩ := exists_of_codeOf hcode
  exact ⟨conversion, hconversion,
    compile_preview_images host uploader {} [] settings {} card conversion hconversion⟩

/-- **An uploaded vector is not embedded in the preview.** Of an icon of which the bytes are at hand
the preview shows only the address that the uploader answered with. -/
theorem compile_preview_of_uploaded_icon :
    let icon : Scene := .node
      { id := "icon", name := "Icon", type := "VECTOR", width := 24, height := 24 } []
    let settings : Settings := { embedVectors := true, uploads := { enabled := true } }
    let host : Host := ⟨fun _ => none, fun _ _ => .done "<svg></svg>".toUTF8.toList⟩
    let uploader : Uploader := fun _ request => .done ("https://cdn.test/" ++ request.key ++ ".svg")
    let url := "https://cdn.test/" ++
      "b12e0d83ce2357d80b89c57694814d0a3abdaf8c40724f2049af8b7f01b7812b.svg"
    ((uploading host uploader).compile settings {} [icon] {}).1 = .ok (.converted {
      code := "<img className=\"w-6 h-6\" src=\"" ++ url ++ "\" />"
      preview := ⟨24, 24, "<img class=\"w-6 h-6\" src=\"" ++ url ++ "\" />"⟩
      warnings := []
      colors := []
      textStyles := []
      trigger := none }) := by
  decide +kernel

end Services

end Artboard
