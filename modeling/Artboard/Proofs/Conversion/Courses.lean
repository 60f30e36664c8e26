import Artboard.Proofs.Conversion.Joining
import Artboard.Proofs.Conversion.Pictures

/-!
# The course of a conversion

A conversion that succeeds reads its nodes, draws the code and then draws the preview
(`Services.IsCourse`). Of either drawing there is an account, item by item, with images that come
from the exports of this conversion, from the uploader, or are placeholders
(`Services.IsCourse.leads`).

The nodes themselves add two kinds of images: vectors, whose addresses come from the uploader as
well, and colours whose variables spell a background image, whose addresses have no slash.
-/

namespace Artboard

open Pass Node

/-! ## Colours of items -/

namespace NormalizeContext

variable {cx : NormalizeContext}

/-- A colour has no variable, or the class of one. -/
theorem token_solidFill (color : Rgba) (bound : BoundVariables) (token : String)
    (h : (cx.solidFill color bound).value.token = some token) :
    ∃ name, token = variableToken name := by
  unfold solidFill at h
  split at h
  · split at h
    · exact ⟨_, (Option.some.inj h).symm⟩
    · cases h
  · cases h

theorem exists_of_mem_fills {paints : List Paint} {fill : Fill}
    (h : fill ∈ (cx.fills paints).value) : ∃ paint, (cx.fill? paint).value = some fill := by
  obtain ⟨fill?, hmem, rfl⟩ := List.mem_filterMap.1 h
  obtain ⟨_, hpaint, hvalue⟩ := List.mem_map.1 hmem
  obtain ⟨paint, -, rfl⟩ := List.mem_map.1 hpaint
  exact ⟨paint, hvalue⟩

/-- An address that a colour of an item spells has no slash. -/
theorem ItemOf.slash_not_mem {address : Address} {s : Scene} {item : Item} {fill : SolidFill}
    {url : String} (h : cx.ItemOf address s item) (hfill : Fill.solid fill ∈ item.fills)
    (hspells : fill.Spells url) : '/' ∉ url.toList := by
  have hfills : item.fills = (cx.fills s.layer.fills).value := by cases h <;> rfl
  rw [hfills] at hfill
  obtain ⟨paint, hpaint⟩ := exists_of_mem_fills hfill
  cases paint with
  | solid p =>
    obtain rfl : (cx.solidFill (p.color.fade p.opacity) p.bound).value = fill :=
      Fill.solid.inj (Option.some.inj hpaint)
    obtain ⟨name, htoken⟩ := token_solidFill _ _ _ hspells
    intro hslash
    refine slash_not_mem_variableToken name ?_
    rw [← htoken, String.toList_append, String.toList_append]
    exact List.mem_append_left _ (List.mem_append_right _ hslash)
  | image p => cases hpaint
  | gradient p => cases hpaint
  | unsupported => cases hpaint

end NormalizeContext

/-! ## Courses -/

/-- What comes up in the course of a conversion: the nodes, what is drawn for the code and for the
preview, and the world after each of these. -/
structure Course where
  nodes : Warned (List Node)
  code : Fragment
  preview : Fragment
  read : World
  drawn : World
  ended : World

namespace Services

variable {services : Services} {settings : Settings} {options : ConversionOptions}
  {selection : Selection} {conversion : Conversion} {w after : World} {c : Course}

/-- The conversion of a selection takes this course. -/
structure IsCourse (services : Services) (settings : Settings) (options : ConversionOptions)
    (selection : Selection) (w : World) (conversion : Conversion) (c : Course) : Prop where
  normalized : ((services.normalizing settings).normalize selection).runIn
    { w with bitmaps := [] } = (.ok (.ok c.nodes), c.read)
  coded : ((services.emitting settings options).emitRoots c.nodes.value).runIn c.read =
    (.ok c.code, c.drawn)
  previewed : ((Preview.context settings services.host services.assets).emitRoots
    (dropPrompts c.nodes.value)).runIn c.drawn = (.ok c.preview, c.ended)
  assembled : ∃ width height, conversion =
    services.assemble settings options c.nodes width height c.code c.preview

theorem IsCourse.code_eq (h : services.IsCourse settings options selection w conversion c) :
    conversion.code = (services.emitting settings options).write c.code.markup := by
  obtain ⟨width, height, rfl⟩ := h.assembled
  rfl

theorem IsCourse.preview_eq (h : services.IsCourse settings options selection w conversion c) :
    conversion.preview.content =
      (Preview.context settings services.host services.assets).write c.preview.markup := by
  obtain ⟨width, height, rfl⟩ := h.assembled
  rfl

/-- **Every conversion takes a course.** -/
theorem exists_course
    (h : services.compile settings options selection w = (.ok (.converted conversion), after)) :
    ∃ c, services.IsCourse settings options selection w conversion c ∧ c.ended = after := by
  have hrun : (services.run settings options selection).runIn { w with bitmaps := [] } =
      (.ok (.ok conversion), after) := by
    unfold compile at h
    split_ifs at h
    · cases h
    · rcases hrun : (services.run settings options selection).runIn { w with bitmaps := [] } with
        ⟨panic | error | c, v⟩
      all_goals
        rw [hrun] at h
        cases h
      rfl
  obtain ⟨nodes, read, hnodes, hdraw⟩ := (runIn_run_eq_ok_iff ..).1 hrun
  obtain ⟨width, height, heq⟩ := services.exists_draw_eq settings options nodes
  rw [heq] at hdraw
  obtain ⟨code, drawn, hcode, hdraw⟩ := runIn_bind_eq_ok_iff.1 hdraw
  obtain ⟨preview, ended, hpreview, hdraw⟩ := runIn_bind_eq_ok_iff.1 hdraw
  cases hdraw
  exact ⟨⟨nodes, code, preview, read, drawn, after⟩, ⟨hnodes, hcode, hpreview, width, height, rfl⟩,
    rfl⟩

end Services

/-! ## Accounts of both drawings -/

/-- The trail of a course that began in some world. -/
def Course.trail (c : Course) (host : Host) (uploader : Uploader) (w : World) : Trail :=
  ⟨host, uploader, c.ended.exports, w.exports.length, itemsOfAll c.nodes.value⟩

namespace Services.IsCourse

open EmitContext (Accounts EmitsAll)

variable {host : Host} {uploader : Uploader} {settings : Settings} {options : ConversionOptions}
  {selection : Selection} {conversion : Conversion} {w : World} {c : Course}
  (h : (uploading host uploader).IsCourse settings options selection w conversion c)
include h

theorem exists_itemOf {item : Item} (hitem : item ∈ itemsOfAll c.nodes.value) :
    ∃ s, ((uploading host uploader).normalizing settings).ItemOf item.address s item := by
  obtain ⟨s, -, -, hof⟩ := NormalizeContext.normalize_exists_of_mem _ selection _ _
    (congrArg Prod.fst h.normalized) c.nodes rfl item hitem
  exact ⟨s, hof⟩

theorem nodup_addresses : (addressesOfAll c.nodes.value).Nodup :=
  (NormalizeContext.normalize_become _ selection _ _ (congrArg Prod.fst h.normalized) c.nodes
    rfl).nodup_addresses selection

theorem nodup_drawn : ((drawnItemsOfAll c.nodes.value).map (·.address)).Nodup := by
  obtain ⟨items, hperm, hsublist⟩ := drawnItemsOfAll_subperm c.nodes.value
  exact (hperm.map _).nodup_iff.1 (h.nodup_addresses.sublist (hsublist.map _))

variable (hw : w.Answered uploader)
include hw

/-- What all drawings with images of the trail have, the code and the preview have. -/
theorem leads_to {P Q : Fragment → Prop}
    (hcode : (c.trail host uploader w).Ensures
      (((uploading host uploader).emitting settings options).emitRoots c.nodes.value) P)
    (hpreview : (c.trail host uploader w).Ensures
      ((Preview.context settings host (address uploader)).emitRoots (dropPrompts c.nodes.value))
      Q) :
    (∀ item ∈ itemsOfAll c.nodes.value, (c.trail host uploader w).Vouches settings item) ∧
      P c.code ∧ Q c.preview := by
  have hnodes := (c.trail host uploader w).ensures_normalize settings selection
  -- Each stage asks for exports behind those of the stage before.
  have hcoded : c.read.exports <+: c.drawn.exports := hcode.grows_of_run h.coded
  have hpreviewed : c.drawn.exports <+: c.ended.exports := hpreview.grows_of_run h.previewed
  obtain ⟨hread, hvouches⟩ :=
    hnodes.leads (Trail.Holds.init hw rfl) h.normalized (hcoded.trans hpreviewed)
  obtain ⟨hdrawn, hcode⟩ := hcode.leads hread h.coded hpreviewed
  obtain ⟨-, hpreview⟩ := hpreview.leads hdrawn h.previewed (List.prefix_refl _)
  exact ⟨hvouches c.nodes rfl, hcode, hpreview⟩

/-- All that is known of both drawings. -/
theorem leads :
    (∀ item ∈ itemsOfAll c.nodes.value, (c.trail host uploader w).Vouches settings item) ∧
      (∃ drawings, Accounts ((uploading host uploader).emitting settings options)
        ((c.trail host uploader w).Pictures (if options.isLive then .live else .code))
        (drawnItemsOfAll c.nodes.value) c.code drawings) ∧
      ∃ drawings, Accounts (Preview.context settings host (address uploader))
        ((c.trail host uploader w).Pictures .preview) (drawnItemsOfAll (dropPrompts c.nodes.value))
        c.preview drawings :=
  h.leads_to hw
    ((c.trail host uploader w).ensures_accounts settings (if options.isLive then .live else .code)
      .root c.nodes.value fun _ hitem => hitem)
    ((c.trail host uploader w).ensures_accounts (Preview.settings settings) .preview .root
      (dropPrompts c.nodes.value) fun _ hitem =>
        (itemsOfAll_dropPrompts_sublist c.nodes.value).subset hitem)

/-- What is drawn for the code and for the preview, with the pictures of the items. -/
theorem emitsAll :
    EmitsAll ((uploading host uploader).emitting settings options)
        ((c.trail host uploader w).Pictures (if options.isLive then .live else .code)) .root
        c.nodes.value c.code ∧
      EmitsAll (Preview.context settings host (address uploader))
        ((c.trail host uploader w).Pictures .preview) .root (dropPrompts c.nodes.value)
        c.preview :=
  (h.leads_to hw
    ((c.trail host uploader w).ensures_emitAll settings (if options.isLive then .live else .code)
      .root c.nodes.value fun _ hitem => hitem)
    ((c.trail host uploader w).ensures_emitAll (Preview.settings settings) .preview .root
      (dropPrompts c.nodes.value) fun _ hitem =>
        (itemsOfAll_dropPrompts_sublist c.nodes.value).subset hitem)).2

theorem emitsAll_code :
    EmitsAll ((uploading host uploader).emitting settings options)
      ((c.trail host uploader w).Pictures (if options.isLive then .live else .code)) .root
      c.nodes.value c.code :=
  (h.emitsAll hw).1

end Services.IsCourse

end Artboard
