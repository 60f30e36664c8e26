import Artboard.Proofs.Conversion.Drawings
import Artboard.Proofs.Conversion.Exports
import Artboard.Proofs.Conversion.Renaming
import Artboard.Proofs.Conversion.Transparency
import Artboard.Proofs.Conversion.Visits
import Artboard.Proofs.Markup.Surroundings

/-!
# A failed bitmap stays local

Let two design tools answer alike, but for the bitmaps of one node (`BitmapChange`): one may have
other bytes, or none. Then the code drawn with the one differs from the code drawn with the other at
the element of that node only (`EmitContext.emitRoots_local`).

**Worlds** (`World.SameButAt`). The two runs ask for the same exports in the same order, and file
the same bitmaps but for those of the node. What they upload differs, but the uploader answers by
contents, so the caches need not agree.

**Fragments** (`Fragment.DifferAt`). Elements around the node are drawn the same, whatever is inside
them, and so are its neighbours. Its own element has other attributes, around the same markup.
-/

namespace Artboard

open Pass Node Text

/-! ## Design tools and worlds -/

/-- Another item, so that neither its exports nor its bitmaps are mistaken for the other's. -/
structure Item.Apart (item target : Item) : Prop where
  id : item.id ≠ target.id
  address : item.address ≠ target.address

/-- Design tools whose exports differ in nothing but the bitmaps of an id, at which neither
panics. -/
structure Host.SameBut (id : String) (host host' : Host) : Prop where
  provide : ∀ count request, (∀ withChildren, request ≠ ⟨id, .png withChildren⟩) →
    host.provide count request = host'.provide count request
  quiet : ∀ count withChildren message,
    host.provide count ⟨id, .png withChildren⟩ ≠ .panicked message
  quiet' : ∀ count withChildren message,
    host'.provide count ⟨id, .png withChildren⟩ ≠ .panicked message

/-- Worlds that differ in nothing but what was uploaded and the bitmaps under one address. -/
structure World.SameButAt (answer : String → Option String) (address : Address) (w w' : World) :
    Prop where
  faithful : w.Faithful answer
  faithful' : w'.Faithful answer
  exports : w.exports = w'.exports
  elsewhere : ∀ a withChildren, a ≠ address →
    w.bitmaps.lookup (a, withChildren) = w'.bitmaps.lookup (a, withChildren)
  asked : ∀ withChildren, (w.bitmaps.lookup (address, withChildren)).isSome =
    (w'.bitmaps.lookup (address, withChildren)).isSome

namespace World.SameButAt

variable {answer : String → Option String} {address : Address} {w w' v v' : World}

theorem refl (h : w.Faithful answer) : SameButAt answer address w w :=
  ⟨h, h, rfl, fun _ _ _ => rfl, fun _ => rfl⟩

/-- Uploads do not count. -/
theorem congr (h : SameButAt answer address w w') (hv : v.Faithful answer)
    (hexports : v.exports = w.exports) (hbitmaps : v.bitmaps = w.bitmaps)
    (hv' : v'.Faithful answer) (hexports' : v'.exports = w'.exports)
    (hbitmaps' : v'.bitmaps = w'.bitmaps) : SameButAt answer address v v' where
  faithful := hv
  faithful' := hv'
  exports := by rw [hexports, hexports', h.exports]
  elsewhere := by
    rw [hbitmaps, hbitmaps']
    exact h.elsewhere
  asked := by
    rw [hbitmaps, hbitmaps']
    exact h.asked

/-- One more bitmap is filed on both sides: the same one, or any two under the address. -/
theorem file (h : SameButAt answer address w w') (a : Address) (withChildren : Bool)
    {bytes bytes' : Option Bytes} (hbytes : a ≠ address → bytes = bytes')
    (request : ExportRequest) :
    SameButAt answer address
      { w with
        exports := w.exports ++ [request]
        bitmaps := ((a, withChildren), bytes) :: w.bitmaps }
      { w' with
        exports := w'.exports ++ [request]
        bitmaps := ((a, withChildren), bytes') :: w'.bitmaps } where
  faithful := h.faithful.congr rfl
  faithful' := h.faithful'.congr rfl
  exports := congrArg (· ++ [request]) h.exports
  elsewhere other b hother := by
    rw [List.lookup_cons, List.lookup_cons, h.elsewhere other b hother]
    by_cases hkey : ((other, b) == (a, withChildren)) = true
    · have ha : a ≠ address := (Prod.mk.inj (beq_iff_eq.1 hkey)).1 ▸ hother
      rw [hbytes ha]
    · rw [Bool.eq_false_iff.2 hkey]
  asked b := by
    rw [List.lookup_cons, List.lookup_cons]
    cases (address, b) == (a, withChildren) with
    | true => rfl
    | false => exact h.asked b

end World.SameButAt

/-- Anything may differ after a panic. -/
def AnyWorlds (_ _ : World) : Prop := True

namespace Pass

variable {α β : Type} {answer : String → Option String} {address : Address}

/-- The computation comes to a value and does nothing but upload, once some bitmap is filed. -/
def Uploads (answer : String → Option String) (key : BitmapKey) (p : Pass α) : Prop :=
  ∀ w, w.Faithful answer → (w.bitmaps.lookup key).isSome = true → ∃ a v, p.runIn w = (.ok a, v) ∧
    v.Faithful answer ∧ v.exports = w.exports ∧ v.bitmaps = w.bitmaps

namespace Uploads

variable {key : BitmapKey} {p : Pass α} {f : α → Pass β}

theorem pure (a : α) : Uploads answer key (pure a) := fun w hw _ => ⟨a, w, rfl, hw, rfl, rfl⟩

theorem bind (h : Uploads answer key p) (hf : ∀ a, Uploads answer key (f a)) :
    Uploads answer key (p >>= f) := by
  intro w hw hkey
  obtain ⟨a, u, hp, hu, hexports, hbitmaps⟩ := h w hw hkey
  obtain ⟨b, v, hfa, hv, hexports', hbitmaps'⟩ := hf a u hu (hbitmaps ▸ hkey)
  exact ⟨b, v, runIn_bind_eq_ok_iff.2 ⟨a, u, hp, hfa⟩, hv, hexports'.trans hexports,
    hbitmaps'.trans hbitmaps⟩

end Uploads

/-- What a request for an address gives does not depend on the world, which hardly changes. -/
theorem exists_runIn_address {w : World} (hw : w.Faithful answer) (uploads : UploadSettings)
    (kind : AssetKind) (bytes : Bytes) :
    ∃ v, (Pass.address (.ofContents answer) uploads kind bytes).runIn w =
        (.ok (if uploads.enabled then answer (ContentHash.of bytes).key else none), v) ∧
      v.Faithful answer ∧ v.exports = w.exports ∧ v.bitmaps = w.bitmaps := by
  obtain ⟨hvalue, hfaithful, hbitmaps⟩ := hw.address uploads kind bytes
  obtain ⟨hexports, -⟩ := runIn_address_exports (.ofContents answer) uploads kind bytes w
  exact ⟨_, Prod.ext hvalue rfl, hfaithful, hexports, hbitmaps⟩

theorem uploads_address (key : BitmapKey) (uploads : UploadSettings) (kind : AssetKind)
    (bytes : Bytes) :
    Uploads answer key (Pass.address (.ofContents answer) uploads kind bytes) := by
  intro w hw _
  obtain ⟨v, hrun, hv⟩ := exists_runIn_address hw uploads kind bytes
  exact ⟨_, v, hrun, hv⟩

theorem uploads_bitmap (host : Host) (item : Item) (withChildren : Bool) :
    Uploads answer (item.address, withChildren) (bitmap host item withChildren) := by
  intro w hw hkey
  obtain ⟨known, hknown⟩ := Option.isSome_iff_exists.1 hkey
  refine ⟨known, w, ?_, hw, rfl, rfl⟩
  rw [runIn_bitmap, hknown]

/-- Both sides upload the same. -/
theorem address_local (uploads : UploadSettings) (kind : AssetKind) (bytes : Bytes) :
    InStep (World.SameButAt answer address) AnyWorlds Eq
      (Pass.address (.ofContents answer) uploads kind bytes)
      (Pass.address (.ofContents answer) uploads kind bytes) := by
  intro w w' hw
  obtain ⟨v, hrun, hv, hexports, hbitmaps⟩ :=
    exists_runIn_address hw.faithful uploads kind bytes
  obtain ⟨v', hrun', hv', hexports', hbitmaps'⟩ :=
    exists_runIn_address hw.faithful' uploads kind bytes
  rw [hrun, hrun']
  exact .value rfl (hw.congr hv hexports hbitmaps hv' hexports' hbitmaps')

section Bitmaps

variable {target item : Item} {host host' : Host}

/-- Bitmaps of other nodes are the same. -/
theorem bitmap_elsewhere (hhosts : host.SameBut target.id host') (hitem : item.Apart target)
    (withChildren : Bool) :
    InStep (World.SameButAt answer target.address) AnyWorlds Eq (bitmap host item withChildren)
      (bitmap host' item withChildren) := by
  intro w w' hw
  have hreply : host.provide w'.exports.length ⟨item.id, .png withChildren⟩ =
      host'.provide w'.exports.length ⟨item.id, .png withChildren⟩ :=
    hhosts.provide _ _ fun b h => hitem.id (congrArg ExportRequest.id h)
  rw [runIn_bitmap, runIn_bitmap, hw.elsewhere _ _ hitem.address]
  cases w'.bitmaps.lookup (item.address, withChildren) with
  | some known => exact .value rfl hw
  | none =>
    rw [runIn_ask, runIn_ask, hw.exports, hreply]
    have hfile (bytes : Option Bytes) :=
      hw.file item.address withChildren (fun _ => Eq.refl bytes) ⟨item.id, .png withChildren⟩
    rw [hw.exports] at hfile
    cases host'.provide w'.exports.length ⟨item.id, .png withChildren⟩ with
    | done bytes => exact .value rfl (hfile (some bytes))
    | failed => exact .value rfl (hfile none)
    | panicked message => exact .panic _ True.intro

/-- A bitmap that is not filed yet is asked for and filed, unless the design tool panics. -/
theorem exists_runIn_bitmap {withChildren : Bool} {w : World}
    (hmiss : w.bitmaps.lookup (item.address, withChildren) = none)
    (hquiet : ∀ message,
      host.provide w.exports.length ⟨item.id, .png withChildren⟩ ≠ .panicked message) :
    ∃ bytes, (bitmap host item withChildren).runIn w = (.ok bytes,
      { w with
        exports := w.exports ++ [⟨item.id, .png withChildren⟩]
        bitmaps := ((item.address, withChildren), bytes) :: w.bitmaps }) := by
  rw [runIn_bitmap, hmiss, runIn_ask]
  cases hreply : host.provide w.exports.length ⟨item.id, .png withChildren⟩ with
  | done bytes => exact ⟨some bytes, rfl⟩
  | failed => exact ⟨none, rfl⟩
  | panicked message => exact absurd hreply (hquiet message)

/-- What the node's own bitmap is may differ, but it is filed on both sides then. -/
theorem runIn_bitmap_here (hhosts : host.SameBut target.id host') {w w' : World}
    (hw : World.SameButAt answer target.address w w') (withChildren : Bool) :
    ∃ bytes v bytes' v', (bitmap host target withChildren).runIn w = (.ok bytes, v) ∧
      (bitmap host' target withChildren).runIn w' = (.ok bytes', v') ∧
      World.SameButAt answer target.address v v' ∧
      (v.bitmaps.lookup (target.address, withChildren)).isSome = true := by
  have hasked := hw.asked withChildren
  cases hlookup : w.bitmaps.lookup (target.address, withChildren) with
  | some known =>
    rw [hlookup] at hasked
    obtain ⟨known', hlookup'⟩ := Option.isSome_iff_exists.1 hasked.symm
    refine ⟨known, w, known', w', ?_, ?_, hw, by rw [hlookup]; rfl⟩
    · rw [runIn_bitmap, hlookup]
    · rw [runIn_bitmap, hlookup']
  | none =>
    rw [hlookup] at hasked
    have hlookup' : w'.bitmaps.lookup (target.address, withChildren) = none :=
      Option.isNone_iff_eq_none.1 (Option.isSome_eq_false_iff.1 hasked.symm)
    obtain ⟨bytes, hrun⟩ := exists_runIn_bitmap hlookup (hhosts.quiet _ _)
    obtain ⟨bytes', hrun'⟩ := exists_runIn_bitmap hlookup' (hhosts.quiet' _ _)
    refine ⟨bytes, _, bytes', _, hrun, hrun', ?_, ?_⟩
    · exact hw.file target.address withChildren (absurd rfl ·) ⟨target.id, .png withChildren⟩
    · simp

end Bitmaps

end Pass

/-! ## Fragments -/

/-- The same messages, but for one message that may stand at one place. -/
def WarnedAlike (message : String) (warnings warnings' : List String) : Prop :=
  ∃ before own own' after, warnings = before ++ own ++ after ∧ warnings' = before ++ own' ++ after ∧
    (own = [] ∨ own = [message]) ∧ (own' = [] ∨ own' = [message])

namespace WarnedAlike

variable {message : String} {warnings warnings' : List String}

theorem refl (warnings : List String) : WarnedAlike message warnings warnings :=
  ⟨warnings, [], [], [], by simp, by simp, .inl rfl, .inl rfl⟩

theorem append_left (h : WarnedAlike message warnings warnings') (others : List String) :
    WarnedAlike message (others ++ warnings) (others ++ warnings') := by
  obtain ⟨before, own, own', after, rfl, rfl, hown, hown'⟩ := h
  exact ⟨others ++ before, own, own', after, by simp, by simp, hown, hown'⟩

theorem append_right (h : WarnedAlike message warnings warnings') (others : List String) :
    WarnedAlike message (warnings ++ others) (warnings' ++ others) := by
  obtain ⟨before, own, own', after, rfl, rfl, hown, hown'⟩ := h
  exact ⟨before, own, own', after ++ others, by simp, by simp, hown, hown'⟩

end WarnedAlike

/-- The same markup, but for the style and the last attributes of one element for an address. -/
inductive Markup.DifferAt (address : Address) : List (Markup Style) → List (Markup Style) → Prop
  | same (markup : List (Markup Style)) : DifferAt address markup markup
  | element (c : Markup.Context Style) (head : Markup.Head Style) (style : Style)
      (after : List Markup.Attribute) (inside : List (Markup Style))
      (hhead : head.source = address) :
      DifferAt address (c.fill (Markup.wrap head inside))
        (c.fill (Markup.wrap { head with style, after } inside))

namespace Markup.DifferAt

variable {address : Address} {markup markup' : List (Markup Style)}

theorem append_left (h : DifferAt address markup markup') (others : List (Markup Style)) :
    DifferAt address (others ++ markup) (others ++ markup') := by
  cases h with
  | same => exact .same _
  | element c head style after inside hhead =>
    rw [← Context.fill_prepend, ← Context.fill_prepend]
    exact .element (c.prepend others) head style after inside hhead

theorem append_right (h : DifferAt address markup markup') (others : List (Markup Style)) :
    DifferAt address (markup ++ others) (markup' ++ others) := by
  cases h with
  | same => exact .same _
  | element c head style after inside hhead =>
    rw [← Context.fill_append, ← Context.fill_append]
    exact .element (c.append others) head style after inside hhead

/-- The element is inside another one. -/
theorem wrap (h : DifferAt address markup markup') (around : Head Style) :
    DifferAt address [Markup.wrap around markup] [Markup.wrap around markup'] := by
  cases h with
  | same => exact .same _
  | element c head style after inside hhead =>
    have hfill (m : Markup Style) :
        [Markup.wrap around (c.fill m)] = (Context.inside [] around c []).fill m := by
      simp [Markup.wrap, Context.isEmpty_fill, Context.fill]
    rw [hfill, hfill]
    exact .element _ head style after inside hhead

/-- It is the element itself. -/
theorem own (head : Head Style) (style : Style) (after : List Attribute)
    (hhead : head.source = address) (inside : List (Markup Style)) :
    DifferAt address [Markup.wrap head inside] [Markup.wrap { head with style, after } inside] :=
  .element (.here [] []) head style after inside hhead

end Markup.DifferAt

/-- Markup that is written the same, but for the style and the last attributes of one element for an
address: both texts begin the same and end the same, and the elements between are indented the same
around the same text. -/
def Markup.WrittenAlikeBut (address : Address) (mode : Mode) (f : Style → Classes)
    (markup markup' : List (Markup Style)) : Prop :=
  let text (markup : List (Markup Style)) := renderAll mode (mapAll f markup)
  text markup = text markup' ∨
    ∃ before after depth head style last inside, head.source = address ∧
      text markup = before ++ indent^[depth] (((wrap head inside).map f).render mode) ++ after ∧
      text markup' = before ++
        indent^[depth] (((wrap { head with style, after := last } inside).map f).render mode) ++
        after

theorem Markup.DifferAt.written {address : Address} {markup markup' : List (Markup Style)}
    (h : DifferAt address markup markup') (mode : Mode) (f : Style → Classes) :
    WrittenAlikeBut address mode f markup markup' := by
  cases h with
  | same => exact .inl rfl
  | element c head style last inside hhead =>
    obtain ⟨before, after, htext, -⟩ := c.exists_renderAll_fill mode f
    exact .inr ⟨before, after, c.depth, head, style, last, inside, hhead, htext _, htext _⟩

/-- The same fragments, but for the element of an item and its message about a placeholder. -/
structure Fragment.DifferAt (target : Item) (f f' : Fragment) : Prop where
  markup : Markup.DifferAt target.address f.markup f'.markup
  warnings : WarnedAlike (placeholderWarning target.name) f.warnings f'.warnings
  textStyles : f'.textStyles = f.textStyles

namespace Fragment.DifferAt

variable {target : Item} {f f' : Fragment}

theorem refl (f : Fragment) : DifferAt target f f := ⟨.same _, .refl _, rfl⟩

theorem of_eq (h : f = f') : DifferAt target f f' := h ▸ refl f

theorem append_left (h : DifferAt target f f') (g : Fragment) :
    DifferAt target (g.append f) (g.append f') :=
  ⟨h.markup.append_left _, h.warnings.append_left _, congrArg (g.textStyles ++ ·) h.textStyles⟩

theorem append_right (h : DifferAt target f f') (g : Fragment) :
    DifferAt target (f.append g) (f'.append g) :=
  ⟨h.markup.append_right _, h.warnings.append_right _, congrArg (· ++ g.textStyles) h.textStyles⟩

/-- What is warned of behind them is the same. -/
theorem warn (h : DifferAt target f f') (warnings : List String) :
    DifferAt target { f with warnings := f.warnings ++ warnings }
      { f' with warnings := f'.warnings ++ warnings } :=
  ⟨h.markup, h.warnings.append_right _, h.textStyles⟩

theorem around (h : DifferAt target f f') (head : Markup.Head Style) :
    DifferAt target (EmitContext.around head f) (EmitContext.around head f') :=
  ⟨h.markup.wrap head, h.warnings, h.textStyles⟩

end Fragment.DifferAt

/-! ## Images -/

namespace EmitContext

/-- An image of an item, with the message about a placeholder or none. -/
def IsImage (item : Item) (shown : Option ImageSource × List String) : Prop :=
  (∃ source, shown.1 = some source) ∧
    (shown.2 = [] ∨ shown.2 = [placeholderWarning item.name])

/-- Outside previews there always is an image. -/
theorem image_gives (cx : EmitContext) (himages : cx.images ≠ .preview) (item : Item)
    (withChildren : Bool) : Gives (cx.image item withChildren) (IsImage item) := by
  rw [image_eq, if_neg himages]
  refine (Gives.trivial _).bind fun url _ => ?_
  cases url with
  | some url => exact .pure ⟨⟨_, rfl⟩, .inl rfl⟩
  | none =>
    refine (Gives.trivial _).bind fun bytes _ => ?_
    cases bytes with
    | some bytes => exact .pure ⟨⟨_, rfl⟩, .inl rfl⟩
    | none => exact .pure ⟨⟨_, rfl⟩, .inr rfl⟩

end EmitContext

/-! ## Two contexts -/

/-- A context for drawing, and another one with other bitmaps of an item. Previews are left out, for
there a bitmap that is missing changes the element. -/
structure BitmapChange where
  settings : Settings
  images : ImageMode
  images_ne : images ≠ .preview
  answer : String → Option String
  target : Item
  host : Host
  host' : Host
  hosts : host.SameBut target.id host'

namespace BitmapChange

abbrev context (c : BitmapChange) (host : Host) : EmitContext :=
  ⟨c.settings, host, Pass.address (.ofContents c.answer), c.images⟩

/-- In the two contexts the computation comes to related values, or to the same panic. -/
abbrev Relates {α : Type} (c : BitmapChange) (V : α → α → Prop) (p : EmitContext → Pass α) : Prop :=
  InStep (World.SameButAt c.answer c.target.address) AnyWorlds V (p (c.context c.host))
    (p (c.context c.host'))

/-- The item, or another one. -/
def Covers (c : BitmapChange) (item : Item) : Prop := item = c.target ∨ item.Apart c.target

open EmitContext (IsImage image uploaded embedded image_gives isEmpty_backdrop)

variable {c : BitmapChange} {item : Item} {children : List Node} {parent : ParentContext}

/-! ## The node itself -/

/-- An image is given without looking, or it is the bitmap, which is looked at before anything
else. -/
theorem image_cases (c : BitmapChange) (item : Item) (withChildren : Bool) :
    (∃ given, ∀ host, (c.context host).image item withChildren = pure given) ∨
      ∀ host, ∃ shown : Option Bytes → Pass (Option ImageSource × List String),
        (c.context host).image item withChildren = bitmap host item withChildren >>= shown ∧
        ∀ bytes, Uploads c.answer (item.address, withChildren) (shown bytes) := by
  by_cases huploads : (c.images = .code && c.settings.uploads.uploadsBitmaps) = true
  · refine .inr fun host => ?_
    simp only [EmitContext.image_eq, if_neg c.images_ne, EmitContext.uploaded_eq,
      if_pos huploads, bind_assoc]
    refine ⟨_, rfl, fun bytes => Uploads.bind ?_ fun url => ?_⟩
    · cases bytes with
      | some bytes => exact uploads_address _ _ _ bytes
      | none => exact .pure _
    · cases url with
      | some url => exact .pure _
      | none =>
        refine Uploads.bind ?_ fun bytes => ?_
        · rw [EmitContext.embedded_eq]
          split_ifs
          · exact uploads_bitmap host item withChildren
          · exact .pure _
        · cases bytes <;> exact .pure _
  by_cases hembeds : (c.images = .live || c.settings.embedImages) = true
  · refine .inr fun host => ?_
    simp only [EmitContext.image_eq, if_neg c.images_ne, EmitContext.uploaded_eq,
      if_neg huploads, pure_bind, EmitContext.embedded_eq, if_pos hembeds]
    refine ⟨_, rfl, fun bytes => ?_⟩
    cases bytes <;> exact .pure _
  · refine .inl ⟨(some (.placeholder item.geometry.width item.geometry.height),
      [placeholderWarning item.name]), fun host => ?_⟩
    simp only [EmitContext.image_eq, if_neg c.images_ne, EmitContext.uploaded_eq,
      if_neg huploads, pure_bind, EmitContext.embedded_eq, if_neg hembeds]

/-- Whatever the node's own image is, the worlds differ in nothing but its bitmap and uploads. -/
theorem image_here (withChildren : Bool) :
    c.Relates (fun shown shown' => IsImage c.target shown ∧ IsImage c.target shown')
      fun cx => cx.image c.target withChildren := by
  have hworlds : c.Relates (fun _ _ => True) fun cx => cx.image c.target withChildren := by
    rcases c.image_cases c.target withChildren with ⟨given, himage⟩ | himage
    · dsimp only [Relates]
      rw [himage c.host, himage c.host']
      exact .pure True.intro
    obtain ⟨shown, hshown, huploads⟩ := himage c.host
    obtain ⟨shown', hshown', huploads'⟩ := himage c.host'
    intro w w' hw
    obtain ⟨bytes, v, bytes', v', hbitmap, hbitmap', hv, hkey⟩ :=
      runIn_bitmap_here c.hosts hw withChildren
    obtain ⟨image, u, hrun, hu, hexports, hbitmaps⟩ := huploads bytes v hv.faithful hkey
    obtain ⟨image', u', hrun', hu', hexports', hbitmaps'⟩ :=
      huploads' bytes' v' hv.faithful' (hv.asked withChildren ▸ hkey)
    dsimp only
    rw [hshown, hshown', runIn_bind_eq_ok_iff.2 ⟨bytes, v, hbitmap, hrun⟩,
      runIn_bind_eq_ok_iff.2 ⟨bytes', v', hbitmap', hrun'⟩]
    exact .value True.intro (hv.congr hu hexports hbitmaps hu' hexports' hbitmaps')
  have himage (host : Host) : Gives ((c.context host).image c.target withChildren)
      (IsImage c.target) :=
    image_gives _ c.images_ne c.target withChildren
  exact (hworlds.and_gives (himage c.host) (himage c.host')).mono fun _ _ h => h.2

/-- An image is the element of its node, with nothing inside. -/
theorem picture_here {shown shown' : Option ImageSource × List String}
    (hshown : IsImage c.target shown) (hshown' : IsImage c.target shown')
    (utilities : List Utility) :
    Fragment.DifferAt c.target
      { markup := [(c.context c.host).picture c.target utilities shown.1], warnings := shown.2 }
      { markup := [(c.context c.host').picture c.target utilities shown'.1]
        warnings := shown'.2 } := by
  obtain ⟨⟨source, hsource⟩, hwarnings⟩ := hshown
  obtain ⟨⟨source', hsource'⟩, hwarnings'⟩ := hshown'
  refine ⟨?_, ⟨[], shown.2, shown'.2, [], by simp, by simp, hwarnings, hwarnings'⟩, rfl⟩
  rw [hsource, hsource']
  exact Markup.DifferAt.own
    { (c.context c.host).head "img" c.target (.ofUtilities utilities) with
      after := [("src", .text source.url)] }
    (.ofUtilities utilities) [("src", .text source'.url)] rfl []

theorem shape_here :
    c.Relates (Fragment.DifferAt c.target) fun cx => cx.shape c.target children parent := by
  dsimp only [Relates]
  rw [EmitContext.shape_eq, EmitContext.shape_eq]
  split_ifs
  · exact .pure (.refl _)
  · exact (image_here true).bind fun _ _ h => .pure (picture_here h.1 h.2 _)
  · exact .pure (.refl _)

theorem staticImage_here :
    c.Relates (Fragment.DifferAt c.target) fun cx => cx.staticImage c.target children parent := by
  dsimp only [Relates]
  rw [EmitContext.staticImage_eq, EmitContext.staticImage_eq]
  exact (image_here true).bind fun _ _ h => .pure (picture_here h.1 h.2 _)

/-- Both containers are around the same. -/
theorem container_here (inside : Fragment) :
    c.Relates (Fragment.DifferAt c.target)
      fun cx => cx.container c.target children parent inside := by
  dsimp only [Relates]
  rw [EmitContext.container_eq, EmitContext.container_eq]
  split_ifs
  · exact .pure (.refl _)
  · refine (image_here false).bind ?_
    rintro ⟨_, warnings⟩ ⟨_, warnings'⟩ ⟨⟨⟨source, rfl⟩, hwarnings⟩, ⟨source', rfl⟩, hwarnings'⟩
    dsimp only
    rw [isEmpty_backdrop, isEmpty_backdrop]
    refine .pure ⟨?_, ?_, rfl⟩
    · exact Markup.DifferAt.own ((c.context c.host).head "div" c.target _) _ _ rfl inside.markup
    · exact ⟨inside.warnings, warnings, warnings', [], by simp [EmitContext.around],
        by simp [EmitContext.around], hwarnings, hwarnings'⟩
  · refine InStep.bind (V := Eq) (.pure rfl) ?_
    rintro shown _ rfl
    dsimp only
    split_ifs <;> exact .pure (.refl _)

/-! ## Other nodes -/

/-- Bitmaps of other nodes, in the form that drawing in step asks for. -/
theorem bitmaps_elsewhere {items : List Item} (hothers : ∀ item ∈ items, item.Apart c.target) :
    ∀ item ∈ items, ∀ address', item.address = address' → item.readdressed address' ∈ items →
      ∀ withChildren, InStep (World.SameButAt c.answer c.target.address) AnyWorlds Eq
        (bitmap c.host item withChildren)
        (bitmap c.host' (item.readdressed address') withChildren) := by
  rintro item hitem _ rfl - withChildren
  exact bitmap_elsewhere c.hosts (hothers item hitem) withChildren

/-- Where the item is not, the same is drawn. -/
theorem emit_elsewhere (n : Node) (hothers : ∀ item ∈ n.items, item.Apart c.target) :
    c.Relates Eq fun cx => cx.emit parent n := by
  have hstep : c.Relates (Fragment.SameBut Eq) fun cx => cx.emit parent n :=
    EmitContext.emit_inStep address_local parent n (alike_refl n) (bitmaps_elsewhere hothers)
  exact hstep.mono fun _ _ h => h.eq.symm

theorem emitAll_elsewhere (nodes : List Node)
    (hothers : ∀ item ∈ itemsOfAll nodes, item.Apart c.target) :
    c.Relates Eq fun cx => cx.emitAll parent nodes := by
  have hstep : c.Relates (Fragment.SameBut Eq) fun cx => cx.emitAll parent nodes :=
    EmitContext.emitAll_inStep address_local parent nodes (alikeAll_refl nodes)
      (bitmaps_elsewhere hothers)
  exact hstep.mono fun _ _ h => h.eq.symm

/-! ## All nodes -/

theorem shape_local (hitem : c.Covers item) :
    c.Relates (Fragment.DifferAt c.target) fun cx => cx.shape item children parent := by
  rcases hitem with rfl | hitem
  · exact shape_here
  · have hstep : c.Relates (Fragment.SameBut Eq) fun cx => cx.shape item children parent :=
      EmitContext.shape_inStep address_local (bitmap_elsewhere c.hosts hitem) rfl
        (alikeAll_refl children)
    exact hstep.mono fun _ _ h => .of_eq h.eq.symm

theorem staticImage_local (hitem : c.Covers item) :
    c.Relates (Fragment.DifferAt c.target) fun cx => cx.staticImage item children parent := by
  rcases hitem with rfl | hitem
  · exact staticImage_here
  · have hstep : c.Relates (Fragment.SameBut Eq) fun cx => cx.staticImage item children parent :=
      EmitContext.staticImage_inStep address_local (bitmap_elsewhere c.hosts hitem) rfl
        (alikeAll_refl children)
    exact hstep.mono fun _ _ h => .of_eq h.eq.symm

/-- A container is left out on both sides or on neither. If it is not the item itself, it is the
same around what differs. -/
theorem container_local (hitem : c.Covers item) {inside inside' : Fragment}
    (h : Fragment.DifferAt c.target inside inside') (hsame : item = c.target → inside = inside') :
    InStep (World.SameButAt c.answer c.target.address) AnyWorlds (Fragment.DifferAt c.target)
      ((c.context c.host).container item children parent inside)
      ((c.context c.host').container item children parent inside') := by
  rcases hitem with rfl | hitem
  · rw [hsame rfl]
    exact container_here inside'
  have himage : c.Relates Eq fun cx => cx.image item false :=
    EmitContext.image_inStep address_local (bitmap_elsewhere c.hosts hitem) false
  rw [EmitContext.container_eq, EmitContext.container_eq]
  split_ifs
  · exact .pure h
  on_goal 1 => refine himage.bind ?_
  on_goal 2 => refine InStep.bind (V := Eq) (.pure rfl) ?_
  all_goals
    rintro shown _ rfl
    have hwarned := h.warn shown.2
    dsimp only
    split_ifs
    · exact .pure hwarned
    · exact .pure (hwarned.around _)

mutual

/-- The cases are those of `emit`. -/
theorem emit_local (parent : ParentContext) (n : Node) (hnodup : n.items.Nodup)
    (hitems : ∀ item ∈ n.items, c.Covers item) :
    c.Relates (Fragment.DifferAt c.target) fun cx => cx.emit parent n := by
  match n with
  | .node item children =>
    rw [Node.items] at hnodup hitems
    obtain ⟨hown, hrest⟩ := List.nodup_cons.1 hnodup
    obtain ⟨hitem, hchildren⟩ := List.forall_mem_cons.1 hitems
    -- The item is not inside its own node, so there all is the same.
    have hinside : c.Relates
        (fun f f' => Fragment.DifferAt c.target f f' ∧ (item = c.target → f = f'))
        fun cx => cx.emitAll (.inside item) children := by
      by_cases htarget : item = c.target
      · have hothers : ∀ inner ∈ itemsOfAll children, inner.Apart c.target := by
          intro inner hinner
          have hne : inner ≠ c.target := fun h => hown (htarget.trans h.symm ▸ hinner)
          exact (hchildren inner hinner).resolve_left hne
        exact (emitAll_elsewhere children hothers).mono fun _ _ h => ⟨.of_eq h, fun _ => h⟩
      · exact (emitAll_local _ children hrest hchildren).mono fun _ _ h => ⟨h, (absurd · htarget)⟩
    dsimp only [Relates]
    rw [EmitContext.emit_node, EmitContext.emit_node]
    cases item.tag with
    | ignore | prompt _ | slot _ _ _ | canvas _ => exact .pure (.refl _)
    | list id =>
      refine hinside.bind fun _ _ hf => .pure ?_
      simp only [EmitContext.list]
      exact hf.1.around _
    | static => exact staticImage_local hitem
    | none =>
      dsimp only
      cases item.artifact with
      | some artifact => exact .pure (.refl _)
      | none =>
        cases item.kind with
        | rectangle | ellipse => exact shape_local hitem
        | group | frame | «section» =>
          exact hinside.bind fun _ _ hf => container_local hitem hf.1 hf.2
        | text _ | line | vector | unsupported _ => exact .pure (.refl _)

/-- Of several nodes at most one holds the item. -/
theorem emitAll_local (parent : ParentContext) (nodes : List Node)
    (hnodup : (itemsOfAll nodes).Nodup) (hitems : ∀ item ∈ itemsOfAll nodes, c.Covers item) :
    c.Relates (Fragment.DifferAt c.target) fun cx => cx.emitAll parent nodes := by
  match nodes with
  | [] => exact .pure (.refl _)
  | n :: rest =>
    rw [itemsOfAll] at hnodup hitems
    obtain ⟨hfirst, hothers⟩ := List.forall_mem_append.1 hitems
    obtain ⟨hnodup, hnodup', hdisjoint⟩ := List.nodup_append'.1 hnodup
    dsimp only [Relates]
    rw [EmitContext.emitAll_cons, EmitContext.emitAll_cons]
    by_cases htarget : c.target ∈ n.items
    · have hrest : ∀ item ∈ itemsOfAll rest, item.Apart c.target := by
        intro item hitem
        have hne : item ≠ c.target := fun h => hdisjoint htarget (h ▸ hitem)
        exact (hothers item hitem).resolve_left hne
      refine (emit_local parent n hnodup hfirst).bind fun f f' hf => ?_
      refine (emitAll_elsewhere rest hrest).bind fun g g' hg => ?_
      subst hg
      exact .pure (hf.append_right g)
    · have hn : ∀ item ∈ n.items, item.Apart c.target := by
        intro item hitem
        have hne : item ≠ c.target := fun h => htarget (h ▸ hitem)
        exact (hfirst item hitem).resolve_left hne
      refine (emit_elsewhere n hn).bind fun f f' hf => ?_
      subst hf
      refine (emitAll_local parent rest hnodup' hothers).bind fun g g' hg => ?_
      exact .pure (hg.append_left f)

end

end BitmapChange

/-! ## Whole selections -/

namespace Pass

variable {α : Type}

/-- A computation does not panic if it goes in step with itself and panics leave no world. -/
theorem isQuiet_iff_inStep {p : Pass α} : IsQuiet p ↔ InStep Eq (fun _ _ => False) Eq p p := by
  constructor
  · rintro hquiet w _ rfl
    obtain ⟨a, hvalue⟩ := hquiet w
    generalize p.runIn w = result at hvalue ⊢
    obtain ⟨value, v⟩ := result
    obtain rfl : value = .ok a := hvalue
    exact .value rfl rfl
  · intro hstep w
    have hend := hstep w w rfl
    generalize p.runIn w = result at hend ⊢
    cases hend with
    | value => exact ⟨_, rfl⟩
    | panic _ hw => exact hw.elim

theorem isQuiet_bitmap {host : Host} (hhost : host.IsQuiet) (item : Item) (withChildren : Bool) :
    IsQuiet (bitmap host item withChildren) := by
  intro w
  cases hlookup : w.bitmaps.lookup (item.address, withChildren) with
  | some known => exact ⟨known, by rw [runIn_bitmap, hlookup]⟩
  | none =>
    obtain ⟨bytes, hrun⟩ := exists_runIn_bitmap hlookup (hhost _ _)
    exact ⟨bytes, by rw [hrun]⟩

end Pass

namespace EmitContext

/-- Drawing does not panic of itself. -/
theorem isQuiet_emitAll {settings : Settings} {images : ImageMode} {host : Host}
    {uploader : Uploader} (hhost : host.IsQuiet) (huploader : uploader.IsQuiet)
    (parent : ParentContext) (nodes : List Node) :
    IsQuiet (emitAll ⟨settings, host, Pass.address uploader, images⟩ parent nodes) := by
  have hassets (uploads : UploadSettings) (kind : AssetKind) (bytes : Bytes) :=
    isQuiet_iff_inStep.1 (isQuiet_address huploader uploads kind bytes)
  refine isQuiet_iff_inStep.2 ?_
  refine (emitAll_inStep hassets parent nodes (alikeAll_refl nodes) ?_).mono fun _ _ h => h.eq.symm
  rintro item - _ rfl - withChildren
  exact isQuiet_iff_inStep.1 (isQuiet_bitmap hhost item withChildren)

/-- **A failed bitmap stays local.** Let the uploader answer by contents, and two design tools
answer alike but for the bitmaps of one node of a tree whose nodes have ids of their own, as they
always have addresses of their own (`NormalizeContext.AllBecome.nodup_addresses`). Both then draw
the same, but for the style and the last attributes of the element of that node, if it has one:
whatever stands in front of it, inside it and behind it is the same, as are the text styles and all
messages but the one about a placeholder for it. A panic at another node comes on both sides, and
without one there are fragments to compare. -/
theorem emitRoots_local (settings : Settings) (options : ConversionOptions) (roots : List Node)
    (target : Item) (htarget : target ∈ itemsOfAll roots)
    (hids : ((itemsOfAll roots).map (·.id)).Nodup) (haddresses : (addressesOfAll roots).Nodup)
    (answer : String → Option String) (host host' : Host) (hhosts : host.SameBut target.id host')
    (w : World) (hw : w.Faithful answer) :
    let drawn (host : Host) := ((((Services.uploading host (.ofContents answer)).emitting settings
      options).emitRoots roots).runIn w).1
    Matching
        (fun f f' => Fragment.DifferAt target f f' ∧
          Markup.WrittenAlikeBut target.address settings.mode (Style.resolve settings) f.markup
            f'.markup)
        (drawn host) (drawn host') ∧
      (host.IsQuiet → ∃ f, drawn host = .ok f) := by
  let c : BitmapChange :=
    { settings, answer, target, host, host', hosts := hhosts
      images := if options.isLive then .live else .code
      images_ne := by split_ifs <;> nofun }
  have hitems : ∀ item ∈ itemsOfAll roots, c.Covers item := by
    intro item hitem
    by_cases hsame : item = target
    · exact .inl hsame
    · exact .inr ⟨fun h => hsame (List.inj_on_of_nodup_map hids hitem htarget h),
        fun h => hsame (List.inj_on_of_nodup_map haddresses hitem htarget h)⟩
  have huploader : (Uploader.ofContents answer).IsQuiet := by
    intro _ request message
    unfold Uploader.ofContents
    cases answer request.key <;> nofun
  intro drawn
  constructor
  · have hnodup : (itemsOfAll roots).Nodup := haddresses.of_map _
    have hlocal := c.emitAll_local .root roots hnodup hitems
    exact (hlocal.mono fun _ _ h => ⟨h, h.markup.written _ _⟩).matching (.refl hw)
  · intro hhost
    exact isQuiet_emitAll hhost huploader .root roots w

/-- A banner on a shelf, between a photo and a logo with the same bytes, once without its bitmap and
once with these bytes again. -/
theorem emitRoots_local_banner :
    let item (address : Address) (id : String) (kind : NodeKind) (tag : LayerTag)
        (fills : List Fill) : Item :=
      { address, id, name := id, kind, geometry := ⟨⟨0, 0⟩, ⟨0, 0⟩, 40, 40, 0⟩, visible := true,
        tag, fills, strokes := [], strokeWeight := 0, corners := ⟨0, 0, 0, 0⟩, opacity := 1,
        clipsContent := false, layout := none, placement := ⟨false, .fixed, .fixed⟩,
        artifact := none }
    let photo : Node := .node (item [0, 0] "photo" .rectangle .none [.image none]) []
    let logo : Node := .node (item [0, 1, 0] "logo" .ellipse .static []) []
    let banner : Item := item [0, 1] "banner" .frame .none [.image none]
    let shelf : Node :=
      .node (item [0] "shelf" .frame (.list "shelf") []) [photo, .node banner [logo]]
    let providing (reply : Reply Bytes) : Host := ⟨fun _ => none, fun _ request =>
      if request = ⟨"banner", .png false⟩ then reply else .done [1, 2]⟩
    let host := providing .failed
    let host' := providing (.done [1, 2])
    let settings : Settings := { uploads := { enabled := true } }
    let drawn (host : Host) := ((((Services.uploading host (.ofContents some)).emitting settings
      {}).emitRoots [shelf]).runIn {}).1
    banner ∈ itemsOfAll [shelf] ∧ ((itemsOfAll [shelf]).map (·.id)).Nodup ∧
      (addressesOfAll [shelf]).Nodup ∧ host.SameBut banner.id host' ∧
      World.Faithful some {} ∧ host.IsQuiet ∧
      (drawn host).map (·.warnings) = .ok [placeholderWarning "banner"] ∧
      (drawn host').map (·.warnings) = .ok [] ∧
      Matching
          (fun f f' => Fragment.DifferAt banner f f' ∧
            Markup.WrittenAlikeBut banner.address settings.mode (Style.resolve settings) f.markup
              f'.markup)
          (drawn host) (drawn host') ∧
        ∃ f, drawn host = .ok f := by
  intro item photo logo banner shelf providing host host' settings drawn
  have hbanner : banner ∈ itemsOfAll [shelf] := by decide +kernel
  have hids : ((itemsOfAll [shelf]).map (·.id)).Nodup := by decide
  have haddresses : (addressesOfAll [shelf]).Nodup := by decide
  have hhosts : host.SameBut banner.id host' := by
    refine ⟨fun _ request h => ?_, ?_, ?_⟩
    · exact (if_neg (h false)).trans (if_neg (h false)).symm
    · rintro _ (_ | _) message <;> nofun
    · rintro _ (_ | _) message <;> nofun
  have hquiet : host.IsQuiet := by
    intro _ request message
    show (if request = ⟨"banner", .png false⟩ then Reply.failed else .done [1, 2]) ≠ _
    split_ifs <;> nofun
  obtain ⟨hlocal, hvalue⟩ := emitRoots_local settings {} [shelf] banner hbanner hids haddresses some
    host host' hhosts {} World.faithful_init
  exact ⟨hbanner, hids, haddresses, hhosts, World.faithful_init, hquiet, by decide +kernel,
    by decide +kernel, hlocal, hvalue hquiet⟩

end EmitContext

end Artboard
