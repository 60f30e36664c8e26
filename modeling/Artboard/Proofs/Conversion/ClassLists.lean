import Artboard.Proofs.Conversion.Colors
import Artboard.Proofs.Conversion.UserData
import Artboard.Proofs.Markup.ClassAttributes
import Artboard.Proofs.Style.Unbroken

/-!
# Class lists survive the class attribute

Names of variables and of font families, numbers and addresses come into classes, and classes come
into one attribute, joined by blanks and escaped. A class list is read back from it if no class has
a blank (`Markup.Enlists`), so no data may bring one in. Numbers and the classes of variables never
do. For font families, for the keys that stand for them, for the class prefix and for what an
uploader answers this is assumed (`Services.compile_classLists`).

Each element that is drawn for an item keeps its class list (`EmitContext.keeps_drawn`), and so do
those of a whole drawing (`EmitContext.EmitsAll.keeps`).
-/

namespace Artboard

open Text (BlankFree)

namespace Markup

variable {σ : Type}

theorem startsOfAll_append (markup others : List (Markup σ)) :
    startsOfAll (markup ++ others) = startsOfAll markup ++ startsOfAll others := by
  induction markup with
  | nil => rfl
  | cons m rest ih => rw [List.cons_append, startsOfAll, startsOfAll, ih, List.append_assoc]

theorem startsOfAll_singleton (m : Markup σ) : startsOfAll [m] = m.starts := by
  rw [startsOfAll, startsOfAll, List.append_nil]

theorem starts_wrap (head : Head σ) (inside : List (Markup σ)) :
    (wrap head inside).starts = head :: startsOfAll inside := by
  cases inside <;> rfl

theorem ne_className {name : String} (mode : Mode)
    (h : name ≠ "className" ∧ name ≠ "class" := by decide) : name ≠ className mode := by
  cases mode with
  | jsx => exact h.1
  | html => exact h.2

/-- The start of an element whose class list is read back, for it is read itself, has no other class
attribute, and holds no data that break a class. -/
structure Head.Keeps (settings : Settings) (h : Head Style) : Prop where
  sound : IsSoundTag settings.mode h.tag
    ((h.map (Style.resolve settings)).attributes settings.mode)
  own : ∀ a ∈ h.before ++ h.after, a.1 ≠ className settings.mode
  unbroken : Style.Unbroken h.style.utilities

theorem Head.Keeps.isListed {settings : Settings} {h : Head Style} (hkeeps : h.Keeps settings)
    (hfree : BlankFree settings.classPrefix) :
    (h.map (Style.resolve settings)).IsListed settings.mode :=
  ⟨hkeeps.sound, hkeeps.own, fun _ hc => Style.blankFree_of_mem_classes hfree hkeeps.unbroken hc⟩

end Markup

open Markup (Head)

/-! ## Items -/

/-- What an item has from its layer breaks no class. -/
structure Item.Unbroken (i : Item) : Prop where
  colors : ∀ fill, i.Uses fill → fill.Unbroken
  families : ∀ content, i.kind = .text content → ∀ run ∈ content.runs,
    ∀ family ∈ run.style.fontFamily, Text.OnlySpaces family

namespace EmitContext

variable {cx : EmitContext} {item : Item} {children : List Node} {parent : ParentContext}
  {picture : Picture} {inside : Fragment} {us : List Utility}

theorem unbroken_base : Style.Unbroken (base item children parent) :=
  (Style.unbroken_position.append Style.unbroken_size).append Style.unbroken_effects

theorem unbroken_paint (hitem : item.Unbroken) : Style.Unbroken (Style.paint item) :=
  Style.unbroken_paint fun fill hfill => hitem.colors fill (Item.uses_iff.2 (.inl hfill))

theorem unbroken_stroke (hitem : item.Unbroken) : Style.Unbroken (Style.stroke item) :=
  Style.unbroken_stroke fun fill hfill => hitem.colors fill (Item.uses_iff.2 (.inl (by
    rw [List.flatMap_append]
    exact List.mem_append_right _ hfill)))

theorem unbroken_containerUtilities (hitem : item.Unbroken) :
    Style.Unbroken (containerUtilities item children parent) :=
  (unbroken_base.append Style.unbroken_childLayout).append (unbroken_paint hitem)

theorem unbroken_backdrop {source : Option ImageSource}
    (hsource : ∀ url, source = some (.remote url) → BlankFree url) :
    Style.Unbroken (backdrop source).utilities := by
  have hcover : Style.Unbroken [.keyword .cover] := List.forall_mem_singleton.2 trivial
  rcases source with _ | url | bytes | ⟨width, height⟩
  · exact Style.unbroken_nil
  · exact List.forall_mem_cons.2 ⟨hsource url rfl, hcover⟩
  · exact hcover
  · exact List.forall_mem_cons.2 ⟨blankFree_placeholderUrl width height, hcover⟩

/-! ## Elements -/

theorem layerName_ne_className (mode : Mode) :
    ∀ a ∈ cx.layerName item, a.1 ≠ Markup.className mode := by
  have hlayer : "data-layer" ≠ Markup.className mode := Markup.ne_className mode
  unfold layerName
  split_ifs
  · exact List.forall_mem_singleton.2 hlayer
  · exact List.forall_mem_nil _

theorem keeps_head {tag : String} {style : Style} (htag : Markup.isName tag.toList = true)
    (hstyle : ∀ d ∈ style.declarations, Markup.PlainDeclaration d)
    (hunbroken : Style.Unbroken style.utilities) :
    (cx.head tag item style).Keeps cx.settings where
  sound := (head_isSound htag hstyle).resolve
  own := List.forall_mem_append.2 ⟨layerName_ne_className _, List.forall_mem_nil _⟩
  unbroken := hunbroken

theorem keeps_plain {tag : String} (htag : Markup.isName tag.toList = true)
    (hus : Style.Unbroken us) : (cx.head tag item (.ofUtilities us)).Keeps cx.settings :=
  keeps_head htag (List.forall_mem_nil _) hus

theorem keeps_picture (hus : Style.Unbroken us) (source : Option ImageSource) :
    ∀ head ∈ (cx.picture item us source).starts, head.Keeps cx.settings := by
  cases source with
  | none => exact List.forall_mem_singleton.2 (keeps_plain (by decide) hus)
  | some s =>
    refine List.forall_mem_singleton.2 ⟨(isSound_picture us (some s)).isSoundTag, ?_, hus⟩
    have hsrc : "src" ≠ Markup.className cx.settings.mode := Markup.ne_className _
    exact List.forall_mem_append.2 ⟨layerName_ne_className _, List.forall_mem_singleton.2 hsrc⟩

theorem keeps_slot (kind : SlotKind) (subtype id : String) :
    ∀ head ∈ Markup.startsOfAll (cx.slot item kind subtype id parent).markup,
      head.Keeps cx.settings := by
  have hsound := List.forall_mem_singleton.1 (cx.slot_isSound item kind subtype id parent)
  refine List.forall_mem_singleton.2 ⟨hsound.isSoundTag, ?_, Style.unbroken_position⟩
  rw [List.append_nil]
  have hgeneric {name key : String} (hname : name ≠ key) :
      ∀ a ∈ (if kind = .generic then [(name, .text subtype)] else [] : List Markup.Attribute),
        a.1 ≠ key := by
    split_ifs
    · exact List.forall_mem_singleton.2 hname
    · exact List.forall_mem_nil _
  -- The other attributes depend on the mode, too.
  cases cx.settings.mode
  all_goals
    simp only [List.cons_append, List.forall_mem_cons, List.forall_mem_append]
    exact ⟨Markup.ne_className _, hgeneric (Markup.ne_className _), Markup.ne_className _,
      Markup.ne_className _, List.forall_mem_nil _⟩

/-- The elements of a list are its own, and those inside. -/
theorem keeps_list (hitem : item.Unbroken) (id : String) :
    ∀ head ∈ Markup.startsOfAll (cx.list item id children parent inside).markup,
      head ∈ Markup.startsOfAll inside.markup ∨ head.Keeps cx.settings := by
  obtain ⟨own, hmarkup, hown, hunbroken⟩ : ∃ own : Head Style,
      (∀ inside, (cx.list item id children parent inside).markup =
        [Markup.wrap own inside.markup]) ∧
      (∀ a ∈ own.before ++ own.after, a.1 ≠ Markup.className cx.settings.mode) ∧
      Style.Unbroken own.style.utilities := by
    refine ⟨_, fun inside => rfl, ?_, unbroken_containerUtilities hitem⟩
    rw [List.append_nil]
    cases cx.settings.mode
    all_goals
      simp only [List.forall_mem_cons]
      exact ⟨Markup.ne_className _, Markup.ne_className _, Markup.ne_className _,
        List.forall_mem_nil _⟩
  -- The start is the same whatever is inside, so it is sound as that of an empty list.
  have hsound : Fragment.IsSound cx.settings (cx.list item id children parent {}) :=
    list_isSound id .empty
  rw [Fragment.IsSound, hmarkup] at hsound
  rw [hmarkup, Markup.startsOfAll_singleton, Markup.starts_wrap]
  exact List.forall_mem_cons.2
    ⟨.inr ⟨(List.forall_mem_singleton.1 hsound).isSoundTag, hown, hunbroken⟩,
      fun head hhead => .inl hhead⟩

theorem keeps_canvas (id : String) :
    ∀ head ∈ Markup.startsOfAll (canvas item id children parent).markup,
      head.Keeps cx.settings := by
  have hsound := List.forall_mem_singleton.1
    (canvas_isSound cx.settings item id children parent)
  have hid : "id" ≠ Markup.className cx.settings.mode := Markup.ne_className _
  exact List.forall_mem_singleton.2
    ⟨hsound.isSoundTag, List.forall_mem_singleton.2 hid, unbroken_base⟩

/-- A text has an element of its own, and one around each segment of several. -/
theorem keeps_text {content : TextContent}
    (hkeys : ∀ entry ∈ cx.settings.fontFamilies, BlankFree entry.1) (hitem : item.Unbroken)
    (hkind : item.kind = .text content) :
    ∀ head ∈ Markup.startsOfAll (cx.text item content children parent).markup,
      head.Keeps cx.settings := by
  have hblock : Style.Unbroken (base item children parent ++ Style.alignment content) :=
    unbroken_base.append (Style.unbroken_alignment content)
  have hrun {s : Segment} (hs : s ∈ Segment.ofRuns content.runs) :
      Style.Unbroken (Style.run cx.settings s.style) := by
    obtain ⟨run, hrun, hstyle⟩ := Segment.exists_run_of_mem_ofRuns hs
    rw [← hstyle]
    exact Style.unbroken_run hkeys
      ⟨fun fill hfill => hitem.colors fill (.run hkind hrun hfill),
        hitem.families content hkind run hrun⟩
  have hspans (segments : List Segment)
      (h : ∀ s ∈ segments, Style.Unbroken (Style.run cx.settings s.style)) (outer : Head Style) :
      ∀ head ∈ (Markup.Content.spans (segments.map cx.span)).starts outer,
        head.Keeps cx.settings := by
    intro head hhead
    rw [Markup.Content.starts, List.flatMap_map] at hhead
    obtain ⟨s, hs, hhead⟩ := List.mem_flatMap.1 hhead
    obtain rfl := List.mem_singleton.1 hhead
    have hsound : Head.IsSound cx.settings.mode
        { source := outer.source, tag := s.wrapper
          style := .ofUtilities (Style.run cx.settings s.style) } :=
      ⟨isName_wrapper s, List.forall_mem_nil _, List.forall_mem_nil _, List.forall_mem_nil _⟩
    exact ⟨hsound.resolve, List.forall_mem_nil _, h s hs⟩
  unfold text
  rcases hsegments : Segment.ofRuns content.runs with _ | ⟨only, _ | ⟨next, rest⟩⟩
  all_goals
    rw [hsegments] at hrun
    dsimp only
    rw [Markup.startsOfAll_singleton, Markup.starts, List.forall_mem_cons]
  · exact ⟨keeps_plain (by decide) hblock, hspans [] (List.forall_mem_nil _) _⟩
  · exact ⟨keeps_plain (by decide) (hblock.append (hrun List.mem_cons_self)),
      List.forall_mem_nil _⟩
  · exact ⟨keeps_plain (by decide) hblock, hspans _ (fun s hs => hrun hs) _⟩

theorem keeps_artifact (artifact : Artifact) :
    ∀ head ∈ Markup.startsOfAll (cx.artifact item artifact children parent).markup,
      head.Keeps cx.settings := by
  cases artifact with
  | remote url =>
    rw [EmitContext.artifact, Fragment.ofMarkup, Markup.startsOfAll_singleton]
    exact keeps_picture unbroken_base (some (.remote url))
  | svg markup =>
    have hhead : (cx.head "div" item (.ofUtilities (base item children parent))).Keeps
        cx.settings := keeps_plain (by decide) unbroken_base
    have hflag : "data-svg-wrapper" ≠ Markup.className cx.settings.mode := Markup.ne_className _
    exact List.forall_mem_singleton.2
      ⟨⟨hhead.sound.name, List.forall_mem_cons.2
          ⟨⟨(by decide : Markup.isName "data-svg-wrapper".toList = true),
            fun value hvalue => by cases hvalue⟩, hhead.sound.attributes⟩⟩,
        List.forall_mem_cons.2 ⟨hflag, hhead.own⟩, hhead.unbroken⟩

theorem keeps_framed (hitem : item.Unbroken)
    (hpicture : ∀ url, picture.1 = some (.remote url) → BlankFree url) :
    ∀ head ∈ Markup.startsOfAll (cx.framed item children parent picture inside).markup,
      head ∈ Markup.startsOfAll inside.markup ∨ head.Keeps cx.settings := by
  unfold framed
  dsimp only
  split_ifs
  · exact fun head hhead => .inl hhead
  · exact fun head hhead => .inl hhead
  · show ∀ head ∈ Markup.startsOfAll [Markup.wrap _ inside.markup], _
    rw [Markup.startsOfAll_singleton, Markup.starts_wrap]
    exact List.forall_mem_cons.2 ⟨.inr (keeps_head (by decide) (plain_backdrop _)
      ((unbroken_containerUtilities hitem).append (unbroken_backdrop hpicture))),
        fun head hhead => .inl hhead⟩

/-- **What is drawn for an item** keeps its class lists, apart from what is inside. -/
theorem keeps_drawn (hkeys : ∀ entry ∈ cx.settings.fontFamilies, BlankFree entry.1)
    (hitem : item.Unbroken) (hpicture : ∀ url, picture.1 = some (.remote url) → BlankFree url) :
    ∀ head ∈ Markup.startsOfAll (cx.drawn item children parent picture inside).markup,
      head ∈ Markup.startsOfAll inside.markup ∨ head.Keeps cx.settings := by
  have hown {f : Fragment} (h : ∀ head ∈ Markup.startsOfAll f.markup, head.Keeps cx.settings) :
      ∀ head ∈ Markup.startsOfAll f.markup,
        head ∈ Markup.startsOfAll inside.markup ∨ head.Keeps cx.settings :=
    fun head hhead => .inr (h head hhead)
  have hpictured {us : List Utility} (hus : Style.Unbroken us) (source : Option ImageSource)
      (warnings : List String) :
      ∀ head ∈ Markup.startsOfAll
        ({ markup := [cx.picture item us source], warnings } : Fragment).markup,
        head.Keeps cx.settings := by
    rw [Markup.startsOfAll_singleton]
    exact keeps_picture hus source
  cases htag : item.tag with
  | ignore | prompt instruction =>
    simp only [drawn, htag]
    exact List.forall_mem_nil _
  | slot kind subtype id =>
    simp only [drawn, htag]
    exact hown (keeps_slot kind subtype id)
  | list id =>
    simp only [drawn, htag]
    exact keeps_list hitem id
  | canvas id =>
    simp only [drawn, htag]
    exact hown (keeps_canvas id)
  | static =>
    simp only [drawn, htag]
    exact hown (hpictured unbroken_base picture.1 picture.2)
  | none =>
    cases hartifact : item.artifact with
    | some artifact =>
      simp only [drawn, htag, hartifact]
      exact hown (keeps_artifact artifact)
    | none =>
      have hbox {us : List Utility} (hus : Style.Unbroken us) (warnings : List String) :
          ∀ head ∈ Markup.startsOfAll
            ({ markup := [cx.box "div" item us], warnings } : Fragment).markup,
            head.Keeps cx.settings :=
        List.forall_mem_singleton.2 (keeps_plain (by decide) hus)
      have hpaint : Style.Unbroken (base item children parent ++ Style.paint item) :=
        unbroken_base.append (unbroken_paint hitem)
      simp only [drawn, htag, hartifact]
      cases hkind : item.kind with
      | rectangle | ellipse =>
        dsimp only
        split_ifs
        · exact hown (List.forall_mem_nil _)
        · exact hown (hpictured hpaint picture.1 picture.2)
      | group | frame | «section» => exact keeps_framed hitem hpicture
      | text content => exact hown (keeps_text hkeys hitem hkind)
      | line => exact hown (hbox (unbroken_base.append (unbroken_stroke hitem)) [])
      | vector => exact hown (hbox hpaint _)
      | unsupported type => exact hown (List.forall_mem_nil _)

mutual

/-- Every element of a drawing keeps its class list. -/
theorem Emits.keeps {pictures : Item → Picture → Prop} {parent : ParentContext} {n : Node}
    {f : Fragment} (h : cx.Emits pictures parent n f)
    (hkeys : ∀ entry ∈ cx.settings.fontFamilies, BlankFree entry.1)
    (hitems : ∀ item ∈ n.items, item.Unbroken)
    (hpictures : ∀ item picture, pictures item picture →
      ∀ url, picture.1 = some (.remote url) → BlankFree url) :
    ∀ head ∈ Markup.startsOfAll f.markup, head.Keeps cx.settings := by
  intro head hhead
  cases h with
  | closed hopen hpicture =>
    obtain ⟨hitem, -⟩ := List.forall_mem_cons.1 hitems
    exact (keeps_drawn hkeys hitem (hpictures _ _ hpicture) head hhead).resolve_left nofun
  | opened hopen hpicture hinside =>
    obtain ⟨hitem, hchildren⟩ := List.forall_mem_cons.1 hitems
    rcases keeps_drawn hkeys hitem (hpictures _ _ hpicture) head hhead with hhead | hkeeps
    · exact hinside.keeps hkeys hchildren hpictures head hhead
    · exact hkeeps

theorem EmitsAll.keeps {pictures : Item → Picture → Prop} {parent : ParentContext}
    {nodes : List Node} {f : Fragment} (h : cx.EmitsAll pictures parent nodes f)
    (hkeys : ∀ entry ∈ cx.settings.fontFamilies, BlankFree entry.1)
    (hitems : ∀ item ∈ Node.itemsOfAll nodes, item.Unbroken)
    (hpictures : ∀ item picture, pictures item picture →
      ∀ url, picture.1 = some (.remote url) → BlankFree url) :
    ∀ head ∈ Markup.startsOfAll f.markup, head.Keeps cx.settings := by
  intro head hhead
  cases h with
  | nil => cases hhead
  | cons hfirst hrest =>
    obtain ⟨hn, hothers⟩ := List.forall_mem_append.1 hitems
    rw [Fragment.append, Markup.startsOfAll_append] at hhead
    rcases List.mem_append.1 hhead with hhead | hhead
    · exact hfirst.keeps hkeys hn hpictures head hhead
    · exact hrest.keeps hkeys hothers hpictures head hhead

end

end EmitContext

/-- The address of a bitmap comes from the uploader. -/
theorem Trail.Pictures.blankFree {t : Trail} {images : ImageMode} {item : Item} {picture : Picture}
    (h : t.Pictures images item picture)
    (hurls : ∀ url, t.uploader.Answers url → BlankFree url) :
    ∀ url, picture.1 = some (.remote url) → BlankFree url := by
  intro url hurl
  unfold Pictures at h
  split at h
  case h_1 withChildren _ =>
    cases h with
    | missing | embedded | placeholder => cases hurl
    | remote himages hanswer =>
      obtain rfl := ImageSource.remote.inj (Option.some.inj hurl)
      exact hurls _ hanswer
  case h_2 =>
    rw [h] at hurl
    cases hurl

/-! ## Items of selections -/

/-- The font families that a layer names. -/
def Layer.families (l : Layer) : List String :=
  l.segments.filterMap fun text => text.fontName.map (·.family)

namespace NormalizeContext

variable {cx : NormalizeContext}

theorem unbroken_solidFill (color : Rgba) (bound : BoundVariables) :
    (cx.solidFill color bound).value.Unbroken := by
  intro token htoken
  obtain ⟨name, rfl⟩ := token_solidFill color bound token htoken
  exact blankFree_variableToken name

theorem unbroken_of_mem_fills {paints : List Paint} {fill : Fill} {color : SolidFill}
    (hfill : fill ∈ (cx.fills paints).value) (hcolor : color ∈ fill.colors) : color.Unbroken := by
  obtain ⟨paint, hpaint⟩ := exists_of_mem_fills hfill
  cases paint with
  | solid p =>
    obtain rfl := Option.some.inj hpaint
    obtain rfl := List.mem_singleton.1 hcolor
    exact unbroken_solidFill _ _
  | image p =>
    obtain rfl := Option.some.inj hpaint
    cases hcolor
  | gradient p =>
    obtain rfl := Option.some.inj hpaint
    simp only [Fill.colors, Warned.all, List.map_map, List.mem_map] at hcolor
    obtain ⟨stop, -, rfl⟩ := hcolor
    exact unbroken_solidFill _ _
  | unsupported => cases hpaint

theorem unbroken_of_textColor {paints : List Paint} {color : SolidFill}
    (h : (cx.textColor paints).value = some color) : color.Unbroken := by
  obtain ⟨fill, hfill, hsolid⟩ := List.mem_filterMap.1 (List.mem_of_getLast? h)
  refine unbroken_of_mem_fills hfill ?_
  cases fill with
  | solid other =>
    obtain rfl := Option.some.inj hsolid
    exact List.mem_singleton_self _
  | image | gradient => cases hsolid

theorem unbroken_runs {l : Layer} (hfamilies : ∀ family ∈ l.families, Text.OnlySpaces family) :
    ∀ run ∈ (cx.textContent l).value.runs, run.style.Unbroken := by
  have hinherited : ∀ fill ∈ (cx.textColor l.fills).value, fill.Unbroken :=
    fun fill hfill => unbroken_of_textColor hfill
  simp only [textContent]
  split_ifs
  · exact List.forall_mem_singleton.2 ⟨hinherited, nofun⟩
  · simp only [Warned.all, List.map_map, List.forall_mem_map]
    refine fun text htext => ⟨?_, fun family hfamily => ?_⟩
    · simp only [Function.comp_apply, runOf, Warned.map]
      split_ifs
      · exact hinherited
      · exact fun fill hfill => unbroken_of_textColor hfill
    · exact hfamilies family (List.mem_filterMap.2 ⟨text, htext, hfamily⟩)

/-- **What items have from layers breaks no class,** if the families that the layers name do not. -/
theorem ItemOf.unbroken {address : Address} {s : Scene} {item : Item}
    (h : cx.ItemOf address s item)
    (hfamilies : ∀ family ∈ s.layer.families, Text.OnlySpaces family) : item.Unbroken := by
  obtain ⟨hfills, hstrokes, hkind⟩ : item.fills = (cx.fills s.layer.fills).value ∧
      item.strokes = (cx.fills s.layer.strokes).value ∧ item.kind = (cx.kindOf s.layer).value := by
    cases h <;> exact ⟨rfl, rfl, rfl⟩
  have hruns {content : TextContent} (htext : item.kind = .text content) :
      ∀ run ∈ content.runs, run.style.Unbroken := by
    rw [hkind, kindOf] at htext
    split at htext
    case h_1 =>
      obtain rfl := NodeKind.text.inj htext
      exact unbroken_runs hfamilies
    case h_2 hother => exact absurd htext (hother content)
  refine ⟨fun color huses => ?_, fun content htext run hrun => (hruns htext run hrun).family⟩
  rcases Item.uses_iff.1 huses with hmem | ⟨content, htext, hmem⟩
  · obtain ⟨fill, hfill, hcolor⟩ := List.mem_flatMap.1 hmem
    rw [hfills, hstrokes] at hfill
    rcases List.mem_append.1 hfill with hfill | hfill <;> exact unbroken_of_mem_fills hfill hcolor
  · obtain ⟨run, hrun, hcolor⟩ := List.mem_filterMap.1 hmem
    exact (hruns htext run hrun).color color hcolor

end NormalizeContext

/-! ## Conversions -/

/-- What becomes of the class lists of some markup in its text. -/
structure KeepsClassLists (settings : Settings) (markup : List (Markup Style)) (text : String) :
    Prop where
  /-- The start tags are those of the elements, in order, and each gives the class list of its
  element; there are no others, except in preformatted text. -/
  shown : Markup.Enlists settings.mode (· ∈ Markup.blocksOfAll markup) ('\n' :: text.toList)
    ((Markup.startsOfAll markup).map (Head.map (Style.resolve settings)))
  /-- So a reader of the whole text finds these class lists and no others. -/
  read : Markup.blocksOfAll markup = [] → ∃ tokens,
    Markup.read? settings.mode text.toList = some tokens ∧
      tokens.flatMap (Markup.Token.classLists settings.mode) =
        (Markup.startsOfAll markup).flatMap fun h => Markup.listed (h.style.classes settings)
  nodup : ∀ h ∈ Markup.startsOfAll markup, (h.style.classes settings).Nodup
  /-- Each class is one token, with something behind the class prefix. -/
  tokens : ∀ h ∈ Markup.startsOfAll markup, ∀ token ∈ h.style.classes settings,
    BlankFree token ∧ ∃ rest, rest ≠ "" ∧ token = settings.classPrefix ++ rest

theorem EmitContext.EmitsAll.keepsClassLists {cx : EmitContext} {pictures : Item → Picture → Prop}
    {parent : ParentContext} {nodes : List Node} {f : Fragment}
    (h : cx.EmitsAll pictures parent nodes f) (hfree : BlankFree cx.settings.classPrefix)
    (hkeys : ∀ entry ∈ cx.settings.fontFamilies, BlankFree entry.1)
    (hitems : ∀ item ∈ Node.itemsOfAll nodes, item.Unbroken)
    (hpictures : ∀ item picture, pictures item picture →
      ∀ url, picture.1 = some (.remote url) → BlankFree url) :
    KeepsClassLists cx.settings f.markup (cx.write f.markup) := by
  have hkeeps := h.keeps hkeys hitems hpictures
  have hlisted : ∀ head ∈ Markup.startsOfAll
      (Markup.mapAll (Style.resolve cx.settings) f.markup), head.IsListed cx.settings.mode := by
    rw [Markup.startsOfAll_mapAll, List.forall_mem_map]
    exact fun head hhead => (hkeeps head hhead).isListed hfree
  have hshown : Markup.Enlists cx.settings.mode (· ∈ Markup.blocksOfAll f.markup)
      ('\n' :: (cx.write f.markup).toList)
      ((Markup.startsOfAll f.markup).map (Head.map (Style.resolve cx.settings))) := by
    rw [← Markup.startsOfAll_mapAll]
    refine Markup.enlists_document hlisted fun text htext => ?_
    rwa [Markup.blocksOfAll_mapAll] at htext
  refine ⟨hshown, fun hblocks => ?_, fun head _ => ClassList.nodup_ofTexts _ _, ?_⟩
  · obtain ⟨tokens, hread, hlists⟩ := hshown.exists_read fun text htext => by
      rw [hblocks] at htext
      cases htext
    exact ⟨tokens, hread, hlists.trans (List.flatMap_map ..)⟩
  · intro head hhead token htoken
    refine ⟨Style.blankFree_of_mem_classes hfree (hkeeps head hhead).unbroken htoken, ?_⟩
    obtain ⟨u, -, rfl⟩ := Style.mem_classes.1 htoken
    exact ⟨_, u.text_ne_empty cx.settings, rfl⟩

namespace Services

open Node

/-- **Class lists survive the class attribute.** Let the class prefix, the keys of font families and
the addresses from the uploader have no blanks, and the names of font families no blanks but plain
spaces. Then the class attribute of every element of the code and of the preview, decoded and split
at blanks, is the class list of the element, whatever the names of variables and layers, the texts,
the colours and the numbers are. Every class of it is one token that begins with the class prefix,
and none is in it twice. -/
theorem compile_classLists (host : Host) (uploader : Uploader) (initial : Settings)
    (before : List Session.Step) (settings : Settings) (options : ConversionOptions)
    (selection : Selection) (conversion : Conversion)
    (hfree : BlankFree settings.classPrefix)
    (hkeys : ∀ entry ∈ settings.fontFamilies, BlankFree entry.1)
    (hurls : ∀ url, uploader.Answers url → BlankFree url)
    (hfamilies : ∀ s ∈ Scene.layersOf selection, ∀ family ∈ s.layer.families,
      Text.OnlySpaces family) :
    let services := uploading host uploader
    let w := (Session.run services { settings := initial } before).2.world
    (services.compile settings options selection w).1 = .ok (.converted conversion) →
      ∃ c, services.IsCourse settings options selection w conversion c ∧
        KeepsClassLists settings c.code.markup conversion.code ∧
        KeepsClassLists (Preview.settings settings) c.preview.markup conversion.preview.content := by
  intro services w hcompile
  obtain ⟨c, hcourse, -⟩ := exists_course (Prod.ext hcompile rfl)
  have hw : w.Answered uploader := Session.answered host uploader initial before
  have hitems : ∀ item ∈ itemsOfAll c.nodes.value, item.Unbroken := by
    intro item hitem
    obtain ⟨s, hat, -, hof⟩ := NormalizeContext.normalize_exists_of_mem _ selection _ _
      (congrArg Prod.fst hcourse.normalized) c.nodes rfl item hitem
    exact hof.unbroken (hfamilies s (Selection.mem_layersOf_of_at? hat))
  have hpictures (images : ImageMode) (item : Item) (picture : Picture)
      (h : (c.trail host uploader w).Pictures images item picture) :
      ∀ url, picture.1 = some (.remote url) → BlankFree url := h.blankFree hurls
  obtain ⟨hcode, hpreview⟩ := hcourse.emitsAll hw
  refine ⟨c, hcourse, ?_, ?_⟩
  · rw [hcourse.code_eq]
    exact hcode.keepsClassLists hfree hkeys hitems (hpictures _)
  · rw [hcourse.preview_eq]
    refine hpreview.keepsClassLists (by decide : BlankFree "") hkeys (fun item hitem => ?_)
      (hpictures _)
    exact hitems item ((itemsOfAll_dropPrompts_sublist c.nodes.value).subset hitem)

/-- A card with an uploaded image behind a text of two segments. Its variable is named with blanks
of all kinds, and a family with a plain space. -/
theorem compile_classLists_card :
    let brand : Paint := .solid { color := ⟨0, 0, 1, 1⟩, bound := { color := some "brand" } }
    let title : Scene := .node
      { id := "title", name := "Title", type := "TEXT", width := 90, height := 20,
        segments := [
          { characters := "a", fontName := some { family := "Open Sans" }, fills := [brand] },
          { characters := "b", fontName := some { family := "Inter" }, fontSize := some 13 }] } []
    let card : Selection := [.node
      { id := "card", name := "Card", type := "FRAME", width := 100, height := 50,
        fills := [.image {}] } [title]]
    let settings : Settings :=
      { classPrefix := "tw-", fontFamilies := [("body", ["Inter"])], uploads := { enabled := true } }
    let host : Host :=
      ⟨fun _ => some "Brand\u00a0/ Primary\u2003\n500", fun _ _ => .done "PHOTO".toUTF8.toList⟩
    let uploader : Uploader := fun _ _ => .done "https://cdn.test/photo.png?a&b"
    let services := uploading host uploader
    BlankFree settings.classPrefix ∧ (∀ entry ∈ settings.fontFamilies, BlankFree entry.1) ∧
      (∀ url, uploader.Answers url → BlankFree url) ∧
      (∀ s ∈ Scene.layersOf card, ∀ family ∈ s.layer.families, Text.OnlySpaces family) ∧
      ∃ conversion, (services.compile settings {} card {}).1 = .ok (.converted conversion) ∧
        ∃ c, services.IsCourse settings {} card {} conversion c ∧
          KeepsClassLists settings c.code.markup conversion.code ∧
          KeepsClassLists (Preview.settings settings) c.preview.markup
            conversion.preview.content := by
  intro brand title card settings host uploader services
  have hfree : BlankFree settings.classPrefix := by decide
  have hkeys : ∀ entry ∈ settings.fontFamilies, BlankFree entry.1 := by decide
  have hurls : ∀ url, uploader.Answers url → BlankFree url := by
    rintro url ⟨n, request, hanswer⟩
    cases hanswer
    decide
  have hfamilies : ∀ s ∈ Scene.layersOf card, ∀ family ∈ s.layer.families,
      Text.OnlySpaces family := by decide
  have hcode : (codeOf (services.compile settings {} card {}).1).isSome = true := by decide +kernel
  obtain ⟨conversion, hconversion⟩ := exists_of_codeOf hcode
  exact ⟨hfree, hkeys, hurls, hfamilies, conversion, hconversion,
    compile_classLists host uploader {} [] settings {} card conversion hfree hkeys hurls hfamilies
      hconversion⟩

end Services

end Artboard
