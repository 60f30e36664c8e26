import Artboard.Proofs.Conversion.Courses
import Artboard.Proofs.Markup.Places

/-!
# What users wrote, in attributes

Names of layers, ids of tags and addresses of images stand in attributes of the code. Escaping keeps
them as they are, but the text of an element is indented once for every element around it, and
attribute values are indented along with it. So a reader gets back the original with two more blanks
behind every line feed for each element around: the original itself at the top and wherever there is
no line feed in it (`Services.compile_userData`), but something else below
(`Services.compile_name_of_two_lines`).
-/

namespace Artboard

/-! ## Starts of elements -/

namespace Markup

variable {σ : Type}

mutual

/-- The starts of all elements that stand for nodes. -/
def heads : Markup σ → List (Head σ)
  | .comment _ => []
  | .leaf head _ => [head]
  | .parent head children => head :: headsOfAll children

def headsOfAll : List (Markup σ) → List (Head σ)
  | [] => []
  | m :: rest => m.heads ++ headsOfAll rest

end

theorem headsOfAll_append (markup others : List (Markup σ)) :
    headsOfAll (markup ++ others) = headsOfAll markup ++ headsOfAll others := by
  induction markup with
  | nil => rfl
  | cons m rest ih => rw [List.cons_append, headsOfAll, headsOfAll, ih, List.append_assoc]

theorem headsOfAll_singleton (m : Markup σ) : headsOfAll [m] = m.heads := by
  rw [headsOfAll, headsOfAll, List.append_nil]

theorem heads_wrap (head : Head σ) (inside : List (Markup σ)) :
    (wrap head inside).heads = head :: headsOfAll inside := by
  cases inside <;> rfl

theorem head_mem_headsOfAll_fill (c : Context σ) {m : Markup σ} {head : Head σ}
    (h : m.head? = some head) : head ∈ headsOfAll (c.fill m) := by
  induction c with
  | here before after =>
    have hhead : head ∈ m.heads := by
      cases m with
      | comment text => cases h
      | leaf | parent =>
        obtain rfl := Option.some.inj h
        exact List.mem_cons_self
    rw [Context.fill, headsOfAll_append, headsOfAll]
    exact List.mem_append_right _ (List.mem_append_left _ hhead)
  | inside before outer inner after ih =>
    rw [Context.fill, headsOfAll_append, headsOfAll, heads]
    exact List.mem_append_right _ (List.mem_append_left _ (List.mem_cons_of_mem _ ih))

theorem IsSound.isSoundTag {mode : Mode} {head : Head Classes} {content : Content Classes}
    (h : (Markup.leaf head content).IsSound mode) :
    IsSoundTag mode head.tag (head.attributes mode) := by
  cases h with
  | leaf hhead => exact hhead

end Markup

open Markup (Head IsSoundTag)

namespace EmitContext

/-! ## User data of items -/

/-- The attributes that hold what users wrote. -/
def userKeys : List String :=
  ["data-layer", "slotId", "slotType", "data-slot-id", "data-slot-type", "listId", "data-list-id",
    "id", "src"]

/-- What users wrote of an item, and the attribute that it belongs to. -/
inductive Datum (cx : EmitContext) (item : Item) (picture : Picture) : String → String → Prop
  | name (hshow : cx.settings.showLayerNames = true) : Datum cx item picture "data-layer" item.name
  | slotId {key : String} {kind : SlotKind} {subtype id : String}
      (hkey : key = "slotId" ∨ key = "data-slot-id") (htag : item.tag = .slot kind subtype id) :
      Datum cx item picture key id
  | slotType {key : String} {kind : SlotKind} {subtype id : String}
      (hkey : key = "slotType" ∨ key = "data-slot-type") (htag : item.tag = .slot kind subtype id) :
      Datum cx item picture key subtype
  | listId {key id : String} (hkey : key = "listId" ∨ key = "data-list-id")
      (htag : item.tag = .list id) : Datum cx item picture key id
  | canvasId {id : String} (htag : item.tag = .canvas id) : Datum cx item picture "id" id
  | image {source : ImageSource} (hsource : item.shownSource picture = some source) :
      Datum cx item picture "src" source.url

/-- The start of an element is read back, and holds nothing in the attributes for user data but what
users wrote of the item. -/
structure StandsFor (cx : EmitContext) (item : Item) (picture : Picture) (head : Head Style) :
    Prop where
  source : head.source = item.address
  shown : item.tag.isPrompt = false
  sound : IsSoundTag cx.settings.mode head.tag
    ((head.map (Style.resolve cx.settings)).attributes cx.settings.mode)
  userData : ∀ a ∈ head.before ++ head.after, a.1 ∈ userKeys →
    ∃ s, a.2 = .text s ∧ cx.Datum item picture a.1 s

variable {cx : EmitContext} {item : Item} {children : List Node} {parent : ParentContext}
  {picture : Picture} {inside : Fragment}

theorem datum_of_mem_layerName {a : Markup.Attribute} (h : a ∈ cx.layerName item) :
    ∃ s, a.2 = .text s ∧ cx.Datum item picture a.1 s := by
  unfold layerName at h
  split_ifs at h with hshow
  · obtain rfl := List.mem_singleton.1 h
    exact ⟨_, rfl, .name hshow⟩
  · cases h

theorem standsFor_head {tag : String} {style : Style} (hprompt : item.tag.isPrompt = false)
    (htag : Markup.isName tag.toList = true)
    (hstyle : ∀ d ∈ style.declarations, Markup.PlainDeclaration d) :
    cx.StandsFor item picture (cx.head tag item style) where
  source := rfl
  shown := hprompt
  sound := (head_isSound htag hstyle).resolve
  userData a ha _ := datum_of_mem_layerName (by simpa [head] using ha)

theorem standsFor_picture {utilities : List Utility} {source : Option ImageSource}
    (hprompt : item.tag.isPrompt = false)
    (hsource : ∀ s, source = some s → item.shownSource picture = some s) :
    ∀ head ∈ (cx.picture item utilities source).heads, cx.StandsFor item picture head := by
  cases source with
  | none =>
    exact List.forall_mem_singleton.2 (standsFor_head hprompt (by decide) (List.forall_mem_nil _))
  | some s =>
    refine List.forall_mem_singleton.2
      ⟨rfl, hprompt, (isSound_picture utilities (some s)).isSoundTag, ?_⟩
    rintro a ha -
    rcases List.mem_append.1 ha with ha | ha
    · exact datum_of_mem_layerName ha
    · obtain rfl := List.mem_singleton.1 ha
      exact ⟨_, rfl, .image (hsource s rfl)⟩

theorem standsFor_slot {kind : SlotKind} {subtype id : String}
    (htag : item.tag = .slot kind subtype id) :
    ∀ head ∈ Markup.headsOfAll (cx.slot item kind subtype id parent).markup,
      cx.StandsFor item picture head := by
  have hsound := List.forall_mem_singleton.1 (cx.slot_isSound item kind subtype id parent)
  have hgeneric {name : String} {a : Markup.Attribute}
      (h : a ∈ if kind = .generic then [(name, Markup.AttrValue.text subtype)] else []) :
      a = (name, .text subtype) := by
    split_ifs at h
    · exact List.mem_singleton.1 h
    · cases h
  refine List.forall_mem_singleton.2 ⟨rfl, by rw [htag]; rfl, hsound.isSoundTag, ?_⟩
  intro a ha hkey
  rw [List.append_nil] at ha
  cases hmode : cx.settings.mode with
  | jsx =>
    simp only [hmode, List.cons_append, List.mem_cons, List.mem_append] at ha
    rcases ha with rfl | ha | rfl | rfl | ha
    · exact ⟨_, rfl, .slotId (.inl rfl) htag⟩
    · rw [hgeneric ha]
      exact ⟨_, rfl, .slotType (.inl rfl) htag⟩
    · exact absurd hkey (by simp [userKeys])
    · exact absurd hkey (by simp [userKeys])
    · cases ha
  | html =>
    simp only [hmode, List.cons_append, List.mem_cons, List.mem_append] at ha
    rcases ha with rfl | ha | rfl | rfl | ha
    · exact ⟨_, rfl, .slotId (.inr rfl) htag⟩
    · rw [hgeneric ha]
      exact ⟨_, rfl, .slotType (.inr rfl) htag⟩
    · exact absurd hkey (by simp [userKeys])
    · exact absurd hkey (by simp [userKeys])
    · cases ha

/-- The elements of a list are its own, and those inside. -/
theorem standsFor_list {id : String} (htag : item.tag = .list id) :
    ∀ head ∈ Markup.headsOfAll (cx.list item id children parent inside).markup,
      head ∈ Markup.headsOfAll inside.markup ∨ cx.StandsFor item picture head := by
  obtain ⟨own, hmarkup, hsource, huser⟩ : ∃ own : Head Style,
      (∀ inside, (cx.list item id children parent inside).markup =
        [Markup.wrap own inside.markup]) ∧ own.source = item.address ∧
      ∀ a ∈ own.before ++ own.after, a.1 ∈ userKeys →
        ∃ s, a.2 = .text s ∧ cx.Datum item picture a.1 s := by
    refine ⟨_, fun inside => rfl, rfl, fun a ha hkey => ?_⟩
    rw [List.append_nil] at ha
    cases hmode : cx.settings.mode with
    | jsx =>
      simp only [hmode, List.mem_cons, List.not_mem_nil, or_false] at ha
      rcases ha with rfl | rfl | rfl
      · exact ⟨_, rfl, .listId (.inl rfl) htag⟩
      · exact absurd hkey (by simp [userKeys])
      · exact absurd hkey (by simp [userKeys])
    | html =>
      simp only [hmode, List.mem_cons, List.not_mem_nil, or_false] at ha
      rcases ha with rfl | rfl | rfl
      · exact ⟨_, rfl, .listId (.inr rfl) htag⟩
      · exact absurd hkey (by simp [userKeys])
      · exact absurd hkey (by simp [userKeys])
  -- The start is the same whatever is inside, so it is sound as that of an empty list.
  have hsound : Fragment.IsSound cx.settings (cx.list item id children parent {}) :=
    list_isSound id .empty
  rw [Fragment.IsSound, hmarkup] at hsound
  have hown : cx.StandsFor item picture own :=
    ⟨hsource, by rw [htag]; rfl, (List.forall_mem_singleton.1 hsound).isSoundTag, huser⟩
  rw [hmarkup, Markup.headsOfAll_singleton, Markup.heads_wrap]
  exact List.forall_mem_cons.2 ⟨.inr hown, fun head hhead => .inl hhead⟩

theorem standsFor_canvas {id : String} (htag : item.tag = .canvas id) :
    ∀ head ∈ Markup.headsOfAll (canvas item id children parent).markup,
      cx.StandsFor item picture head := by
  have hsound := List.forall_mem_singleton.1
    (canvas_isSound cx.settings item id children parent)
  refine List.forall_mem_singleton.2 ⟨rfl, by rw [htag]; rfl, hsound.isSoundTag, ?_⟩
  rintro a ha -
  obtain rfl := List.mem_singleton.1 ha
  exact ⟨_, rfl, .canvasId htag⟩

theorem standsFor_text {content : TextContent} (hprompt : item.tag.isPrompt = false) :
    ∀ head ∈ Markup.headsOfAll (cx.text item content children parent).markup,
      cx.StandsFor item picture head := by
  have hhead (style : List Utility) : cx.StandsFor item picture
      (cx.head "p" item (.ofUtilities style)) :=
    standsFor_head hprompt (by decide) (List.forall_mem_nil _)
  unfold text
  rcases Segment.ofRuns content.runs with _ | ⟨only, _ | ⟨next, rest⟩⟩ <;>
    exact List.forall_mem_singleton.2 (hhead _)

theorem standsFor_artifact {artifact : Artifact} (htag : item.tag = .none)
    (hartifact : item.artifact = some artifact) :
    ∀ head ∈ Markup.headsOfAll (cx.artifact item artifact children parent).markup,
      cx.StandsFor item picture head := by
  have hprompt : item.tag.isPrompt = false := by rw [htag]; rfl
  cases artifact with
  | remote url =>
    have hshown : item.shownSource picture = some (.remote url) := by
      rw [Item.shownSource, htag, hartifact]
    rw [artifact, Fragment.ofMarkup, Markup.headsOfAll_singleton]
    exact standsFor_picture hprompt fun s hs => hshown.trans hs
  | svg markup =>
    have hhead : cx.StandsFor item picture
        (cx.head "div" item (.ofUtilities (base item children parent))) :=
      standsFor_head hprompt (by decide) (List.forall_mem_nil _)
    refine List.forall_mem_singleton.2 ⟨rfl, hprompt, ⟨hhead.sound.name, ?_⟩, ?_⟩
    · refine List.forall_mem_cons.2 ⟨⟨(by decide : Markup.isName "data-svg-wrapper".toList = true),
        nofun⟩, hhead.sound.attributes⟩
    · intro a ha hkey
      rcases List.mem_cons.1 ha with rfl | ha
      · exact absurd hkey (by decide)
      · exact hhead.userData a ha hkey

theorem standsFor_framed (hprompt : item.tag.isPrompt = false) :
    ∀ head ∈ Markup.headsOfAll (cx.framed item children parent picture inside).markup,
      head ∈ Markup.headsOfAll inside.markup ∨ cx.StandsFor item picture head := by
  unfold framed
  dsimp only
  split_ifs
  · exact fun head hhead => .inl hhead
  · exact fun head hhead => .inl hhead
  · show ∀ head ∈ Markup.headsOfAll [Markup.wrap _ inside.markup], _
    rw [Markup.headsOfAll_singleton, Markup.heads_wrap]
    exact List.forall_mem_cons.2 ⟨.inr (standsFor_head hprompt (by decide) (plain_backdrop _)),
      fun head hhead => .inl hhead⟩

/-- **What is drawn for an item** are elements that stand for it, and what is inside. -/
theorem standsFor_drawn :
    ∀ head ∈ Markup.headsOfAll (cx.drawn item children parent picture inside).markup,
      head ∈ Markup.headsOfAll inside.markup ∨ cx.StandsFor item picture head := by
  have hown {f : Fragment} (h : ∀ head ∈ Markup.headsOfAll f.markup,
      cx.StandsFor item picture head) : ∀ head ∈ Markup.headsOfAll f.markup,
        head ∈ Markup.headsOfAll inside.markup ∨ cx.StandsFor item picture head :=
    fun head hhead => .inr (h head hhead)
  cases htag : item.tag with
  | ignore | prompt instruction =>
    simp only [drawn, htag]
    exact List.forall_mem_nil _
  | slot kind subtype id =>
    simp only [drawn, htag]
    exact hown (standsFor_slot htag)
  | list id =>
    simp only [drawn, htag]
    exact standsFor_list htag
  | canvas id =>
    simp only [drawn, htag]
    exact hown (standsFor_canvas htag)
  | static =>
    have hsource : item.shownSource picture = picture.1 := by rw [Item.shownSource, htag]
    simp only [drawn, htag, Markup.headsOfAll_singleton]
    exact fun head hhead => .inr
      (standsFor_picture (by rw [htag]; rfl) (fun s hs => hsource.trans hs) head hhead)
  | none =>
    have hprompt : item.tag.isPrompt = false := by rw [htag]; rfl
    cases hartifact : item.artifact with
    | some artifact =>
      simp only [drawn, htag, hartifact]
      exact hown (standsFor_artifact htag hartifact)
    | none =>
      have hsource : item.shownSource picture = picture.1 := by
        rw [Item.shownSource, htag, hartifact]
      have hbox (utilities : List Utility) (warnings : List String) :
          ∀ head ∈ Markup.headsOfAll
            ({ markup := [cx.box "div" item utilities], warnings } : Fragment).markup,
            cx.StandsFor item picture head :=
        List.forall_mem_singleton.2 (standsFor_head hprompt (by decide) (List.forall_mem_nil _))
      simp only [drawn, htag, hartifact]
      cases hkind : item.kind with
      | rectangle | ellipse =>
        dsimp only
        split_ifs
        · exact hown (List.forall_mem_nil _)
        · rw [Markup.headsOfAll_singleton]
          exact fun head hhead => .inr
            (standsFor_picture hprompt (fun s hs => hsource.trans hs) head hhead)
      | group | frame | «section» => exact standsFor_framed hprompt
      | text content => exact hown (standsFor_text hprompt)
      | line => exact hown (hbox _ [])
      | vector => exact hown (hbox _ _)
      | unsupported type => exact hown (List.forall_mem_nil _)

mutual

/-- Every element of a drawing stands for an item with its picture. -/
theorem Emits.exists_standsFor {pictures : Item → Picture → Prop} {parent : ParentContext}
    {n : Node} {f : Fragment}
    (h : cx.Emits pictures parent n f) :
    ∀ head ∈ Markup.headsOfAll f.markup, ∃ item ∈ n.items, ∃ picture,
      pictures item picture ∧ cx.StandsFor item picture head := by
  intro head hhead
  cases h with
  | closed hopen hpicture =>
    rcases standsFor_drawn head hhead with hinside | hown
    · cases hinside
    · exact ⟨_, List.mem_cons_self, _, hpicture, hown⟩
  | opened hopen hpicture hinside =>
    rcases standsFor_drawn head hhead with hhead | hown
    · obtain ⟨item, hitem, hstands⟩ := hinside.exists_standsFor head hhead
      exact ⟨item, List.mem_cons_of_mem _ hitem, hstands⟩
    · exact ⟨_, List.mem_cons_self, _, hpicture, hown⟩

theorem EmitsAll.exists_standsFor {pictures : Item → Picture → Prop} {parent : ParentContext}
    {nodes : List Node} {f : Fragment} (h : cx.EmitsAll pictures parent nodes f) :
    ∀ head ∈ Markup.headsOfAll f.markup, ∃ item ∈ Node.itemsOfAll nodes, ∃ picture,
      pictures item picture ∧ cx.StandsFor item picture head := by
  intro head hhead
  cases h with
  | nil => cases hhead
  | cons hfirst hrest =>
    rw [Fragment.append, Markup.headsOfAll_append] at hhead
    rcases List.mem_append.1 hhead with hhead | hhead
    · obtain ⟨item, hitem, hstands⟩ := hfirst.exists_standsFor head hhead
      exact ⟨item, List.mem_append_left _ hitem, hstands⟩
    · obtain ⟨item, hitem, hstands⟩ := hrest.exists_standsFor head hhead
      exact ⟨item, List.mem_append_right _ hitem, hstands⟩

end

/-! ## User data in start tags -/

theorem not_mem_userKeys_of_mem_styleAttributes {mode : Mode} {classes : List String}
    {declarations : List (String × String)} {a : Markup.Attribute}
    (h : a ∈ Markup.styleAttributes mode classes declarations) : a.1 ∉ userKeys := by
  have hkeys : "className" ∉ userKeys ∧ "class" ∉ userKeys ∧ "style" ∉ userKeys := by decide
  unfold Markup.styleAttributes at h
  rcases List.mem_append.1 h with h | h
  · split_ifs at h
    · cases h
    · obtain rfl := List.mem_singleton.1 h
      cases mode with
      | jsx => exact hkeys.1
      | html => exact hkeys.2.1
  · split_ifs at h
    · cases h
    · obtain rfl := List.mem_singleton.1 h
      exact hkeys.2.2

/-- What a reader finds of user data in a start tag at a depth: each value is what users wrote of
the item, with two more blanks behind every line feed for each element around. -/
def Exhibits (cx : EmitContext) (item : Item) (picture : Picture) (depth : Nat)
    (tag : Markup.Tag) : Prop :=
  ∀ key ∈ userKeys, ∀ written, (key.toList, written) ∈ tag.attributes →
    ∃ value original, written = .quoted value ∧ cx.Datum item picture key original ∧
      Markup.decode value = Markup.indentBy (2 * depth) original.toList ∧
      (Markup.decode value = original.toList ↔ depth = 0 ∨ '\n' ∉ original.toList)

theorem StandsFor.exhibits {head : Head Style} (h : cx.StandsFor item picture head) (depth : Nat) :
    cx.Exhibits item picture depth (Markup.Tag.indented^[depth]
      (Markup.tagOf cx.settings.mode head.tag
        ((head.map (Style.resolve cx.settings)).attributes cx.settings.mode))) := by
  intro key hkey written hwritten
  obtain ⟨a, ha, hname, rfl⟩ := Markup.exists_of_mem_attributes hwritten
  obtain rfl := String.toList_inj.1 hname
  have hown : a ∈ head.before ++ head.after := by
    rw [Head.attributes] at ha
    rcases List.mem_append.1 ha with ha | ha
    · rcases List.mem_append.1 ha with ha | ha
      · exact List.mem_append_left _ ha
      · exact absurd hkey (not_mem_userKeys_of_mem_styleAttributes ha)
    · exact List.mem_append_right _ ha
  obtain ⟨original, hvalue, hdatum⟩ := h.userData a hown hkey
  have hshows : (Markup.Written.indented^[depth] (a.written cx.settings.mode)).Shows depth original :=
    Markup.Written.shows_of_text hvalue depth
  obtain ⟨value, hquoted, hdecode⟩ := hshows
  refine ⟨value, original, hquoted, hdatum, hdecode, ?_⟩
  rw [hdecode, Markup.indentBy_eq_self_iff, Nat.mul_eq_zero, or_iff_right two_ne_zero]

end EmitContext

namespace NormalizeContext.ItemOf

variable {cx : NormalizeContext} {address : Address} {s : Scene} {item : Item}

theorem name_eq (h : cx.ItemOf address s item) : item.name = s.layer.name := by
  cases h <;> rfl

theorem tag_eq (h : cx.ItemOf address s item) (hprompt : item.tag.isPrompt = false) :
    item.tag = s.layer.tag.value := by
  have htag (origin : Origin) (h : (cx.item s address origin).value.tag.isPrompt = false) :
      (cx.item s address origin).value.tag = s.layer.tag.value := by
    simp only [NormalizeContext.item] at h ⊢
    cases hvalue : s.layer.tag.value with
    | prompt instruction =>
      rw [hvalue] at h
      cases h
    | none | ignore | slot | list | static | canvas => rfl
  cases h with
  | plain origin => exact htag origin hprompt
  | vector origin artifact => exact htag origin hprompt

end NormalizeContext.ItemOf

namespace Services

open EmitContext Node

/-- **User data in the attributes of the code.** Each element of the code stands for a layer of the
selection. Where it is written, a reader finds a new line and a start tag, and if no vector is
inlined, the reader gets there from the beginning. Every attribute for user data in the tag is a
quoted value. Read back, it is what users wrote, with two more blanks behind every line feed for
each element around; so it is the original iff the element is not inside another or there is no line
feed in the original. -/
theorem compile_userData (host : Host) (uploader : Uploader) (initial : Settings)
    (before : List Session.Step) (settings : Settings) (options : ConversionOptions)
    (selection : Selection) (conversion : Conversion) :
    let services := uploading host uploader
    let cx := services.emitting settings options
    let w := (Session.run services { settings := initial } before).2.world
    (services.compile settings options selection w).1 = .ok (.converted conversion) →
      ∃ c, services.IsCourse settings options selection w conversion c ∧
        ∀ (place : Markup.Context Style) m head, place.fill m = c.code.markup →
          m.head? = some head →
            ∃ item ∈ itemsOfAll c.nodes.value, ∃ s picture, head.source = item.address ∧
              selection.at? item.address = some s ∧ item.name = s.layer.name ∧
              item.tag = s.layer.tag.value ∧
              (c.trail host uploader w).Pictures (if options.isLive then .live else .code) item
                picture ∧
              ∃ front written back isSelfClosing tag,
                '\n' :: conversion.code.toList = front ++ written ++ back ∧
                Markup.Reads settings.mode .text written
                  (Markup.lineTokens place.depth ++ [Markup.startToken isSelfClosing tag]) .text ∧
                ((∀ i ∈ itemsOfAll c.nodes.value, ¬i.isInlined) →
                  ∃ ts, Markup.Reads settings.mode .text front ts .text) ∧
                cx.Exhibits item picture place.depth tag := by
  intro services cx w hcompile
  obtain ⟨c, hcourse, -⟩ := exists_course (Prod.ext hcompile rfl)
  have hw : w.Answered uploader := Session.answered host uploader initial before
  refine ⟨c, hcourse, fun place m head hplace hhead => ?_⟩
  obtain ⟨item, hitem, picture, hpicture, hstands⟩ :=
    (hcourse.emitsAll_code hw).exists_standsFor head
      (hplace ▸ Markup.head_mem_headsOfAll_fill place hhead)
  obtain ⟨s, hat, -, hof⟩ := NormalizeContext.normalize_exists_of_mem _ selection _ _
    (congrArg Prod.fst hcourse.normalized) c.nodes rfl item hitem
  refine ⟨item, hitem, s, picture, hstands.source, hat, hof.name_eq, hof.tag_eq hstands.shown,
    hpicture, ?_⟩
  obtain ⟨front, written, back, isSelfClosing, htext, hreads, hfront⟩ :=
    place.exists_reads_startTag (Style.resolve settings) hhead hstands.sound
  refine ⟨front, written, back, isSelfClosing, _, ?_, hreads, fun hinlined => hfront ?_,
    hstands.exhibits place.depth⟩
  · rw [hcourse.code_eq, EmitContext.write, ← hplace, ← htext]
    exact place.cons_document_fill settings.mode (Style.resolve settings) m
  · have hsound : c.code.IsSound settings :=
      cx.emitAll_gives .root _ hinlined _ _ (congrArg Prod.fst hcourse.coded)
    rw [hplace, Markup.mapAll_eq_map]
    exact List.forall_mem_map.2 hsound

/-- A card whose name holds characters of markup, and in it a list around a slot and an image. -/
theorem compile_userData_card :
    let hero : Scene := .node
      { id := "hero", name := "#slot:promo:a \"b\" & c", type := "FRAME", width := 40,
        height := 20 } []
    let photo : Scene := .node
      { id := "photo", name := "Photo", type := "RECTANGLE", width := 40, height := 20,
        fills := [.image {}] } []
    let rows : Scene := .node
      { id := "rows", name := "#list:first\nsecond", type := "FRAME", width := 80, height := 60 }
      [hero, photo]
    let card : Selection := [.node
      { id := "card", name := "<Card>\n's", type := "FRAME", width := 100, height := 100 } [rows]]
    let settings : Settings := { showLayerNames := true, uploads := { enabled := true } }
    let host : Host := ⟨fun _ => none, fun _ _ => .done "PHOTO".toUTF8.toList⟩
    let uploader : Uploader := fun _ request => .done ("https://cdn.test/?a&b=" ++ request.key)
    let services := uploading host uploader
    let cx := services.emitting settings {}
    ∃ conversion, (services.compile settings {} card {}).1 = .ok (.converted conversion) ∧
      ∃ c, services.IsCourse settings {} card {} conversion c ∧
        ∀ (place : Markup.Context Style) m head, place.fill m = c.code.markup →
          m.head? = some head →
            ∃ item ∈ itemsOfAll c.nodes.value, ∃ s picture, head.source = item.address ∧
              Selection.at? card item.address = some s ∧ item.name = s.layer.name ∧
              item.tag = s.layer.tag.value ∧
              (c.trail host uploader {}).Pictures .code item picture ∧
              ∃ front written back isSelfClosing tag,
                '\n' :: conversion.code.toList = front ++ written ++ back ∧
                Markup.Reads settings.mode .text written
                  (Markup.lineTokens place.depth ++ [Markup.startToken isSelfClosing tag]) .text ∧
                ((∀ i ∈ itemsOfAll c.nodes.value, ¬i.isInlined) →
                  ∃ ts, Markup.Reads settings.mode .text front ts .text) ∧
                cx.Exhibits item picture place.depth tag := by
  intro hero photo rows card settings host uploader services cx
  have hcode : (codeOf (services.compile settings {} card {}).1).isSome = true := by decide +kernel
  obtain ⟨conversion, hconversion⟩ := exists_of_codeOf hcode
  exact ⟨conversion, hconversion,
    compile_userData host uploader {} [] settings {} card conversion hconversion⟩

/-- **A name of two lines is changed inside another element.** The second line is indented along
with the text of the element, so what is read back is not the name. -/
theorem compile_name_of_two_lines :
    let bar : Scene := .node
      { id := "bar", name := "Bar\nchart", type := "RECTANGLE", width := 40, height := 20 } []
    let card : Scene := .node
      { id := "card", name := "Card", type := "FRAME", width := 96, height := 80 } [bar]
    let services := uploading ⟨fun _ => none, fun _ _ => .failed⟩ fun _ _ => .failed
    let written := "Bar\n  chart"
    (services.compile { showLayerNames := true } {} [card] {}).1 = .ok (.converted {
      code :=
        "<div data-layer=\"Card\" className=\"w-24 h-20 relative\">\n" ++
          "  <div data-layer=\"" ++ written ++
          "\" className=\"absolute left-0 top-0 w-10 h-5\" />\n</div>"
      preview := ⟨96, 80,
        "<div class=\"w-24 h-20 relative\">\n" ++
          "  <div class=\"absolute left-0 top-0 w-10 h-5\"></div>\n</div>"⟩
      warnings := []
      colors := []
      textStyles := []
      trigger := none }) ∧
    Markup.decode written.toList ≠ bar.layer.name.toList := by
  decide +kernel

end Services

end Artboard
