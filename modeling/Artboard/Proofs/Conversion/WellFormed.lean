import Artboard.Conversion.Compile
import Artboard.Proofs.Conversion.Flattening
import Artboard.Proofs.Markup.Expressions
import Artboard.Proofs.Markup.Trees

/-!
# Conversions write well-formed markup

**Theorem (`compile_isWellFormed`).** If vectors are not embedded, the code and the preview of a
conversion are well formed, whatever names, texts, tags, addresses and settings hold.

Every element that is drawn has a tag of the program's own, attributes whose names are the program's
own, and declarations without quotes and braces (`Head.IsSound`). Everything else is a text, a value
or a comment, and so is escaped. The one exception is a vector that stands in the markup as it was
exported, and there is none if vectors are not embedded.
-/

namespace Artboard

namespace Markup

variable {settings : Settings} {mode : Mode}

/-! ## Styled trees -/

theorem Attribute.IsSound.text {name : String} (h : isName name.toList = true) (value : String) :
    Attribute.IsSound mode (name, .text value) := ⟨h, nofun⟩

theorem Attribute.IsSound.expr {name value : String} (h : isName name.toList = true)
    (hvalue : Plain value.toList) : Attribute.IsSound mode (name, .expr value) := by
  refine ⟨h, fun s hs _ => ?_⟩
  obtain rfl := AttrValue.expr.inj hs
  exact .of_plain hvalue

/-- The start of an element that is read back once its utilities are classes. -/
structure Head.IsSound (mode : Mode) (h : Head Style) : Prop where
  name : isName h.tag.toList = true
  before : ∀ a ∈ h.before, a.IsSound mode
  after : ∀ a ∈ h.after, a.IsSound mode
  declarations : ∀ d ∈ h.style.declarations, PlainDeclaration d

namespace Head.IsSound

variable {h : Head Style}

theorem resolve (hsound : h.IsSound settings.mode) :
    IsSoundTag settings.mode (h.map (Style.resolve settings)).tag
      ((h.map (Style.resolve settings)).attributes settings.mode) where
  name := hsound.name
  attributes := by
    simp only [Head.attributes, List.forall_mem_append]
    exact ⟨⟨hsound.before, isSound_styleAttributes _ _ hsound.declarations⟩, hsound.after⟩

/-- An element without content. -/
theorem isSound_leaf (hsound : h.IsSound settings.mode) :
    ((Markup.leaf h .empty).map (Style.resolve settings)).IsSound settings.mode :=
  IsSound.leaf hsound.resolve True.intro

end Head.IsSound

theorem mapAll_eq_map {σ τ : Type} (f : σ → τ) (markup : List (Markup σ)) :
    mapAll f markup = markup.map (map f) := by
  induction markup with
  | nil => rfl
  | cons m rest ih => rw [mapAll, ih, List.map_cons]

end Markup

open Markup (isName Plain Head)

/-- Whether a vector stands in the markup as it was exported. -/
def Item.isInlined (i : Item) : Bool :=
  match i.artifact with
  | some (.svg _) => true
  | _ => false

/-! ## Fragments -/

namespace Fragment

variable {settings : Settings} {f g : Fragment}

/-- Whether the markup is sound once its utilities are classes. -/
def IsSound (settings : Settings) (f : Fragment) : Prop :=
  ∀ m ∈ f.markup, (m.map (Style.resolve settings)).IsSound settings.mode

namespace IsSound

theorem empty {warnings : List String} : IsSound settings { warnings } := nofun

theorem append (hf : f.IsSound settings) (hg : g.IsSound settings) :
    (f.append g).IsSound settings :=
  List.forall_mem_append.2 ⟨hf, hg⟩

theorem single {m : Markup Style} {warnings : List String} {textStyles : List TextStyle}
    (h : (m.map (Style.resolve settings)).IsSound settings.mode) :
    IsSound settings { markup := [m], warnings, textStyles } :=
  List.forall_mem_singleton.2 h

end IsSound

end Fragment

namespace EmitContext

open Pass

variable {cx : EmitContext} {item : Item} {children : List Node} {parent : ParentContext}
  {inside : Fragment}

/-! ## Elements -/

theorem layerName_isSound (cx : EmitContext) (item : Item) :
    ∀ a ∈ cx.layerName item, a.IsSound cx.settings.mode := by
  unfold layerName
  split_ifs
  · exact List.forall_mem_singleton.2
      (Markup.Attribute.IsSound.text (by decide : isName "data-layer".toList = true) _)
  · exact List.forall_mem_nil _

theorem head_isSound {tag : String} {style : Style} (htag : isName tag.toList = true)
    (hstyle : ∀ d ∈ style.declarations, Markup.PlainDeclaration d) :
    (cx.head tag item style).IsSound cx.settings.mode :=
  ⟨htag, cx.layerName_isSound item, nofun, hstyle⟩

theorem isSound_box (utilities : List Utility) :
    ((cx.box "div" item utilities).map (Style.resolve cx.settings)).IsSound cx.settings.mode :=
  Head.IsSound.isSound_leaf (head_isSound (by decide) (List.forall_mem_nil _))

theorem isSound_picture (utilities : List Utility) (source : Option ImageSource) :
    ((cx.picture item utilities source).map (Style.resolve cx.settings)).IsSound
      cx.settings.mode := by
  cases source with
  | none => exact isSound_box utilities
  | some source =>
    have hhead : Head.IsSound cx.settings.mode
        { cx.head "img" item (.ofUtilities utilities) with after := [("src", .text source.url)] } :=
      ⟨(by decide : isName "img".toList = true), cx.layerName_isSound item,
        List.forall_mem_singleton.2 (Markup.Attribute.IsSound.text
          (by decide : isName "src".toList = true) _), nofun⟩
    exact hhead.isSound_leaf

theorem isSound_around {settings : Settings} {head : Head Style}
    (hhead : head.IsSound settings.mode) (hinside : inside.IsSound settings) :
    (around head inside).IsSound settings := by
  refine List.forall_mem_singleton.2 ?_
  split_ifs
  · exact hhead.isSound_leaf
  · refine .parent hhead.resolve ?_
    rw [Markup.mapAll_eq_map]
    exact List.forall_mem_map.2 hinside

/-! ## Kinds -/

theorem shape_gives (cx : EmitContext) (item : Item) (children : List Node)
    (parent : ParentContext) :
    Gives (cx.shape item children parent) (Fragment.IsSound cx.settings) := by
  rw [shape_eq]
  split_ifs
  · exact .pure .empty
  · exact (Gives.trivial _).bind fun _ _ => .pure (.single (isSound_picture _ _))
  · exact .pure (.single (isSound_box _))

theorem staticImage_gives (cx : EmitContext) (item : Item) (children : List Node)
    (parent : ParentContext) :
    Gives (cx.staticImage item children parent) (Fragment.IsSound cx.settings) := by
  rw [staticImage_eq]
  exact (Gives.trivial _).bind fun _ _ => .pure (.single (isSound_picture _ _))

theorem isName_wrapper (s : Segment) : isName s.wrapper.toList = true := by
  unfold Segment.wrapper
  split_ifs <;> decide

theorem text_isSound (cx : EmitContext) (item : Item) (content : TextContent)
    (children : List Node) (parent : ParentContext) :
    (cx.text item content children parent).IsSound cx.settings := by
  have hhead (utilities : List Utility) :
      (cx.head "p" item (.ofUtilities utilities)).IsSound cx.settings.mode :=
    head_isSound (by decide) (List.forall_mem_nil _)
  have hspans (segments : List Segment) :
      ((Markup.Content.spans (segments.map cx.span)).map (Style.resolve cx.settings)).IsSound
        cx.settings.mode := by
    simp only [Markup.Content.map, Markup.Content.IsSound, List.forall_mem_map]
    rintro s - tag style ⟨⟩
    exact ⟨isName_wrapper s, Markup.isSound_styleAttributes _ _ (List.forall_mem_nil _)⟩
  have honly (text : String) :
      ((Markup.Content.spans [⟨none, text⟩]).map (Style.resolve cx.settings)).IsSound
        cx.settings.mode := by
    refine List.forall_mem_singleton.2 ?_
    rintro _ _ ⟨⟩
  unfold text
  -- A single segment gives its style to the paragraph and has no element of its own.
  rcases Segment.ofRuns content.runs with _ | ⟨only, _ | ⟨next, rest⟩⟩
  · exact .single (.leaf (hhead _).resolve (hspans []))
  · exact .single (.leaf (hhead _).resolve (honly only.text))
  · exact .single (.leaf (hhead _).resolve (hspans (only :: next :: rest)))

/-- Bytes stand in a declaration, and an address among the classes. -/
theorem plain_backdrop (source : Option ImageSource) :
    ∀ d ∈ (backdrop source).declarations, Markup.PlainDeclaration d := by
  rcases source with _ | _ | bytes | _
  · exact nofun
  · exact nofun
  · refine List.forall_mem_singleton.2
      ⟨(by decide : Plain (Markup.camelCase "background-image".toList)), ?_⟩
    show Plain ("url(" ++ dataUri bytes .png ++ ")").toList
    rw [String.toList_append, String.toList_append]
    exact ((by decide : Plain "url(".toList).append (plain_dataUri bytes .png)).append (by decide)
  · exact nofun

theorem container_gives (hinside : inside.IsSound cx.settings) :
    Gives (cx.container item children parent inside) (Fragment.IsSound cx.settings) := by
  simp only [container_eq]
  split_ifs
  · exact .pure hinside
  all_goals
    refine (Gives.trivial _).bind fun image _ => ?_
    obtain ⟨source, warnings⟩ := image
    dsimp only
    split_ifs
    · exact .pure hinside
    · exact .pure (isSound_around (head_isSound (by decide) (plain_backdrop source)) hinside)

/-! ## Tags -/

theorem isName_slot (kind : SlotKind) :
    isName ("Slot" ++ kind.suffix).toList = true ∧
      isName (if kind = .generic then "slot-placeholder"
        else "slot-" ++ Text.asciiSmall kind.suffix).toList = true := by
  cases kind <;> decide

theorem slot_isSound (cx : EmitContext) (item : Item) (kind : SlotKind) (subtype id : String)
    (parent : ParentContext) : (cx.slot item kind subtype id parent).IsSound cx.settings := by
  refine .single (Head.IsSound.isSound_leaf ⟨?_, ?_, List.forall_mem_nil _, List.forall_mem_nil _⟩)
  · cases cx.settings.mode with
    | jsx => exact (isName_slot kind).1
    | html => exact (isName_slot kind).2
  · have hgeneric {mode : Mode} {name : String} (hname : isName name.toList = true) :
        ∀ a ∈ (if kind = .generic then [(name, .text subtype)] else [] : List Markup.Attribute),
          a.IsSound mode := by
      split_ifs
      · exact List.forall_mem_singleton.2 (Markup.Attribute.IsSound.text hname _)
      · exact List.forall_mem_nil _
    cases cx.settings.mode with
    | jsx =>
      simp only [List.cons_append, List.forall_mem_cons, List.forall_mem_append]
      exact ⟨.text (by decide) _, hgeneric (by decide),
        .expr (by decide) (Number.plain_short _),
        .expr (by decide) (Number.plain_short _), List.forall_mem_nil _⟩
    | html =>
      simp only [List.cons_append, List.forall_mem_cons, List.forall_mem_append]
      exact ⟨.text (by decide) _, hgeneric (by decide), .text (by decide) _,
        .text (by decide) _, List.forall_mem_nil _⟩

theorem list_isSound (id : String) (hinside : inside.IsSound cx.settings) :
    (cx.list item id children parent inside).IsSound cx.settings := by
  simp only [list]
  refine isSound_around ⟨?_, ?_, List.forall_mem_nil _, List.forall_mem_nil _⟩ hinside
  · cases cx.settings.mode with
    | jsx => exact (by decide : isName "List".toList = true)
    | html => exact (by decide : isName "list-container".toList = true)
  · cases cx.settings.mode with
    | jsx =>
      simp only [List.forall_mem_cons]
      exact ⟨.text (by decide) _, .text (by decide) _,
        .expr (by decide) (Number.plain_short _), List.forall_mem_nil _⟩
    | html =>
      simp only [List.forall_mem_cons]
      exact ⟨.text (by decide) _, .text (by decide) _,
        .text (by decide) _, List.forall_mem_nil _⟩

theorem canvas_isSound (settings : Settings) (item : Item) (id : String) (children : List Node)
    (parent : ParentContext) : (canvas item id children parent).IsSound settings :=
  .single (Head.IsSound.isSound_leaf ⟨(by decide : isName "canvas".toList = true),
    List.forall_mem_singleton.2 (.text (by decide) _), List.forall_mem_nil _,
    List.forall_mem_nil _⟩)

/-! ## Nodes -/

mutual

/-- The cases are those of `emit`. -/
theorem emit_gives (cx : EmitContext) (parent : ParentContext) (n : Node)
    (h : ∀ item ∈ n.items, ¬item.isInlined) :
    Gives (cx.emit parent n) (Fragment.IsSound cx.settings) := by
  match n with
  | .node item children =>
    obtain ⟨hitem, hchildren⟩ := List.forall_mem_cons.1 h
    have hinside := emitAll_gives cx (.inside item) children hchildren
    rw [emit_node]
    cases item.tag with
    | ignore => exact .pure .empty
    | prompt instruction => exact .pure (.single (.comment _))
    | slot kind subtype id => exact .pure (cx.slot_isSound item kind subtype id parent)
    | list id => exact hinside.bind fun _ hf => .pure (list_isSound id hf)
    | canvas id => exact .pure (canvas_isSound cx.settings item id children parent)
    | static => exact cx.staticImage_gives item children parent
    | none =>
      cases hartifact : item.artifact with
      | some artifact =>
        cases artifact with
        | svg markup => exact absurd (by rw [Item.isInlined, hartifact]) hitem
        | remote url => exact .pure (.single (isSound_picture _ _))
      | none =>
        cases item.kind with
        | rectangle | ellipse => exact cx.shape_gives item children parent
        | group | frame | «section» => exact hinside.bind fun _ hf => container_gives hf
        | text content => exact .pure (cx.text_isSound item content children parent)
        | line | vector => exact .pure (.single (isSound_box _))
        | unsupported type => exact .pure .empty

theorem emitAll_gives (cx : EmitContext) (parent : ParentContext) (nodes : List Node)
    (h : ∀ item ∈ Node.itemsOfAll nodes, ¬item.isInlined) :
    Gives (cx.emitAll parent nodes) (Fragment.IsSound cx.settings) := by
  match nodes with
  | [] =>
    rw [emitAll_nil]
    exact .pure .empty
  | n :: rest =>
    rw [Node.itemsOfAll, List.forall_mem_append] at h
    rw [emitAll_cons]
    exact (emit_gives cx parent n h.1).bind fun _ hfirst =>
      (emitAll_gives cx parent rest h.2).bind fun _ hothers => .pure (hfirst.append hothers)

end

/-- **What is drawn is well formed as long as no vector is inlined.** -/
theorem emitRoots_gives (cx : EmitContext) (roots : List Node)
    (h : ∀ item ∈ Node.itemsOfAll roots, ¬item.isInlined) :
    Gives (cx.emitRoots roots) fun fragment =>
      Markup.isWellFormed cx.settings.mode (cx.write fragment.markup).toList = true :=
  (cx.emitAll_gives .root roots h).mono fun fragment hsound => by
    rw [write, Markup.mapAll_eq_map]
    exact Markup.isWellFormed_document (List.forall_mem_map.2 hsound)

end EmitContext

/-! ## Previews -/

namespace Node

mutual

theorem items_withoutPrompts_sublist (n : Node) : n.withoutPrompts.items.Sublist n.items := by
  match n with
  | .node item children =>
    rw [withoutPrompts, items, items]
    exact (itemsOfAll_dropPrompts_sublist children).cons_cons item

theorem itemsOfAll_dropPrompts_sublist (nodes : List Node) :
    (itemsOfAll (dropPrompts nodes)).Sublist (itemsOfAll nodes) := by
  match nodes with
  | [] => exact .refl _
  | n :: rest =>
    have hrest := itemsOfAll_dropPrompts_sublist rest
    rw [dropPrompts, itemsOfAll]
    split_ifs
    · exact hrest.trans (List.sublist_append_right _ _)
    · rw [itemsOfAll]
      exact (items_withoutPrompts_sublist n).append hrest

end

end Node

open Pass

theorem Preview.ofNodes_gives (s : Settings) (host : Host) (assets : AssetSource)
    (roots : List Node) (h : ∀ item ∈ Node.itemsOfAll roots, ¬item.isInlined) :
    Gives (ofNodes s host assets roots) fun preview =>
      Markup.isWellFormed .html preview.content.toList = true := by
  have hkept : ∀ item ∈ Node.itemsOfAll (Node.dropPrompts roots), ¬item.isInlined :=
    fun item hitem => h item ((Node.itemsOfAll_dropPrompts_sublist roots).subset hitem)
  rw [ofNodes_eq]
  refine ((context s host assets).emitRoots_gives _ hkept).bind fun fragment hcontent => ?_
  dsimp only
  cases bounds roots <;> exact .pure hcontent

/-! ## Conversions -/

theorem NormalizeContext.normalize_inlines_nothing (cx : NormalizeContext)
    (hvectors : cx.settings.embedVectors = false) (selection : Selection) :
    Gives (cx.normalize selection) fun result => ∀ nodes, result = .ok nodes →
      ∀ item ∈ Node.itemsOfAll nodes.value, ¬item.isInlined := by
  refine (cx.normalize_exists_of_mem selection).mono fun result h nodes hnodes item hitem hsvg => ?_
  obtain ⟨s, -, -, hof⟩ := h nodes hnodes item hitem
  have hartifact : item.artifact ≠ none := by
    rintro hnone
    rw [Item.isInlined, hnone] at hsvg
    cases hsvg
  rw [(hof.of_artifact hartifact).1] at hvectors
  cases hvectors

namespace Services

variable {services : Services} {settings : Settings} {options : ConversionOptions}
  {selection : Selection}

theorem draw_gives {nodes : Warned (List Node)}
    (h : ∀ item ∈ Node.itemsOfAll nodes.value, ¬item.isInlined) :
    Gives (services.draw settings options nodes) fun conversion =>
      Markup.isWellFormed settings.mode conversion.code.toList = true ∧
        Markup.isWellFormed .html conversion.preview.content.toList = true :=
  ((services.emitting settings options).emitRoots_gives _ h).bind fun _ hcode =>
    (Preview.ofNodes_gives settings services.host services.assets _ h).bind fun _ hpreview =>
      .pure ⟨hcode, hpreview⟩

theorem run_gives (hvectors : settings.embedVectors = false) :
    Gives (services.run settings options selection) fun result =>
      ∀ conversion, result = .ok conversion →
        Markup.isWellFormed settings.mode conversion.code.toList = true ∧
          Markup.isWellFormed .html conversion.preview.content.toList = true := by
  rw [run_eq]
  refine ((services.normalizing settings).normalize_inlines_nothing hvectors selection).bind
    fun result hresult => ?_
  cases result with
  | error error => exact .pure nofun
  | ok nodes =>
    refine (draw_gives (hresult nodes rfl)).bind fun conversion hconversion => .pure ?_
    rintro _ ⟨⟩
    exact hconversion

/-- A conversion is what a run in a world without bitmaps gives. -/
theorem runIn_run_of_compile {w : World} {conversion : Conversion}
    (h : (services.compile settings options selection w).1 = .ok (.converted conversion)) :
    ((services.run settings options selection).runIn { w with bitmaps := [] }).1 =
      .ok (.ok conversion) := by
  unfold compile at h
  split_ifs at h
  · cases h
  · split at h
    case h_1 => cases h
    case h_2 => cases h
    case h_3 hrun =>
      cases h
      rw [hrun]

/-- **Code and previews are well formed.** Let vectors not be embedded. Whatever the selection, the
other settings, the design tool, the uploader and the world are: if there is a conversion, then a
reader of tags gets to the end of its code and of its preview, every start tag has its end tag in
proper nesting, and no character of a text or of a quoted value is one that belongs to markup. -/
theorem compile_isWellFormed (services : Services) (settings : Settings)
    (options : ConversionOptions) (selection : Selection) (w : World) (conversion : Conversion)
    (hvectors : settings.embedVectors = false)
    (h : (services.compile settings options selection w).1 = .ok (.converted conversion)) :
    Markup.isWellFormed settings.mode conversion.code.toList = true ∧
      Markup.isWellFormed .html conversion.preview.content.toList = true :=
  run_gives hvectors _ _ (runIn_run_of_compile h) conversion rfl

/-- A card whose names and texts end tags, values, comments and expressions wherever they can. -/
theorem compile_hostile_card :
    let title : Scene := .node
      { id := "1", name := "</div>\" \x7b", type := "TEXT", width := 90, height := 20,
        characters := "<b>\x7b--> */\x7d\"" } []
    let note : Scene := .node { id := "2", name := "#prompt a --> b */\x7d <p>" } []
    let slot : Scene := .node
      { id := "3", name := "#slot:\"><i>:\x7b\x7d", type := "FRAME", width := 90, height := 20 } []
    let icon : Scene := .node { id := "4", name := "Icon", type := "VECTOR" } []
    let card : Selection := [.node
      { id := "0", name := "\"/><!--", type := "FRAME", width := 100, height := 50 }
      [title, note, slot, icon]]
    let services := Services.uploading ⟨fun _ => none, fun _ _ => .failed⟩ fun _ _ => .failed
    let settings : Settings := { classPrefix := "\">\x7b", showLayerNames := true }
    settings.embedVectors = false ∧
      ∃ conversion, (services.compile settings {} card {}).1 = .ok (.converted conversion) ∧
        Markup.isWellFormed settings.mode conversion.code.toList = true ∧
        Markup.isWellFormed .html conversion.preview.content.toList = true := by
  intro title note slot icon card services settings
  have hconverted : (match (services.compile settings {} card {}).1 with
      | .ok (.converted _) => true
      | .ok .emptySelection | .error _ => false) = true := by decide +kernel
  refine ⟨rfl, ?_⟩
  rcases hresult : (services.compile settings {} card {}).1 with _ | _ | conversion
  · simp [hresult] at hconverted
  · simp [hresult] at hconverted
  · exact ⟨conversion, rfl, compile_isWellFormed _ _ _ _ _ _ rfl hresult⟩

end Services

end Artboard
