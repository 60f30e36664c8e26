import Artboard.Proofs.Conversion.Courses
import Artboard.Proofs.Conversion.Reports
import Artboard.Proofs.Style.Colors
import Artboard.Proofs.Style.Segments

/-!
# Reports of colours

The report of a conversion is read off the nodes, and the classes of its code come from what is
drawn for them. Both agree (`Services.compile_colors`): whatever an element of the code shows in a
colour is a colour of the item that it stands for (`EmitContext.colors_drawn_subset`), so its class
is in the report. Of colours with one class the report keeps the first, so its entries are told
apart by their classes (`ColorEntry.nodup_firstOnly`), and none is kept that an earlier colour
would have stood for (`ColorEntry.mem_firstOnly`).
-/

namespace Artboard

/-! ## Styles of markup -/

namespace Markup

variable {σ : Type}

mutual

/-- The styles of all elements. -/
def styles : Markup σ → List σ
  | .comment _ => []
  | .leaf head content => head.style :: content.styles
  | .parent head children => head.style :: stylesOfAll children

def stylesOfAll : List (Markup σ) → List σ
  | [] => []
  | m :: rest => m.styles ++ stylesOfAll rest

end

theorem stylesOfAll_append (markup others : List (Markup σ)) :
    stylesOfAll (markup ++ others) = stylesOfAll markup ++ stylesOfAll others := by
  induction markup with
  | nil => rfl
  | cons m rest ih => rw [List.cons_append, stylesOfAll, stylesOfAll, ih, List.append_assoc]

mutual

/-- The styles are those of the elements, whatever is around them. -/
theorem map_style_elements (around : List σ) (m : Markup σ) :
    (m.elements around).map (·.style) = m.styles := by
  match m with
  | .comment _ => rfl
  | .leaf head content => simp [elements, styles, Function.comp_def]
  | .parent head children =>
    rw [elements, styles, List.map_cons, map_style_elementsOfAll _ children]

theorem map_style_elementsOfAll (around : List σ) (markup : List (Markup σ)) :
    (elementsOfAll around markup).map (·.style) = stylesOfAll markup := by
  match markup with
  | [] => rfl
  | m :: rest =>
    rw [elementsOfAll, stylesOfAll, List.map_append, map_style_elements around m,
      map_style_elementsOfAll around rest]

end

end Markup

/-! ## Colours of items -/

namespace Item

variable {i : Item} {fill : SolidFill}

/-- What an item has in a colour. -/
inductive Uses (i : Item) : SolidFill → Prop
  | fill {fill : SolidFill} (hmem : .solid fill ∈ i.fills) : Uses i fill
  | stroke {fill : SolidFill} (hmem : .solid fill ∈ i.strokes) : Uses i fill
  | stop {g : LinearGradient} {stop : GradientStop} (hmem : .gradient g ∈ i.fills ++ i.strokes)
      (hstop : stop ∈ g.stops) : Uses i stop.fill
  | run {content : TextContent} {run : TextRun} {fill : SolidFill}
      (hkind : i.kind = .text content) (hrun : run ∈ content.runs)
      (hcolor : run.style.color = some fill) : Uses i fill

theorem uses_iff : i.Uses fill ↔
    fill ∈ (i.fills ++ i.strokes).flatMap Fill.colors ∨
      ∃ content, i.kind = .text content ∧ fill ∈ content.colors := by
  constructor
  · rintro (hmem | hmem | ⟨hmem, hstop⟩ | ⟨hkind, hrun, hcolor⟩)
    · exact .inl (List.mem_flatMap.2 ⟨_, List.mem_append_left _ hmem, List.mem_cons_self⟩)
    · exact .inl (List.mem_flatMap.2 ⟨_, List.mem_append_right _ hmem, List.mem_cons_self⟩)
    · exact .inl (List.mem_flatMap.2 ⟨_, hmem, List.mem_map_of_mem hstop⟩)
    · exact .inr ⟨_, hkind, List.mem_filterMap.2 ⟨_, hrun, hcolor⟩⟩
  · rintro (h | ⟨content, hkind, h⟩)
    · obtain ⟨paint, hpaint, h⟩ := List.mem_flatMap.1 h
      cases paint with
      | solid other =>
        obtain rfl := List.mem_singleton.1 h
        exact (List.mem_append.1 hpaint).elim .fill .stroke
      | image hash => cases h
      | gradient g =>
        obtain ⟨stop, hstop, rfl⟩ := List.mem_map.1 h
        exact .stop hpaint hstop
    · obtain ⟨run, hrun, hcolor⟩ := List.mem_filterMap.1 h
      exact .run hkind hrun hcolor

/-- **The colours of an item** are those of its fills, strokes and texts, unless it is ignored or an
instruction. -/
theorem mem_colors_iff : fill ∈ i.colors ↔ i.tag.isSuppressed = false ∧ i.Uses fill := by
  rw [uses_iff, colors]
  cases i.tag.isSuppressed with
  | true => simp
  | false => cases i.kind <;> simp [List.flatMap_append, or_assoc]

end Item

/-! ## Colours of drawings -/

/-- The colours that the elements of a drawing show. -/
def Fragment.colors (f : Fragment) : List SolidFill :=
  (Markup.stylesOfAll f.markup).flatMap fun style => Style.colors style.utilities

namespace Fragment

variable {f g : Fragment}

theorem colors_append : (f.append g).colors = f.colors ++ g.colors := by
  rw [colors, append, Markup.stylesOfAll_append, List.flatMap_append]
  rfl

/-- A single element without elements inside. -/
theorem colors_leaf {head : Markup.Head Style} {content : Markup.Content Style}
    {warnings : List String} {textStyles : List TextStyle} :
    colors { markup := [.leaf head content], warnings, textStyles } =
      Style.colors head.style.utilities ++
        content.styles.flatMap fun style => Style.colors style.utilities := by
  simp [colors, Markup.stylesOfAll, Markup.styles]

theorem colors_around (head : Markup.Head Style) (inside : Fragment) :
    (EmitContext.around head inside).colors =
      Style.colors head.style.utilities ++ inside.colors := by
  unfold EmitContext.around
  dsimp only
  split_ifs with h
  · rw [List.isEmpty_iff] at h
    rw [colors_leaf, colors, h]
    rfl
  · simp [colors, Markup.stylesOfAll, Markup.styles]

end Fragment

namespace EmitContext

open Pass

variable {cx : EmitContext} {item : Item} {children : List Node} {parent : ParentContext}
  {inside : Fragment} {picture : Picture}

theorem colors_base : Style.colors (base item children parent) = [] := by simp [base]

theorem colors_backdrop (source : Option ImageSource) :
    Style.colors (backdrop source).utilities = [] := by
  rcases source with _ | _ | _ | _ <;> rfl

theorem colors_containerUtilities :
    Style.colors (containerUtilities item children parent) = Style.colors (Style.paint item) := by
  simp [containerUtilities, colors_base]

theorem colors_box (tag : String) (utilities : List Utility) (warnings : List String) :
    Fragment.colors { markup := [cx.box tag item utilities], warnings } = Style.colors utilities :=
  Fragment.colors_leaf.trans (List.append_nil _)

theorem colors_picture (utilities : List Utility) (source : Option ImageSource)
    (warnings : List String) :
    Fragment.colors { markup := [cx.picture item utilities source], warnings } =
      Style.colors utilities := by
  cases source with
  | none => exact colors_box "div" utilities warnings
  | some source => exact Fragment.colors_leaf.trans (List.append_nil _)

theorem colors_framed_subset :
    (cx.framed item children parent picture inside).colors ⊆
      Style.colors (Style.paint item) ++ inside.colors := by
  unfold framed
  dsimp only
  split_ifs
  · exact List.subset_append_right _ _
  · exact List.subset_append_right _ _
  · rw [Fragment.colors_around, head, Style.colors_append, colors_containerUtilities,
      colors_backdrop, List.append_nil]
    exact List.Subset.refl _

/-- A text shows the colours of its runs, for the whole text or for each segment. -/
theorem colors_text_subset (content : TextContent) :
    (cx.text item content children parent).colors ⊆ content.colors := by
  have hrun {s : Segment} (hs : s ∈ Segment.ofRuns content.runs) :
      s.style.color.toList ⊆ content.colors := by
    intro fill hfill
    obtain ⟨run, hrun, hstyle⟩ := Segment.exists_run_of_mem_ofRuns hs
    exact List.mem_filterMap.2 ⟨run, hrun, by rw [hstyle]; exact Option.mem_toList.1 hfill⟩
  have hspans (segments : List Segment)
      (h : ∀ s ∈ segments, s.style.color.toList ⊆ content.colors) :
      ((Markup.Content.spans (segments.map cx.span)).styles.flatMap fun style =>
        Style.colors style.utilities) ⊆ content.colors := by
    intro fill hfill
    simp only [Markup.Content.styles, List.mem_flatMap, List.mem_filterMap, List.mem_map] at hfill
    obtain ⟨_, ⟨_, ⟨s, hs, rfl⟩, hstyle⟩, hfill⟩ := hfill
    obtain rfl := Option.some.inj hstyle
    rw [Style.ofUtilities, Style.colors_run] at hfill
    exact h s hs hfill
  unfold text
  rcases hsegments : Segment.ofRuns content.runs with _ | ⟨only, _ | ⟨next, rest⟩⟩
  all_goals
    rw [hsegments] at hrun
    dsimp only
    rw [Fragment.colors_leaf, head, Style.ofUtilities]
    simp only [Style.colors_append, colors_base, Style.colors_alignment, List.nil_append]
  · exact hspans [] fun s hs => hrun hs
  · rw [Style.colors_run]
    simpa [Markup.Content.styles] using hrun List.mem_cons_self
  · exact hspans (only :: next :: rest) fun s hs => hrun hs

theorem colors_slot (kind : SlotKind) (subtype id : String) :
    (cx.slot item kind subtype id parent).colors = [] :=
  Fragment.colors_leaf.trans (by simp [Style.ofUtilities, Markup.Content.styles])

theorem colors_list (id : String) :
    (cx.list item id children parent inside).colors =
      Style.colors (Style.paint item) ++ inside.colors := by
  simp only [list, Fragment.colors_around, Style.ofUtilities, colors_containerUtilities]

theorem colors_artifact (artifact : Artifact) :
    (cx.artifact item artifact children parent).colors = [] := by
  cases artifact with
  | svg markup => exact Fragment.colors_leaf.trans (by simp [head, Style.ofUtilities, colors_base,
      Markup.Content.styles])
  | remote url => exact (colors_picture _ _ []).trans colors_base

/-- What an item is painted with is among its colours. -/
theorem colors_paint_subset (h : item.tag.isSuppressed = false) :
    Style.colors (Style.paint item) ⊆ item.colors := fun _ hfill =>
  Item.mem_colors_iff.2 ⟨h, Item.uses_iff.2 (.inl (Style.colors_paint_subset hfill))⟩

/-- What stands for an untagged item by its kind. -/
theorem colors_drawn_kind_subset (htag : item.tag = .none) (hartifact : item.artifact = none) :
    (cx.drawn item children parent picture inside).colors ⊆ item.colors ++ inside.colors := by
  have hpaint : Style.colors (Style.paint item) ⊆ item.colors :=
    colors_paint_subset (by rw [htag]; rfl)
  simp only [drawn, htag, hartifact]
  cases hkind : item.kind with
  | rectangle | ellipse =>
    dsimp only
    split_ifs
    · exact List.nil_subset _
    · rw [colors_picture, Style.colors_append, colors_base]
      exact List.subset_append_of_subset_left _ hpaint
  | group | frame | «section» =>
    refine List.Subset.trans colors_framed_subset (List.append_subset.2 ⟨?_, ?_⟩)
    · exact List.subset_append_of_subset_left _ hpaint
    · exact List.subset_append_right _ _
  | text content =>
    refine List.subset_append_of_subset_left _ fun fill hfill => ?_
    exact Item.mem_colors_iff.2 ⟨by rw [htag]; rfl,
      Item.uses_iff.2 (.inr ⟨content, hkind, colors_text_subset content hfill⟩)⟩
  | line =>
    refine List.subset_append_of_subset_left _ (List.Subset.trans ?_ hpaint)
    rw [line, Fragment.ofMarkup, colors_box, Style.colors_append, colors_base, Style.paint,
      Style.colors_append _ (Style.stroke item)]
    exact List.subset_append_right _ _
  | vector =>
    refine List.subset_append_of_subset_left _ (List.Subset.trans ?_ hpaint)
    rw [vector, colors_box, Style.colors_append, colors_base]
    exact List.Subset.refl _
  | unsupported type => exact List.nil_subset _

/-- **What stands for an item shows no colours but its own.** -/
theorem colors_drawn_subset :
    (cx.drawn item children parent picture inside).colors ⊆ item.colors ++ inside.colors := by
  have hnothing {f : Fragment} (h : f.colors = []) : f.colors ⊆ item.colors ++ inside.colors :=
    h ▸ List.nil_subset _
  cases htag : item.tag with
  | ignore | prompt instruction =>
    simp only [drawn, htag]
    exact hnothing rfl
  | slot kind subtype id =>
    simp only [drawn, htag]
    exact hnothing (colors_slot kind subtype id)
  | list id =>
    simp only [drawn, htag, colors_list]
    exact List.append_subset.2 ⟨List.subset_append_of_subset_left _
      (colors_paint_subset (by rw [htag]; rfl)), List.subset_append_right _ _⟩
  | canvas id =>
    simp only [drawn, htag]
    exact hnothing (Fragment.colors_leaf.trans
      (by simp [Style.ofUtilities, colors_base, Markup.Content.styles]))
  | static =>
    simp only [drawn, htag]
    exact hnothing ((colors_picture _ _ _).trans colors_base)
  | none =>
    cases hartifact : item.artifact with
    | some artifact =>
      simp only [drawn, htag, hartifact]
      exact hnothing (colors_artifact artifact)
    | none => exact colors_drawn_kind_subset htag hartifact

mutual

/-- The colours that the markup of a node shows are those of its items. -/
theorem emit_colors (cx : EmitContext) (parent : ParentContext) (n : Node) :
    Gives (cx.emit parent n) fun f => f.colors ⊆ n.items.flatMap Item.colors := by
  match n with
  | .node item children =>
    have hinside : Gives (cx.inside item children) fun f =>
        f.colors ⊆ (Node.itemsOfAll children).flatMap Item.colors := by
      unfold inside
      split_ifs
      · exact emitAll_colors cx (.inside item) children
      · exact .pure (List.nil_subset _)
    rw [emit_eq, Node.items, List.flatMap_cons]
    refine hinside.bind fun f hf => (Gives.trivial _).bind fun picture _ => .pure ?_
    refine List.Subset.trans colors_drawn_subset (List.append_subset.2 ⟨?_, ?_⟩)
    · exact List.subset_append_left _ _
    · exact List.subset_append_of_subset_right _ hf

theorem emitAll_colors (cx : EmitContext) (parent : ParentContext) (nodes : List Node) :
    Gives (cx.emitAll parent nodes) fun f =>
      f.colors ⊆ (Node.itemsOfAll nodes).flatMap Item.colors := by
  match nodes with
  | [] =>
    rw [emitAll_nil]
    exact .pure (List.nil_subset _)
  | n :: rest =>
    rw [emitAll_cons, Node.itemsOfAll, List.flatMap_append]
    refine (emit_colors cx parent n).bind fun first hfirst => ?_
    refine (emitAll_colors cx parent rest).bind fun others hothers => .pure ?_
    rw [Fragment.colors_append]
    exact List.append_subset.2 ⟨List.subset_append_of_subset_left _ hfirst,
      List.subset_append_of_subset_right _ hothers⟩

end

end EmitContext

namespace Services

open Markup (elementsOfAll)

variable {services : Services} {settings : Settings} {options : ConversionOptions}
  {selection : Selection} {conversion : Conversion} {w : World} {c : Course}

/-- What an element of the code shows in a colour is a colour of the nodes. -/
theorem IsCourse.mem_colors (h : services.IsCourse settings options selection w conversion c)
    {o : Markup.Occurrence Style} (ho : o ∈ elementsOfAll [] c.code.markup) {role : ColorRole}
    {fill : SolidFill} (hfill : .color role fill ∈ o.style.utilities) :
    fill ∈ (Node.itemsOfAll c.nodes.value).flatMap Item.colors := by
  refine EmitContext.emitAll_colors _ .root _ _ _ (congrArg Prod.fst h.coded) ?_
  refine List.mem_flatMap.2 ⟨o.style, ?_, Style.mem_colors_iff.2 ⟨role, hfill⟩⟩
  rw [← Markup.map_style_elementsOfAll []]
  exact List.mem_map_of_mem ho

theorem IsCourse.colors_eq (h : services.IsCourse settings options selection w conversion c) :
    conversion.colors = colorReport settings c.nodes.value := by
  obtain ⟨width, height, rfl⟩ := h.assembled
  rfl

/-- **The report of colours covers the code.** Whatever an element of the code shows in a colour,
its class is made of the role and of the colour part, and exactly one entry has this part as its
token. The entries are told apart by their tokens and are in order of their hexadecimal forms. Each
is the entry of a colour of a fill, a stroke or a run of text of a node that is neither ignored nor
an instruction, and no such colour of an earlier node or before it in its own node has the token. -/
theorem compile_colors (services : Services) (settings : Settings) (options : ConversionOptions)
    (selection : Selection) (w : World) (conversion : Conversion)
    (h : (services.compile settings options selection w).1 = .ok (.converted conversion)) :
    ∃ c, services.IsCourse settings options selection w conversion c ∧
      (∀ o ∈ elementsOfAll [] c.code.markup, ∀ role fill, .color role fill ∈ o.style.utilities →
        settings.classPrefix ++ (role.word ++ "-" ++ fill.text settings) ∈
            o.style.classes settings ∧
          ∃! entry, entry ∈ conversion.colors ∧ entry.token = fill.text settings) ∧
      (conversion.colors.map (·.token)).Nodup ∧
      conversion.colors.Pairwise (·.hex ≤ ·.hex) ∧
      ∀ entry ∈ conversion.colors, ∃ earlier item later before fill after,
        Node.itemsOfAll c.nodes.value = earlier ++ item :: later ∧
          item.tag.isSuppressed = false ∧ item.Uses fill ∧ entry = .ofFill settings fill ∧
          (∀ other ∈ earlier, other.tag.isSuppressed = false → ∀ fill, other.Uses fill →
            fill.text settings ≠ entry.token) ∧
          item.colors = before ++ fill :: after ∧
          ∀ fill ∈ before, fill.text settings ≠ entry.token := by
  obtain ⟨c, hcourse, -⟩ := exists_course (Prod.ext h rfl)
  have hnodup := nodup_tokens_colorReport settings c.nodes.value
  refine ⟨c, hcourse, fun o ho role fill hfill => ⟨Style.color_mem_classes hfill, ?_⟩, ?_⟩
  all_goals rw [hcourse.colors_eq]
  · have htoken : fill.text settings ∈ (colorReport settings c.nodes.value).map (·.token) :=
      mem_tokens_colorReport.2 (List.mem_map_of_mem (hcourse.mem_colors ho hfill))
    obtain ⟨entry, hentry, heq⟩ := List.mem_map.1 htoken
    refine ⟨entry, ⟨hentry, heq⟩, fun other ⟨hother, heq'⟩ => ?_⟩
    exact List.inj_on_of_nodup_map hnodup hother hentry (heq'.trans heq.symm)
  · refine ⟨hnodup, ColorEntry.pairwise_sortByHex _, fun entry hentry => ?_⟩
    obtain ⟨earlier, item, later, before, fill, after, hitems, hcolors, heq, hfirst⟩ :=
      exists_of_mem_colorReport hentry
    have hmem : fill ∈ item.colors := hcolors ▸ List.mem_append_right _ List.mem_cons_self
    obtain ⟨hshown, huses⟩ := Item.mem_colors_iff.1 hmem
    refine ⟨earlier, item, later, before, fill, after, hitems, hshown, huses, heq, ?_, hcolors, ?_⟩
    · intro other hother hkept fill' huses'
      exact hfirst fill' (List.mem_append_left _
        (List.mem_flatMap.2 ⟨other, hother, Item.mem_colors_iff.2 ⟨hkept, huses'⟩⟩))
    · exact fun fill' hfill' => hfirst fill' (List.mem_append_right _ hfill')

/-- A card with a gradient, two runs of text whose colours differ but have one class, and a border.
Its instruction has a colour that counts for nothing. -/
theorem compile_colors_card :
    let blue : Rgba := ⟨0, 0, 1, 1⟩
    let navy : Rgba := ⟨0, 0, 0.99, 1⟩
    let white : Rgba := ⟨1, 1, 1, 1⟩
    let red : Rgba := ⟨1, 0, 0, 1⟩
    let title : Scene := .node
      { id := "title", name := "Title", type := "TEXT", width := 90, height := 20,
        segments := [{ characters := "a", fills := [.solid { color := blue }] },
          { characters := "b", fills := [.solid { color := navy }] }] } []
    let note : Scene := .node
      { id := "note", name := "#prompt here", fills := [.solid { color := red }] } []
    let card : Selection := [.node
      { id := "card", name := "Card", type := "FRAME", width := 100, height := 50,
        fills := [.gradient { stops := [⟨0, blue, {}⟩, ⟨0.5, white, {}⟩, ⟨1, blue, {}⟩] }],
        strokes := [.solid { color := navy }], strokeWeight := 1 } [title, note]]
    let services := Services.uploading ⟨fun _ => none, fun _ _ => .failed⟩ fun _ _ => .failed
    let settings : Settings := {}
    ∃ conversion, (services.compile settings {} card {}).1 = .ok (.converted conversion) ∧
      ∃ c, services.IsCourse settings {} card {} conversion c ∧
        (∀ o ∈ elementsOfAll [] c.code.markup, ∀ role fill, .color role fill ∈ o.style.utilities →
          settings.classPrefix ++ (role.word ++ "-" ++ fill.text settings) ∈
              o.style.classes settings ∧
            ∃! entry, entry ∈ conversion.colors ∧ entry.token = fill.text settings) ∧
        (conversion.colors.map (·.token)).Nodup ∧
        conversion.colors.Pairwise (·.hex ≤ ·.hex) ∧
        ∀ entry ∈ conversion.colors, ∃ earlier item later before fill after,
          Node.itemsOfAll c.nodes.value = earlier ++ item :: later ∧
            item.tag.isSuppressed = false ∧ item.Uses fill ∧ entry = .ofFill settings fill ∧
            (∀ other ∈ earlier, other.tag.isSuppressed = false → ∀ fill, other.Uses fill →
              fill.text settings ≠ entry.token) ∧
            item.colors = before ++ fill :: after ∧
            ∀ fill ∈ before, fill.text settings ≠ entry.token := by
  intro blue navy white red title note card services settings
  have hcode : (codeOf (services.compile settings {} card {}).1).isSome = true := by decide +kernel
  obtain ⟨conversion, hconversion⟩ := exists_of_codeOf hcode
  exact ⟨conversion, hconversion,
    compile_colors services settings {} card {} conversion hconversion⟩

end Services

end Artboard
