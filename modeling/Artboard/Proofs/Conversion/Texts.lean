import Artboard.Proofs.Conversion.WellFormed
import Artboard.Proofs.Markup.Paragraphs
import Artboard.Proofs.Style.Positions
import Artboard.Proofs.Style.Segments

/-!
# Texts in the code

A text is written as a paragraph. Its segments are wrapped one by one, unless there is only one, and
their styles are reported. A reader gets back the text that the runs are made of, however the text
is segmented and escaped and wherever the paragraph stands, and finds for each reported style the
part of the paragraph that has it (`EmitContext.exists_reads_text`).
-/

namespace Artboard

open Markup (IsPart Reads Tag Token)

theorem Segment.wrapper_mem_wrapperNames (s : Segment) :
    s.wrapper.toList ∈ Markup.wrapperNames := by
  unfold wrapper
  split_ifs <;> decide

/-! ## Reported styles -/

/-- What reported styles are in a paragraph at a depth. A single one is a style of the whole
paragraph, whose tag has more classes; several are the styles of its parts, in order. -/
inductive TextStyle.AreIn (mode : Mode) (depth : Nat) (t : Tag) (inline : List Token) :
    List TextStyle → Prop
  | whole {entry : TextStyle} {classes : List String} (hclasses : t.ShowsClasses mode depth classes)
      (hsubset : entry.classes ⊆ classes)
      (htext : (Markup.inlineText? inline).map Markup.decode = some entry.text.toList) :
      AreIn mode depth t inline [entry]
  | parts {entries : List TextStyle} {parts : List (List Token)} (hlength : entries.length ≠ 1)
      (hinline : inline = parts.flatten)
      (hparts : List.Forall₂ (fun entry => IsPart mode depth entry.classes entry.text.toList)
        entries parts) :
      AreIn mode depth t inline entries

namespace EmitContext

variable {cx : EmitContext} {item : Item} {content : TextContent} {children : List Node}
  {parent : ParentContext}

/-! ## Paragraphs at places -/

/-- Text in an element of its own. -/
def paragraph (cx : EmitContext) (item : Item) (utilities : List Utility)
    (parts : List (Markup.Span Style)) : Markup Style :=
  .leaf (cx.head "p" item (.ofUtilities utilities)) (.spans parts)

/-- The tag of a paragraph at a depth, as it is read. -/
def paragraphTag (cx : EmitContext) (item : Item) (utilities : List Utility) (depth : Nat) : Tag :=
  Tag.indented^[depth] (Markup.tagOf cx.settings.mode "p"
    (((cx.head "p" item (.ofUtilities utilities)).map (Style.resolve cx.settings)).attributes
      cx.settings.mode))

/-- What is inside a paragraph at a depth, as it is read. -/
def inlineTokens (cx : EmitContext) (depth : Nat) (parts : List (Markup.Span Style)) : List Token :=
  Markup.indentTokens^[depth] (parts.flatMap fun s =>
    (s.map (Style.resolve cx.settings)).tokens cx.settings.mode)

theorem exists_reads_paragraph {utilities : List Utility} {parts : List (Markup.Span Style)}
    (hsound : ((cx.paragraph item utilities parts).map (Style.resolve cx.settings)).IsSound
      cx.settings.mode) (place : Markup.Context Style) :
    ∃ front written back, written = Markup.indent^[place.depth]
        (((cx.paragraph item utilities parts).map (Style.resolve cx.settings)).render
          cx.settings.mode) ∧
      '\n' :: (cx.write (place.fill (cx.paragraph item utilities parts))).toList =
        front ++ written ++ back ∧
      Reads cx.settings.mode .text written (Markup.lineTokens place.depth ++
        .opening (cx.paragraphTag item utilities place.depth) ::
          (cx.inlineTokens place.depth parts ++ [.closing "p".toList])) .text ∧
      ((∀ n ∈ Markup.mapAll (Style.resolve cx.settings)
          (place.fill (cx.paragraph item utilities parts)), n.IsSound cx.settings.mode) →
        ∃ ts, Reads cx.settings.mode .text front ts .text) := by
  obtain ⟨front, back, htext, hfront⟩ :=
    place.exists_renderAll_fill cx.settings.mode (Style.resolve cx.settings)
  have hreads := Markup.reads_indented_spans hsound place.depth
  rw [List.flatMap_map] at hreads
  refine ⟨front, _, back, rfl, ?_, hreads, hfront _⟩
  exact (place.cons_document_fill cx.settings.mode (Style.resolve cx.settings) _).trans (htext _)

/-- The name of the layer is in another attribute, so the classes are the only ones in theirs. -/
theorem showsClasses_paragraphTag (utilities : List Utility) (depth : Nat) :
    (cx.paragraphTag item utilities depth).ShowsClasses cx.settings.mode depth
      ((Style.ofUtilities utilities).classes cx.settings) := by
  have hname : ∀ a ∈ cx.layerName item, a.1 ≠ Markup.className cx.settings.mode := by
    unfold layerName
    split_ifs
    · refine List.forall_mem_singleton.2 ?_
      cases cx.settings.mode <;> simp [Markup.className]
    · exact List.forall_mem_nil _
  have hattributes : ((cx.head "p" item (.ofUtilities utilities)).map
      (Style.resolve cx.settings)).attributes cx.settings.mode =
        cx.layerName item ++ Markup.styleAttributes cx.settings.mode
          ((Style.ofUtilities utilities).classes cx.settings) [] := List.append_nil _
  rw [paragraphTag, hattributes]
  exact Markup.showsClasses_tagOf depth "p" hname _

theorem decode_inlineTokens {parts : List (Markup.Span Style)}
    (h : ∀ s ∈ parts, ∀ tag style, s.wrapper = some (tag, style) →
      tag.toList ∈ Markup.wrapperNames) (depth : Nat) :
    (Markup.inlineText? (cx.inlineTokens depth parts)).map Markup.decode =
      some (parts.flatMap (·.text.toList)) := by
  have hmapped : ∀ s ∈ parts.map (Markup.Span.map (Style.resolve cx.settings)),
      ∀ tag style, s.wrapper = some (tag, style) → tag.toList ∈ Markup.wrapperNames := by
    rw [List.forall_mem_map]
    intro s hs tag style hwrapper
    obtain ⟨⟨name, inner⟩, hinner, hpair⟩ := Option.map_eq_some_iff.1 hwrapper
    obtain ⟨rfl, -⟩ := Prod.mk.inj hpair
    exact h s hs _ inner hinner
  rw [inlineTokens, ← List.flatMap_map, Markup.Span.decode_inlineText hmapped, List.flatMap_map]
  rfl

/-! ## Texts -/

theorem inlineTokens_map_span (segments : List Segment) (depth : Nat) :
    cx.inlineTokens depth (segments.map cx.span) =
      (segments.map fun s => cx.inlineTokens depth [cx.span s]).flatten := by
  induction segments with
  | nil => rw [inlineTokens, Markup.indentTokens_iterate_eq]; rfl
  | cons s rest ih =>
    rw [List.map_cons, inlineTokens, List.flatMap_cons, Markup.indentTokens_iterate_append,
      ← inlineTokens, ih, List.map_cons, List.flatten_cons, inlineTokens, List.flatMap_singleton]

theorem isPart_span (s : Segment) (depth : Nat) :
    IsPart cx.settings.mode depth (cx.segmentStyle s).classes s.text.toList
      (cx.inlineTokens depth [cx.span s]) := by
  rw [inlineTokens, List.flatMap_singleton]
  exact Markup.Span.isPart (s := (cx.span s).map (Style.resolve cx.settings)) rfl
    s.wrapper_mem_wrapperNames rfl depth

theorem areIn_parts {segments : List Segment} (h : segments.length ≠ 1) (depth : Nat) (t : Tag) :
    TextStyle.AreIn cx.settings.mode depth t (cx.inlineTokens depth (segments.map cx.span))
      (segments.map cx.segmentStyle) := by
  refine .parts (by simpa using h) (inlineTokens_map_span segments depth) ?_
  rw [List.forall₂_map_left_iff, List.forall₂_map_right_iff, List.forall₂_same]
  exact fun s _ => isPart_span s depth

theorem decode_only (only : Segment) (depth : Nat) :
    (Markup.inlineText? (cx.inlineTokens depth [⟨none, only.text⟩])).map Markup.decode =
      some only.text.toList := by
  rw [decode_inlineTokens, List.flatMap_singleton]
  refine List.forall_mem_singleton.2 ?_
  rintro _ _ ⟨⟩

/-- A paragraph around a single segment has the classes of the segment. -/
theorem areIn_whole (only : Segment) (block : List Utility) (depth : Nat) :
    TextStyle.AreIn cx.settings.mode depth
      (cx.paragraphTag item (block ++ Style.run cx.settings only.style) depth)
      (cx.inlineTokens depth [⟨none, only.text⟩]) [cx.segmentStyle only] := by
  refine .whole (showsClasses_paragraphTag _ depth) (fun c hc => ?_) (decode_only only depth)
  obtain ⟨text, htext, hclass⟩ := ClassList.mem_ofTexts.1 hc
  exact ClassList.mem_ofTexts.2
    ⟨text, List.map_subset _ (List.subset_append_right _ _) htext, hclass⟩

/-- A text is a paragraph that holds the texts of its segments, with their styles in it. -/
theorem exists_text_eq (cx : EmitContext) (item : Item) (content : TextContent)
    (children : List Node) (parent : ParentContext) (depth : Nat) :
    ∃ utilities parts, (cx.text item content children parent).markup =
        [cx.paragraph item utilities parts] ∧
      (Markup.inlineText? (cx.inlineTokens depth parts)).map Markup.decode =
        some ((Segment.ofRuns content.runs).flatMap (·.text.toList)) ∧
      TextStyle.AreIn cx.settings.mode depth (cx.paragraphTag item utilities depth)
        (cx.inlineTokens depth parts) (cx.text item content children parent).textStyles := by
  have hdecode (segments : List Segment) :
      (Markup.inlineText? (cx.inlineTokens depth (segments.map cx.span))).map Markup.decode =
        some (segments.flatMap (·.text.toList)) := by
    rw [decode_inlineTokens, List.flatMap_map]
    · rfl
    · rw [List.forall_mem_map]
      rintro s - tag style ⟨⟩
      exact s.wrapper_mem_wrapperNames
  unfold text
  -- A single segment gives its style to the paragraph and has no element of its own.
  rcases Segment.ofRuns content.runs with _ | ⟨only, _ | ⟨next, rest⟩⟩
  · exact ⟨_, _, rfl, hdecode [], areIn_parts (by simp) depth _⟩
  · refine ⟨_, _, rfl, ?_, areIn_whole only _ depth⟩
    rw [decode_only, List.flatMap_singleton]
  · exact ⟨_, _, rfl, hdecode (only :: next :: rest), areIn_parts (by simp) depth _⟩

theorem textStyles_text (cx : EmitContext) (item : Item) (content : TextContent)
    (children : List Node) (parent : ParentContext) :
    (cx.text item content children parent).textStyles =
      (Segment.ofRuns content.runs).map cx.segmentStyle := by
  unfold text
  rcases Segment.ofRuns content.runs with _ | ⟨only, _ | ⟨next, rest⟩⟩ <;> rfl

/-- **The text of a paragraph survives.** Wherever a text is written, inside any elements, a reader
finds a new line and a paragraph, and gets there if the rest of the markup is sound. What stands in
the paragraph, without wrappers, with line breaks as line feeds and with references read, is what
the runs of the text hold, in order. Each segment is reported with its text and the classes of its
style, which its part of the paragraph has. -/
theorem exists_reads_text (cx : EmitContext) (item : Item) (content : TextContent)
    (children : List Node) (parent : ParentContext) (place : Markup.Context Style) :
    let f := cx.text item content children parent
    ∃ m, f.markup = [m] ∧ ∃ front written back t inline,
      written = Markup.indent^[place.depth]
        ((m.map (Style.resolve cx.settings)).render cx.settings.mode) ∧
      '\n' :: (cx.write (place.fill m)).toList = front ++ written ++ back ∧
      Reads cx.settings.mode .text written (Markup.lineTokens place.depth ++
        .opening t :: (inline ++ [.closing "p".toList])) .text ∧
      ((∀ n ∈ Markup.mapAll (Style.resolve cx.settings) (place.fill m),
          n.IsSound cx.settings.mode) →
        ∃ ts, Reads cx.settings.mode .text front ts .text) ∧
      t.name = "p".toList ∧
      (Markup.inlineText? inline).map Markup.decode =
        some (content.runs.flatMap (·.text.toList)) ∧
      f.textStyles = ((Segment.ofRuns content.runs).map fun s =>
        ⟨s.text, (Style.ofUtilities (Style.run cx.settings s.style)).classes cx.settings⟩) ∧
      TextStyle.AreIn cx.settings.mode place.depth t inline f.textStyles := by
  intro f
  obtain ⟨utilities, parts, hmarkup, htext, hstyles⟩ :=
    cx.exists_text_eq item content children parent place.depth
  have hsound := cx.text_isSound item content children parent
  rw [Fragment.IsSound, hmarkup, List.forall_mem_singleton] at hsound
  obtain ⟨front, written, back, hwritten, hwrite, hreads, hfront⟩ :=
    exists_reads_paragraph hsound place
  rw [Segment.flatMap_ofRuns] at htext
  exact ⟨_, hmarkup, front, written, back, _, _, hwritten, hwrite, hreads, hfront,
    Tag.name_indented_iterate .., htext, cx.textStyles_text item content children parent, hstyles⟩

end EmitContext

end Artboard
