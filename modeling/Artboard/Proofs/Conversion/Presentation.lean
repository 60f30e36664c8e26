import Artboard.Proofs.Conversion.Lockstep
import Artboard.Proofs.Conversion.Results
import Artboard.Proofs.Conversion.Stages

/-!
# Settings of presentation

Three settings say how code is presented: the flavour of the markup, the class prefix, and whether
layer names are shown. Two conversions whose settings differ in nothing else run in step. They ask
for the same exports and uploads, and what they give differs in nothing but the code and the prefix
of the classes of text styles (`Services.compile_presented`).

Normalization, the preview and the colours do not look at these settings at all, so only drawing the
code has to be followed on both sides.
-/

namespace Artboard

open Pass

/-! ## Presentations -/

/-- How code is presented. -/
structure Presentation where
  mode : Mode
  classPrefix : String
  showLayerNames : Bool
deriving Repr, DecidableEq

/-- The settings with another presentation. -/
def Settings.presented (s : Settings) (p : Presentation) : Settings :=
  { s with mode := p.mode, classPrefix := p.classPrefix, showLayerNames := p.showLayerNames }

/-- A text style with a prefix in front of every class. -/
def TextStyle.prefixed (classPrefix : String) (t : TextStyle) : TextStyle :=
  { t with classes := t.classes.map (classPrefix ++ ·) }

/-- Text styles that are the same but for the prefixes of their classes. -/
def TextStyle.AlikeBut (p q : Presentation) (styles styles' : List TextStyle) : Prop :=
  ∃ bare : List TextStyle, styles = bare.map (prefixed p.classPrefix) ∧
    styles' = bare.map (prefixed q.classPrefix)

namespace ClassList

/-- The class prefix does not decide which classes are kept. -/
theorem ofTexts_eq_map (classPrefix : String) (texts : List String) :
    ofTexts classPrefix texts = (ofTexts "" texts).map (classPrefix ++ ·) := by
  have hadd (classes : List String) (text : String) :
      add classPrefix (classes.map (classPrefix ++ ·)) text =
        (add "" classes text).map (classPrefix ++ ·) := by
    have hmem : (classes.map (classPrefix ++ ·)).contains (classPrefix ++ text) =
        classes.contains text := by
      rw [Bool.eq_iff_iff, List.contains_iff_mem, List.contains_iff_mem]
      exact List.mem_map_of_injective fun _ _ => String.append_right_inj classPrefix |>.1
    unfold add
    split_ifs with hempty
    · rfl
    · simp only [hmem, String.empty_append]
      split_ifs
      · rfl
      · rw [List.map_append, List.map_singleton]
  have hfoldl (classes : List String) :
      texts.foldl (add classPrefix) (classes.map (classPrefix ++ ·)) =
        (texts.foldl (add "") classes).map (classPrefix ++ ·) := by
    induction texts generalizing classes with
    | nil => rfl
    | cons text rest ih => rw [List.foldl_cons, List.foldl_cons, hadd, ih]
  exact hfoldl []

end ClassList

/-! ## Fragments -/

/-- Fragments that differ in nothing but their markup and the prefixes of classes. -/
structure Fragment.AlikeBut (p q : Presentation) (f g : Fragment) : Prop where
  warnings : g.warnings = f.warnings
  textStyles : TextStyle.AlikeBut p q f.textStyles g.textStyles

namespace Fragment.AlikeBut

variable {p q : Presentation} {f g f' g' : Fragment}

/-- Without text styles only the warnings count. -/
theorem silent {markup markup' : List (Markup Style)} (warnings : List String) :
    AlikeBut p q { markup := markup, warnings } { markup := markup', warnings } :=
  ⟨rfl, [], rfl, rfl⟩

theorem append (h : f.AlikeBut p q g) (h' : f'.AlikeBut p q g') :
    (f.append f').AlikeBut p q (g.append g') := by
  obtain ⟨hwarnings, bare, hf, hg⟩ := h
  obtain ⟨hwarnings', bare', hf', hg'⟩ := h'
  refine ⟨congrArg₂ (· ++ ·) hwarnings hwarnings', bare ++ bare', ?_, ?_⟩
  · rw [List.map_append, ← hf, ← hf']
    rfl
  · rw [List.map_append, ← hg, ← hg']
    rfl

theorem warn (h : f.AlikeBut p q g) (warnings : List String) :
    AlikeBut p q { f with warnings := f.warnings ++ warnings }
      { g with warnings := g.warnings ++ warnings } :=
  ⟨congrArg (· ++ warnings) h.warnings, h.textStyles⟩

theorem around (h : f.AlikeBut p q g) (head head' : Markup.Head Style) :
    (EmitContext.around head f).AlikeBut p q (EmitContext.around head' g) :=
  ⟨h.warnings, h.textStyles⟩

end Fragment.AlikeBut

/-! ## Drawing -/

namespace EmitContext

variable {p q : Presentation} {s : Settings} {host : Host} {assets : AssetSource}
  {images : ImageMode} {item : Item} {children : List Node} {parent : ParentContext}
  {inside inside' : Fragment}

theorem segmentStyle_presented (segment : Segment) :
    segmentStyle ⟨s.presented p, host, assets, images⟩ segment =
      .prefixed p.classPrefix ⟨segment.text,
        ClassList.ofTexts "" ((Style.run s segment.style).map (Utility.text s))⟩ :=
  congrArg (TextStyle.mk segment.text) (ClassList.ofTexts_eq_map p.classPrefix _)

theorem text_presented (content : TextContent) :
    (text ⟨s.presented p, host, assets, images⟩ item content children parent).AlikeBut p q
      (text ⟨s.presented q, host, assets, images⟩ item content children parent) := by
  refine ⟨rfl, (Segment.ofRuns content.runs).map fun segment => ⟨segment.text,
    ClassList.ofTexts "" ((Style.run s segment.style).map (Utility.text s))⟩, ?_, ?_⟩
  all_goals
    rw [List.map_map]
    exact List.map_congr_left fun segment _ => segmentStyle_presented segment

theorem framed_presented (picture : Picture) (h : inside.AlikeBut p q inside') :
    (framed ⟨s.presented p, host, assets, images⟩ item children parent picture inside).AlikeBut p q
      (framed ⟨s.presented q, host, assets, images⟩ item children parent picture inside') := by
  have hwarned := h.warn picture.2
  have hframed := hwarned.around
  unfold framed
  dsimp only
  split_ifs
  · exact h
  · exact hwarned
  · exact ⟨hwarned.warnings, hwarned.textStyles⟩
  · exact ⟨hwarned.warnings, hwarned.textStyles⟩
  · exact hframed _ _

theorem drawn_presented (picture : Picture) (h : inside.AlikeBut p q inside') :
    (drawn ⟨s.presented p, host, assets, images⟩ item children parent picture inside).AlikeBut p q
      (drawn ⟨s.presented q, host, assets, images⟩ item children parent picture inside') := by
  unfold drawn
  cases item.tag with
  | ignore | prompt instruction | slot kind subtype id | canvas id | static => exact .silent _
  | list id => exact h.around _ _
  | none =>
    dsimp only
    cases item.artifact with
    | some artifact => cases artifact <;> exact .silent _
    | none =>
      cases item.kind with
      | rectangle | ellipse =>
        dsimp only
        split_ifs <;> exact .silent _
      | group | frame | «section» => exact framed_presented picture h
      | text content =>
        exact text_presented content
      | line | vector | unsupported type => exact .silent _

theorem pictured_presented (item : Item) :
    pictured ⟨s.presented p, host, assets, images⟩ item =
      pictured ⟨s.presented q, host, assets, images⟩ item := rfl

mutual

/-- A node is drawn in step under both presentations, stage by stage. -/
theorem emit_presented (parent : ParentContext) (n : Node) :
    InStep Eq Eq (Fragment.AlikeBut p q) (emit ⟨s.presented p, host, assets, images⟩ parent n)
      (emit ⟨s.presented q, host, assets, images⟩ parent n) := by
  match n with
  | .node item children =>
    have hinside : InStep Eq Eq (Fragment.AlikeBut p q)
        (inside ⟨s.presented p, host, assets, images⟩ item children)
        (inside ⟨s.presented q, host, assets, images⟩ item children) := by
      unfold inside
      split_ifs
      · exact emitAll_presented (.inside item) children
      · exact .pure (.silent [])
    rw [emit_eq, emit_eq, pictured_presented (q := q)]
    refine hinside.bind fun f g hfg => ?_
    refine (lockstep_iff_inStep.1 (.refl _)).bind fun picture _ hpicture => ?_
    subst hpicture
    exact .pure (drawn_presented picture hfg)

theorem emitAll_presented (parent : ParentContext) (nodes : List Node) :
    InStep Eq Eq (Fragment.AlikeBut p q)
      (emitAll ⟨s.presented p, host, assets, images⟩ parent nodes)
      (emitAll ⟨s.presented q, host, assets, images⟩ parent nodes) := by
  match nodes with
  | [] => exact .pure (.silent [])
  | n :: rest =>
    rw [emitAll_cons, emitAll_cons]
    exact (emit_presented parent n).bind fun _ _ hf =>
      (emitAll_presented parent rest).bind fun _ _ hg => .pure (hf.append hg)

end

end EmitContext

/-! ## Conversions -/

/-- Nodes do not depend on how their code is presented. -/
theorem NormalizeContext.normalize_presented (s : Settings) (p q : Presentation) (host : Host)
    (assets : AssetSource) (selection : Selection) :
    normalize ⟨s.presented p, host, assets⟩ selection =
      normalize ⟨s.presented q, host, assets⟩ selection := by
  have hnormalize : normalize ⟨s.presented p, host, assets⟩ =
      normalize ⟨s.presented q, host, assets⟩ := normalize_congr rfl rfl
  rw [hnormalize]

/-- Conversions that differ in nothing but their code and the prefixes of classes. -/
structure Conversion.AlikeBut (p q : Presentation) (c d : Conversion) : Prop where
  preview : d.preview = c.preview
  warnings : d.warnings = c.warnings
  colors : d.colors = c.colors
  textStyles : TextStyle.AlikeBut p q c.textStyles d.textStyles
  trigger : d.trigger = c.trigger

/-- The same error, nothing selected on both sides, or conversions alike. -/
inductive Outcome.AlikeBut (p q : Presentation) :
    Except ConversionError Outcome → Except ConversionError Outcome → Prop
  | error (error : ConversionError) : AlikeBut p q (.error error) (.error error)
  | empty : AlikeBut p q (.ok .emptySelection) (.ok .emptySelection)
  | converted {c d : Conversion} (h : c.AlikeBut p q d) :
      AlikeBut p q (.ok (.converted c)) (.ok (.converted d))

namespace Services

variable {p q : Presentation} (services : Services) (s : Settings) (options : ConversionOptions)

theorem draw_presented (nodes : Warned (List Node)) :
    InStep Eq Eq (Conversion.AlikeBut p q) (services.draw (s.presented p) options nodes)
      (services.draw (s.presented q) options nodes) := by
  rw [draw_eq, draw_eq]
  refine (EmitContext.emitAll_presented .root nodes.value).bind fun code code' hcode => ?_
  have hpreview : Preview.ofNodes (s.presented p) services.host services.assets nodes.value =
      Preview.ofNodes (s.presented q) services.host services.assets nodes.value := rfl
  rw [hpreview]
  refine (lockstep_iff_inStep.1 (.refl _)).bind fun preview _ hsame => ?_
  subst hsame
  exact .pure ⟨rfl, by rw [hcode.warnings], rfl, hcode.textStyles, rfl⟩

/-- **Presentation shows in the code alone.** Take two settings that differ in nothing but the
flavour of the markup, the class prefix and whether layer names are shown. Whatever the selection,
the design tool, the source of assets and the world are, both conversions leave the same world, with
the same exports and uploads, and end with the same error or with conversions of the same preview,
warnings and colours. Their text styles have the same texts, and the same classes behind the
prefix of each. -/
theorem compile_presented (selection : Selection) (w : World) :
    let result := services.compile (s.presented p) options selection w
    let result' := services.compile (s.presented q) options selection w
    result'.2 = result.2 ∧ Outcome.AlikeBut p q result.1 result'.1 := by
  have hnormalize : (services.normalizing (s.presented q)).normalize selection =
      (services.normalizing (s.presented p)).normalize selection :=
    NormalizeContext.normalize_presented ..
  unfold compile
  split_ifs with hempty
  · exact ⟨rfl, .empty⟩
  · simp only [run_eq, hnormalize, runIn_bind]
    rcases ((services.normalizing (s.presented p)).normalize selection).runIn
      { w with bitmaps := [] } with ⟨panic | error | nodes, v⟩
    · exact ⟨rfl, .error _⟩
    · exact ⟨rfl, .error _⟩
    · have hdraw := draw_presented (p := p) (q := q) services s options nodes v v rfl
      dsimp only
      rw [runIn_bind, runIn_bind]
      generalize (services.draw (s.presented p) options nodes).runIn v = drawn,
        (services.draw (s.presented q) options nodes).runIn v = drawn' at hdraw ⊢
      cases hdraw with
      | value halike hworld =>
        subst hworld
        exact ⟨rfl, .converted halike⟩
      | panic panic hworld =>
        subst hworld
        exact ⟨rfl, .error _⟩

end Services

end Artboard
