import Artboard.Proofs.Conversion.Drawings

/-!
# Elements with two positions

An element is placed at coordinates because of the node around its own, and it is the frame of
coordinates because of the nodes inside. So its class list has `absolute` iff its node is placed by
coordinates, and `relative` iff nodes are drawn inside that are placed by coordinates
(`Services.compile_positions`).

Nothing keeps these two apart. A frame without layout inside another has both words as soon as there
is a layer in it, and `relative` takes the frame off its coordinates
(`Services.compile_badge_in_card`).
-/

namespace Artboard

/-! ## Nodes in their places -/

/-- A node, and what it knows of the element around it. -/
structure Site where
  parent : ParentContext
  node : Node
deriving Repr

namespace Site

variable (p : Site)

/-- Whether the node is placed by coordinates. -/
def isAbsolute : Bool := Style.isAbsolute p.node.item p.parent

/-- Whether nodes are drawn inside that are placed by coordinates. -/
def isFrame : Bool := p.node.item.isOpen && Style.hasAbsoluteChildren p.node.item p.node.children

end Site

namespace Node

mutual

/-- The sites of the nodes of a tree, each before those inside it. -/
def sites (parent : ParentContext) : Node → List Site
  | .node item children => ⟨parent, .node item children⟩ :: sitesOfAll (.inside item) children

def sitesOfAll (parent : ParentContext) : List Node → List Site
  | [] => []
  | n :: rest => n.sites parent ++ sitesOfAll parent rest

end

end Node

/-! ## Elements in their places -/

namespace Markup.Occurrence

/-- Whether an element has the words for the place of the node that it is drawn for. Runs of text
have neither word. -/
inductive Fits (settings : Settings) (sites : List Site) : Occurrence Style → Prop
  | run {style : Style} {around : List Style}
      (habsolute : settings.classPrefix ++ "absolute" ∉ style.classes settings)
      (hrelative : settings.classPrefix ++ "relative" ∉ style.classes settings) :
      Fits settings sites ⟨none, style, around⟩
  | node {style : Style} {around : List Style} (p : Site) (hsite : p ∈ sites)
      (habsolute : settings.classPrefix ++ "absolute" ∈ style.classes settings ↔
        p.isAbsolute = true)
      (hrelative : settings.classPrefix ++ "relative" ∈ style.classes settings ↔
        p.isFrame = true) :
      Fits settings sites ⟨some p.node.item.address, style, around⟩

variable {settings : Settings} {sites others : List Site} {o : Occurrence Style}

theorem Fits.mono (h : o.Fits settings sites) (hsub : sites ⊆ others) :
    o.Fits settings others := by
  cases h with
  | run habsolute hrelative => exact .run habsolute hrelative
  | node p hsite habsolute hrelative => exact .node p (hsub hsite) habsolute hrelative

theorem Fits.of_run {style : Style} {around : List Style}
    (h : Style.positions style.utilities = []) : Fits settings sites ⟨none, style, around⟩ := by
  have hword {word : Keyword} (hword : word = .absolute ∨ word = .relative) :
      settings.classPrefix ++ word.text ∉ style.classes settings := by
    have hposition : (Utility.keyword word).isPosition = true := by
      rcases hword with rfl | rfl <;> rfl
    rw [Style.mem_classes_iff hword, ← Style.mem_positions_iff hposition, h]
    exact List.not_mem_nil
  exact .run (hword (.inl rfl)) (hword (.inr rfl))

/-- The two words are told by the positions of the style. -/
theorem Fits.of_positions {style : Style} {around : List Style} {p : Site} (hsite : p ∈ sites)
    (h : Style.positions style.utilities = Style.position p.node.item p.parent ++
      if p.isFrame then [.keyword .relative] else []) :
    Fits settings sites ⟨some p.node.item.address, style, around⟩ := by
  have hword {word : Keyword} (hword : word = .absolute ∨ word = .relative) :
      settings.classPrefix ++ word.text ∈ style.classes settings ↔
        .keyword word ∈ Style.position p.node.item p.parent ++
          if p.isFrame then [.keyword .relative] else [] := by
    rw [Style.mem_classes_iff hword, ← h, Style.mem_positions_iff]
    rcases hword with rfl | rfl <;> rfl
  have habsolute := hword (.inl rfl)
  have hrelative := hword (.inr rfl)
  unfold Style.position at habsolute hrelative
  refine .node p hsite (habsolute.trans ?_) (hrelative.trans ?_)
  · rw [Site.isAbsolute]
    split_ifs <;> simp [*]
  · split_ifs <;> simp [*]

end Markup.Occurrence

namespace Node

open Markup

variable {settings : Settings}

mutual

/-- The induction is that of the tree, and the cases are the ways for a node to be drawn. -/
theorem Draws.fits {parent : ParentContext} (n : Node) {markup : List (Markup Style)}
    (h : Draws parent n markup) (around : List Style) :
    ∀ o ∈ elementsOfAll around markup, o.Fits settings (n.sites parent) := by
  match n with
  | .node item children =>
    have hinside {inside : List (Markup Style)} (h : DrawAll (.inside item) children inside)
        (around : List Style) :
        ∀ o ∈ elementsOfAll around inside, o.Fits settings (sites parent (.node item children)) :=
      fun o ho => (h.fits children around o ho).mono (List.subset_cons_self _ _)
    cases h with
    | nothing => nofun
    | comment => nofun
    | leaf hopen hprompt hsource hhead hcontent =>
      rw [elementsOfAll_singleton, elements, List.forall_mem_cons, List.forall_mem_map, hsource]
      refine ⟨.of_positions (p := ⟨parent, .node item children⟩) List.mem_cons_self ?_,
        fun style hstyle => .of_run (hcontent style hstyle)⟩
      simpa [Site.isFrame, Node.item, hopen] using hhead
    | bare hopen hbare h => exact hinside h around
    | around hopen hshown hsource hhead h =>
      rw [elementsOfAll_singleton, elements_wrap, List.forall_mem_cons, hsource]
      refine ⟨.of_positions (p := ⟨parent, .node item children⟩) List.mem_cons_self ?_,
        hinside h _⟩
      simpa [Site.isFrame, Style.frame, Node.item, Node.children, hopen] using hhead

theorem DrawAll.fits {parent : ParentContext} (nodes : List Node) {markup : List (Markup Style)}
    (h : DrawAll parent nodes markup) (around : List Style) :
    ∀ o ∈ elementsOfAll around markup, o.Fits settings (sitesOfAll parent nodes) := by
  match nodes with
  | [] =>
    cases h
    nofun
  | n :: rest =>
    cases h with
    | cons hfirst hrest =>
      rw [elementsOfAll_append, sitesOfAll, List.forall_mem_append]
      exact ⟨fun o ho => (hfirst.fits n around o ho).mono (List.subset_append_left _ _),
        fun o ho => (hrest.fits rest around o ho).mono (List.subset_append_right _ _)⟩

end

end Node

/-! ## Conversions -/

namespace Services

open Markup Node

/-- **Who is placed at coordinates, and who is their frame.** In the code and in the preview of
every conversion, the class list of an element has `absolute`, behind the class prefix, iff its node
is placed by coordinates. It has `relative` iff nodes are drawn inside that are placed by
coordinates. So it has both iff its node is placed by coordinates and draws such nodes inside. -/
theorem compile_positions (services : Services) (settings : Settings)
    (options : ConversionOptions) (selection : Selection) (w : World) (conversion : Conversion)
    (h : (services.compile settings options selection w).1 = .ok (.converted conversion)) :
    ∃ nodes code preview, (services.normalizing settings).AllBecome 0 {} [] 0 selection nodes ∧
      services.Shows settings options conversion nodes code preview ∧
      (∀ o ∈ elementsOfAll [] code.markup, o.Fits settings (sitesOfAll .root nodes)) ∧
      ∀ o ∈ elementsOfAll [] preview.markup,
        o.Fits (Preview.settings settings) (sitesOfAll .root (dropPrompts nodes)) := by
  obtain ⟨nodes, code, preview, hnodes, hshows⟩ := compile_shows h
  exact ⟨nodes, code, preview, hnodes, hshows, hshows.draws_code.fits nodes [],
    hshows.draws_preview.fits (dropPrompts nodes) []⟩

/-- A row of a badge and a list: the badge opts out of the layout, and the list has none of its
own. -/
theorem compile_positions_in_row :
    let dot : Scene := .node
      { id := "dot", name := "Dot", type := "RECTANGLE", width := 16, height := 16 } []
    let badge : Scene := .node
      { id := "badge", name := "Badge", type := "ELLIPSE", x := 90, width := 20, height := 20,
        positioning := .absolute } []
    let dots : Scene := .node
      { id := "dots", name := "#list:dots", type := "FRAME", width := 80, height := 40 } [dot]
    let row : Selection := [.node
      { id := "row", name := "Row", type := "FRAME", width := 100, height := 40,
        layoutMode := .horizontal } [badge, dots]]
    let services := Services.uploading ⟨fun _ => none, fun _ _ => .failed⟩ fun _ _ => .failed
    let settings : Settings := { classPrefix := "tw-" }
    ∃ conversion, (services.compile settings {} row {}).1 = .ok (.converted conversion) ∧
      ∃ nodes code preview, (services.normalizing settings).AllBecome 0 {} [] 0 row nodes ∧
        services.Shows settings {} conversion nodes code preview ∧
        (∀ o ∈ elementsOfAll [] code.markup, o.Fits settings (sitesOfAll .root nodes)) ∧
        ∀ o ∈ elementsOfAll [] preview.markup,
          o.Fits (Preview.settings settings) (sitesOfAll .root (dropPrompts nodes)) := by
  intro dot badge dots row services settings
  have hcode : (codeOf (services.compile settings {} row {}).1).isSome = true := by decide +kernel
  obtain ⟨conversion, hconversion⟩ := exists_of_codeOf hcode
  exact ⟨conversion, hconversion, compile_positions _ _ _ _ _ _ hconversion⟩

/-- **An element with two positions.** A badge in a card, with a dot in it: the badge is placed at
coordinates, and it is the frame of the dot's. -/
theorem compile_badge_in_card :
    let dot : Scene := .node
      { id := "dot", name := "Dot", type := "RECTANGLE", x := 4, y := 8, width := 16, height := 16 }
      []
    let badge : Scene := .node
      { id := "badge", name := "Badge", type := "FRAME", x := 20, y := 10, width := 80,
        height := 40 } [dot]
    let card : Selection := [.node
      { id := "card", name := "Card", type := "FRAME", width := 200, height := 100 } [badge]]
    let services := Services.uploading ⟨fun _ => none, fun _ _ => .failed⟩ fun _ _ => .failed
    codeOf (services.compile {} {} card {}).1 = some ("<div className=\"w-48 h-24 relative\">\n  " ++
      "<div className=\"absolute left-5 top-2.5 w-20 h-10 relative\">\n    " ++
      "<div className=\"absolute left-1 top-2 w-4 h-4\" />\n  </div>\n</div>") := by
  decide +kernel

end Services

end Artboard
