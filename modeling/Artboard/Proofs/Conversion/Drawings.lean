import Artboard.Proofs.Conversion.WellFormed
import Artboard.Proofs.Style.Positions

/-!
# What is drawn for nodes

The markup of a node is made of comments, elements that stand for the node itself, and what is drawn
for the nodes inside it. Images, warnings and attributes aside, there are five ways for a node to be
drawn: not at all, as a comment, as an element without nodes inside, as an element around what is
drawn inside, or as the latter alone.

**The relation** (`Node.Draws`). Its constructors are these ways. Emission keeps to it in any world
(`EmitContext.emitRoots_draws`). The code and the preview of a conversion are what is drawn for the
nodes that the selection becomes (`Services.compile_shows`).
-/

namespace Artboard

/-! ## Elements of markup -/

namespace Markup

variable {σ : Type}

/-- An element, the node that it is drawn for unless it is a run of text, and the styles of the
elements around it, the innermost first. -/
structure Occurrence (σ : Type) where
  source : Option Address
  style : σ
  around : List σ
deriving Repr

/-- The styles of the runs that have elements of their own. -/
def Content.styles : Content σ → List σ
  | .spans parts => parts.filterMap fun s => s.wrapper.map (·.2)
  | .empty | .block _ => []

mutual

/-- The elements of some markup inside others. -/
def elements (around : List σ) : Markup σ → List (Occurrence σ)
  | .comment _ => []
  | .leaf head content =>
    ⟨some head.source, head.style, around⟩ ::
      content.styles.map fun style => ⟨none, style, head.style :: around⟩
  | .parent head children =>
    ⟨some head.source, head.style, around⟩ :: elementsOfAll (head.style :: around) children

def elementsOfAll (around : List σ) : List (Markup σ) → List (Occurrence σ)
  | [] => []
  | m :: rest => m.elements around ++ elementsOfAll around rest

end

@[simp] theorem elementsOfAll_append (around : List σ) (markup others : List (Markup σ)) :
    elementsOfAll around (markup ++ others) =
      elementsOfAll around markup ++ elementsOfAll around others := by
  induction markup with
  | nil => rfl
  | cons m rest ih => rw [List.cons_append, elementsOfAll, elementsOfAll, ih, List.append_assoc]

@[simp] theorem elementsOfAll_singleton (around : List σ) (m : Markup σ) :
    elementsOfAll around [m] = m.elements around := by
  rw [elementsOfAll, elementsOfAll, List.append_nil]

/-- An element around some markup, or without content if there is none. -/
def wrap (head : Head σ) (inside : List (Markup σ)) : Markup σ :=
  if inside.isEmpty then .leaf head .empty else .parent head inside

theorem elements_wrap (around : List σ) (head : Head σ) (inside : List (Markup σ)) :
    (wrap head inside).elements around =
      ⟨some head.source, head.style, around⟩ :: elementsOfAll (head.style :: around) inside := by
  cases inside <;> rfl

end Markup

open Markup (Head Content)

/-! ## The relation -/

/-- Whether layers of a kind are containers. -/
def NodeKind.isContainer : NodeKind → Bool
  | .group | .frame | .section => true
  | _ => false

namespace Item

/-- Whether the nodes inside an item are drawn. -/
def isOpen (i : Item) : Bool :=
  match i.tag with
  | .list _ => true
  | .none => i.artifact.isNone && i.kind.isContainer
  | _ => false

/-- Whether an item is left out for its size, while the nodes inside it are drawn. -/
def isLeftOut (i : Item) : Bool := i.isOpen && i.tag = .none && EmitContext.isSkipped i

end Item

namespace Node

mutual

/-- The markup of a node. -/
inductive Draws : ParentContext → Node → List (Markup Style) → Prop
  | nothing {parent : ParentContext} {item : Item} {children : List Node}
      (hopen : item.isOpen = false) (hprompt : item.tag.isPrompt = false) :
      Draws parent (.node item children) []
  | comment {parent : ParentContext} {item : Item} {children : List Node} {instruction : String}
      (htag : item.tag = .prompt instruction) :
      Draws parent (.node item children) [.comment ("AI: " ++ instruction)]
  | leaf {parent : ParentContext} {item : Item} {children : List Node} {head : Head Style}
      {content : Content Style} (hopen : item.isOpen = false)
      (hprompt : item.tag.isPrompt = false) (hsource : head.source = item.address)
      (hhead : Style.positions head.style.utilities = Style.position item parent)
      (hcontent : ∀ style ∈ content.styles, Style.positions style.utilities = []) :
      Draws parent (.node item children) [.leaf head content]
  /-- Left out for its size, or because there is nothing to say of it. -/
  | bare {parent : ParentContext} {item : Item} {children : List Node}
      {inside : List (Markup Style)} (hopen : item.isOpen = true)
      (hbare : item.isLeftOut = true ∨ EmitContext.containerUtilities item children parent = [])
      (hinside : DrawAll (.inside item) children inside) :
      Draws parent (.node item children) inside
  | around {parent : ParentContext} {item : Item} {children : List Node}
      {inside : List (Markup Style)} {head : Head Style} (hopen : item.isOpen = true)
      (hshown : item.isLeftOut = false) (hsource : head.source = item.address)
      (hhead : Style.positions head.style.utilities =
        Style.position item parent ++ Style.frame item children)
      (hinside : DrawAll (.inside item) children inside) :
      Draws parent (.node item children) [Markup.wrap head inside]

/-- The markup of siblings. -/
inductive DrawAll : ParentContext → List Node → List (Markup Style) → Prop
  | nil {parent : ParentContext} : DrawAll parent [] []
  | cons {parent : ParentContext} {n : Node} {rest : List Node}
      {first others : List (Markup Style)} (hfirst : Draws parent n first)
      (hrest : DrawAll parent rest others) : DrawAll parent (n :: rest) (first ++ others)

end

end Node

/-! ## Emission keeps to it -/

namespace EmitContext

open Pass Node

variable {cx : EmitContext} {item : Item} {children : List Node} {parent : ParentContext}
  {inside : Fragment}

@[simp] theorem positions_base :
    Style.positions (base item children parent) = Style.position item parent := by
  simp [base]

@[simp] theorem positions_containerUtilities :
    Style.positions (containerUtilities item children parent) =
      Style.position item parent ++ Style.frame item children := by
  simp [containerUtilities]

section Leaves

variable (hopen : item.isOpen = false) (hprompt : item.tag.isPrompt = false)
include hopen hprompt

theorem draws_box {tag : String} {utilities : List Utility}
    (h : Style.positions utilities = Style.position item parent) :
    Draws parent (.node item children) [cx.box tag item utilities] :=
  .leaf hopen hprompt rfl h nofun

theorem draws_picture {utilities : List Utility} (source : Option ImageSource)
    (h : Style.positions utilities = Style.position item parent) :
    Draws parent (.node item children) [cx.picture item utilities source] := by
  cases source with
  | none => exact draws_box hopen hprompt h
  | some source => exact .leaf hopen hprompt rfl h nofun

theorem shape_draws (cx : EmitContext) :
    Gives (cx.shape item children parent) fun f =>
      Draws parent (.node item children) f.markup := by
  rw [shape_eq]
  split_ifs
  · exact .pure (.nothing hopen hprompt)
  · exact (Gives.trivial _).bind fun _ _ => .pure (draws_picture hopen hprompt _ (by simp))
  · exact .pure (draws_box hopen hprompt (by simp))

theorem staticImage_draws (cx : EmitContext) :
    Gives (cx.staticImage item children parent) fun f =>
      Draws parent (.node item children) f.markup := by
  rw [staticImage_eq]
  exact (Gives.trivial _).bind fun _ _ => .pure (draws_picture hopen hprompt _ (by simp))

theorem draws_artifact (artifact : Artifact) :
    Draws parent (.node item children) (cx.artifact item artifact children parent).markup := by
  cases artifact with
  | svg markup => exact .leaf hopen hprompt rfl positions_base nofun
  | remote url => exact draws_picture hopen hprompt _ positions_base

/-- Runs of text say nothing of places. -/
theorem draws_text (content : TextContent) :
    Draws parent (.node item children) (cx.text item content children parent).markup := by
  have hspans (segments : List Segment) :
      ∀ style ∈ (Content.spans (segments.map cx.span)).styles,
        Style.positions style.utilities = [] := by
    intro style hstyle
    simp only [Content.styles, List.mem_filterMap, List.mem_map] at hstyle
    obtain ⟨_, ⟨s, -, rfl⟩, hs⟩ := hstyle
    obtain rfl := Option.some.inj hs
    exact Style.positions_run cx.settings s.style
  have hblock : Style.positions (base item children parent ++ Style.alignment content) =
      Style.position item parent := by simp
  unfold text
  rcases Segment.ofRuns content.runs with _ | ⟨only, _ | ⟨next, rest⟩⟩
  · exact .leaf hopen hprompt rfl hblock (hspans [])
  · exact .leaf hopen hprompt rfl
      (by rw [head, Style.ofUtilities, Style.positions_append, hblock]; simp) nofun
  · exact .leaf hopen hprompt rfl hblock (hspans (only :: next :: rest))

end Leaves

theorem positions_backdrop (source : Option ImageSource) :
    Style.positions (backdrop source).utilities = [] := by
  rcases source with _ | _ | _ | _ <;> rfl

/-- A container with an image is never left out. -/
theorem isEmpty_backdrop (utilities : List Utility) (source : ImageSource) :
    ({ backdrop (some source) with
      utilities := utilities ++ (backdrop (some source)).utilities } : Style).isEmpty = false := by
  cases source <;> simp [backdrop, Style.isEmpty, Style.ofUtilities]

theorem container_draws (hopen : item.isOpen = true) (htag : item.tag = .none)
    (hinside : DrawAll (.inside item) children inside.markup) :
    Gives (cx.container item children parent inside) fun f =>
      Draws parent (.node item children) f.markup := by
  have hleft : item.isLeftOut = isSkipped item := by simp [Item.isLeftOut, hopen, htag]
  simp only [container_eq]
  split_ifs with hskipped
  · exact .pure (.bare hopen (.inl (hleft.trans hskipped)) hinside)
  all_goals
    refine (Gives.trivial _).bind fun image _ => ?_
    obtain ⟨source, warnings⟩ := image
    dsimp only
    split_ifs with hempty
    · refine .pure (.bare hopen (.inr ?_) hinside)
      simp only [Style.isEmpty, Bool.and_eq_true, List.isEmpty_iff, List.append_eq_nil_iff]
        at hempty
      exact hempty.1.1.1
    · refine .pure (.around hopen (hleft.trans (Bool.eq_false_iff.2 hskipped)) rfl ?_ hinside)
      simp [head, positions_backdrop]

mutual

/-- The cases are those of `emit`. -/
theorem emit_draws (cx : EmitContext) (parent : ParentContext) (n : Node) :
    Gives (cx.emit parent n) fun f => Draws parent n f.markup := by
  match n with
  | .node item children =>
    have hinside := emitAll_draws cx (.inside item) children
    rw [emit_node]
    cases htag : item.tag with
    | ignore => exact .pure (.nothing (by simp [Item.isOpen, htag]) (by rw [htag]; rfl))
    | prompt instruction => exact .pure (.comment htag)
    | slot kind subtype id =>
      exact .pure (.leaf (by simp [Item.isOpen, htag]) (by rw [htag]; rfl) rfl
        Style.positions_position nofun)
    | list id =>
      refine hinside.bind fun f hf => .pure ?_
      exact .around (by simp [Item.isOpen, htag]) (by simp [Item.isLeftOut, htag]) rfl
        positions_containerUtilities hf
    | canvas id =>
      exact .pure (.leaf (by simp [Item.isOpen, htag]) (by rw [htag]; rfl) rfl
        positions_base nofun)
    | static => exact staticImage_draws (by simp [Item.isOpen, htag]) (by rw [htag]; rfl) cx
    | none =>
      have hprompt : item.tag.isPrompt = false := by rw [htag]; rfl
      cases hartifact : item.artifact with
      | some artifact =>
        exact .pure (draws_artifact (by simp [Item.isOpen, htag, hartifact]) hprompt artifact)
      | none =>
        have hopen : item.isOpen = item.kind.isContainer := by
          simp [Item.isOpen, htag, hartifact]
        cases hkind : item.kind with
        | rectangle | ellipse => exact shape_draws (by rw [hopen, hkind]; rfl) hprompt cx
        | group | frame | «section» =>
          exact hinside.bind fun _ hf => container_draws (by rw [hopen, hkind]; rfl) htag hf
        | text content => exact .pure (draws_text (by rw [hopen, hkind]; rfl) hprompt content)
        | line | vector =>
          exact .pure (draws_box (by rw [hopen, hkind]; rfl) hprompt (by simp))
        | unsupported type => exact .pure (.nothing (by rw [hopen, hkind]; rfl) hprompt)

theorem emitAll_draws (cx : EmitContext) (parent : ParentContext) (nodes : List Node) :
    Gives (cx.emitAll parent nodes) fun f => DrawAll parent nodes f.markup := by
  match nodes with
  | [] =>
    rw [emitAll_nil]
    exact .pure .nil
  | n :: rest =>
    rw [emitAll_cons]
    exact (emit_draws cx parent n).bind fun _ hfirst =>
      (emitAll_draws cx parent rest).bind fun _ hothers => .pure (.cons hfirst hothers)

end

/-- **What is drawn for the roots of a selection is their markup.** -/
theorem emitRoots_draws (cx : EmitContext) (roots : List Node) :
    Gives (cx.emitRoots roots) fun f => DrawAll .root roots f.markup :=
  emitAll_draws cx .root roots

end EmitContext

/-! ## Conversions -/

namespace Services

open Pass Node

variable {services : Services} {settings : Settings} {options : ConversionOptions}
  {selection : Selection} {conversion : Conversion} {nodes : List Node} {code preview : Fragment}

/-- The parts of a conversion: the code is what is drawn for some nodes, and the preview is what is
drawn for the nodes without instructions. -/
structure Shows (services : Services) (settings : Settings) (options : ConversionOptions)
    (conversion : Conversion) (nodes : List Node) (code preview : Fragment) : Prop where
  code_given : CanGive ((services.emitting settings options).emitRoots nodes) code
  code_eq : conversion.code = (services.emitting settings options).write code.markup
  preview_given : CanGive
    ((Preview.context settings services.host services.assets).emitRoots (dropPrompts nodes)) preview
  preview_eq : conversion.preview.content =
    (Preview.context settings services.host services.assets).write preview.markup

namespace Shows

theorem draws_code (h : services.Shows settings options conversion nodes code preview) :
    DrawAll .root nodes code.markup :=
  (EmitContext.emitRoots_draws _ nodes).of_canGive h.code_given

theorem draws_preview (h : services.Shows settings options conversion nodes code preview) :
    DrawAll .root (dropPrompts nodes) preview.markup :=
  (EmitContext.emitRoots_draws _ (dropPrompts nodes)).of_canGive h.preview_given

end Shows

theorem draw_shows (nodes : Warned (List Node)) :
    Gives (services.draw settings options nodes) fun conversion =>
      ∃ code preview, services.Shows settings options conversion nodes.value code preview := by
  refine (Gives.canGive _).bind fun code hcode => ?_
  have hpreview : Gives (Preview.ofNodes settings services.host services.assets nodes.value)
      fun preview => ∃ fragment,
        CanGive ((Preview.context settings services.host services.assets).emitRoots
          (dropPrompts nodes.value)) fragment ∧
        preview.content =
          (Preview.context settings services.host services.assets).write fragment.markup := by
    rw [Preview.ofNodes_eq]
    refine (Gives.canGive _).bind fun fragment hfragment => ?_
    dsimp only
    cases Preview.bounds nodes.value <;> exact .pure ⟨fragment, hfragment, rfl⟩
  refine hpreview.bind fun preview hpreview => .pure ?_
  obtain ⟨fragment, hfragment, hcontent⟩ := hpreview
  exact ⟨code, fragment, hcode, rfl, hfragment, hcontent⟩

theorem run_shows :
    Gives (services.run settings options selection) fun result =>
      ∀ conversion, result = .ok conversion → ∃ nodes code preview,
        (services.normalizing settings).AllBecome 0 {} [] 0 selection nodes ∧
          services.Shows settings options conversion nodes code preview := by
  rw [run_eq]
  refine ((services.normalizing settings).normalize_become selection).bind fun result hnodes => ?_
  cases result with
  | error error => exact .pure nofun
  | ok nodes =>
    refine (draw_shows nodes).bind fun conversion hshows => .pure ?_
    obtain ⟨code, preview, hshows⟩ := hshows
    rintro _ ⟨⟩
    exact ⟨nodes.value, code, preview, hnodes nodes rfl, hshows⟩

/-- The code of a conversion, if there is one. -/
def codeOf : Except ConversionError Outcome → Option String
  | .ok (.converted conversion) => some conversion.code
  | .ok .emptySelection | .error _ => none

theorem exists_of_codeOf {result : Except ConversionError Outcome}
    (h : (codeOf result).isSome = true) : ∃ conversion, result = .ok (.converted conversion) := by
  rcases result with error | _ | conversion
  · cases h
  · cases h
  · exact ⟨conversion, rfl⟩

/-- **A conversion shows what the selection becomes.** -/
theorem compile_shows {w : World}
    (h : (services.compile settings options selection w).1 = .ok (.converted conversion)) :
    ∃ nodes code preview, (services.normalizing settings).AllBecome 0 {} [] 0 selection nodes ∧
      services.Shows settings options conversion nodes code preview :=
  run_shows _ _ (runIn_run_of_compile h) conversion rfl

end Services

end Artboard
