import Artboard.Proofs.Conversion.Stages
import Artboard.Proofs.Number.Order
import Artboard.Proofs.Style.Tokens

/-!
# Containers without an element

A container whose style says nothing gets no element. Nothing is lost by this, for nothing is inside
it: a container with a layout is `flex`, and without a layout its children are placed by
coordinates, which makes it `relative` (`Style.children_eq_nil`).

So the ways for a container to be drawn are those of `EmitContext.Wraps`, and what is inside takes
the place of the container only where the container is left out for its size
(`EmitContext.emit_wraps`).
-/

namespace Artboard

open Pass

/-! ## Sizes -/

/-- A size that containers are left out for: a negative one, and for groups no height. -/
def Item.LacksRoom (i : Item) : Prop :=
  i.geometry.width < 0 ∨ i.geometry.height < 0 ∨ i.kind = .group ∧ (i.geometry.height == 0) = true

theorem Item.isSkipped_iff (i : Item) : EmitContext.isSkipped i = true ↔ i.LacksRoom := by
  unfold EmitContext.isSkipped LacksRoom
  by_cases hgroup : i.kind = .group
  · simp [hgroup, Number.le_iff_lt_or_beq]
  · simp [hgroup]

/-! ## Styles that say nothing -/

namespace Style

variable {item : Item} {children : List Node}

theorem autoLayout_ne_nil (l : AutoLayout) : autoLayout l ≠ [] := by simp [autoLayout]

/-- **Nothing is inside a node whose children have no layout** and do not make it their frame: each
child would be placed by coordinates. -/
theorem children_eq_nil (h : childLayout item children = []) : children = [] := by
  obtain ⟨hlayout, hframe⟩ := List.append_eq_nil_iff.1 h
  have hnone : item.layout = none := by
    cases hl : item.layout with
    | none => rfl
    | some l =>
      rw [hl] at hlayout
      exact absurd hlayout (autoLayout_ne_nil l)
  have hplaced (child : Node) : isAbsolute child.item (.inside item) = true := by
    simp [isAbsolute, ParentContext.inside, hnone]
  cases children with
  | nil => rfl
  | cons child rest =>
    have habsolute : hasAbsoluteChildren item (child :: rest) = true := by
      rw [hasAbsoluteChildren, List.any_cons, hplaced, Bool.true_or]
    rw [if_pos habsolute] at hframe
    cases hframe

end Style

namespace EmitContext

variable {cx : EmitContext} {item : Item} {children : List Node} {parent : ParentContext}

/-- The style of a container with its background image. -/
def containerStyle (item : Item) (children : List Node) (parent : ParentContext)
    (source : Option ImageSource) : Style :=
  { backdrop source with
    utilities := containerUtilities item children parent ++ (backdrop source).utilities }

/-- A container gets no element if its style resolves to nothing and its name is not shown. -/
structure IsBare (cx : EmitContext) (item : Item) (children : List Node) (parent : ParentContext)
    (source : Option ImageSource) : Prop where
  classes : ((containerStyle item children parent source).resolve cx.settings).classes = []
  declarations : ((containerStyle item children parent source).resolve cx.settings).declarations = []
  unnamed : cx.settings.showLayerNames = false

theorem isBare_iff {source : Option ImageSource} : cx.IsBare item children parent source ↔
    ((containerStyle item children parent source).isEmpty && !cx.settings.showLayerNames) =
      true := by
  rw [Bool.and_eq_true, Style.isEmpty_iff_resolve cx.settings, Bool.not_eq_true']
  exact ⟨fun h => ⟨⟨h.classes, h.declarations⟩, h.unnamed⟩, fun h => ⟨h.1.1, h.1.2, h.2⟩⟩

/-- There is nothing inside a container without an element. -/
theorem IsBare.children_eq_nil {source : Option ImageSource}
    (h : cx.IsBare item children parent source) : children = [] := by
  have hutilities := Style.classes_eq_nil_iff.1 h.classes
  simp only [containerStyle, containerUtilities, List.append_eq_nil_iff] at hutilities
  exact Style.children_eq_nil hutilities.1.1.2

variable (cx item children parent) in
theorem framed_eq (picture : Picture) (inside : Fragment) :
    cx.framed item children parent picture inside =
      if isSkipped item then inside
      else if (containerStyle item children parent picture.1).isEmpty &&
          !cx.settings.showLayerNames then
        { inside with warnings := inside.warnings ++ picture.2 }
      else
        around (cx.head "div" item (containerStyle item children parent picture.1))
          { inside with warnings := inside.warnings ++ picture.2 } :=
  rfl

/-! ## The ways to be drawn -/

/-- What becomes of the markup inside a node. -/
inductive Wraps (cx : EmitContext) (item : Item) (children : List Node) (parent : ParentContext)
    (source : Option ImageSource) (inside : List (Markup Style)) : List (Markup Style) → Prop
  /-- It takes the place of a container that is left out for its size. -/
  | spliced (hcontainer : item.kind.isContainer = true) (htag : item.tag = .none)
      (hartifact : item.artifact = none) (hsize : item.LacksRoom) :
      Wraps cx item children parent source inside inside
  /-- There is none, for the container without an element is empty. -/
  | elided (hcontainer : item.kind.isContainer = true) (htag : item.tag = .none)
      (hartifact : item.artifact = none) (hsize : ¬item.LacksRoom)
      (hbare : cx.IsBare item children parent source) (hchildren : children = [])
      (hinside : inside = []) : Wraps cx item children parent source inside []
  /-- It is in the element of the container or of the list. -/
  | wrapped {head : Markup.Head Style} (hopen : item.isOpen = true)
      (hsource : head.source = item.address)
      (hshown : item.tag = .none →
        ¬item.LacksRoom ∧ ¬cx.IsBare item children parent source) :
      Wraps cx item children parent source inside [Markup.wrap head inside]
  /-- There is none, for what is inside the node is not drawn. -/
  | closed {markup : List (Markup Style)} (hopen : item.isOpen = false) (hinside : inside = []) :
      Wraps cx item children parent source inside markup

theorem framed_wraps (hcontainer : item.kind.isContainer = true) (htag : item.tag = .none)
    (hartifact : item.artifact = none) (picture : Picture) {inside : Fragment}
    (hempty : children = [] → inside.markup = []) :
    cx.Wraps item children parent picture.1 inside.markup
      (cx.framed item children parent picture inside).markup := by
  have hopen : item.isOpen = true := by simp [Item.isOpen, htag, hartifact, hcontainer]
  rw [framed_eq]
  by_cases hskipped : isSkipped item = true
  · rw [if_pos hskipped]
    exact .spliced hcontainer htag hartifact (item.isSkipped_iff.1 hskipped)
  rw [if_neg hskipped]
  rw [item.isSkipped_iff] at hskipped
  by_cases hbare : cx.IsBare item children parent picture.1
  · have hchildren := hbare.children_eq_nil
    rw [if_pos (isBare_iff.1 hbare), hempty hchildren]
    exact .elided hcontainer htag hartifact hskipped hbare hchildren rfl
  · rw [if_neg fun h => hbare (isBare_iff.2 h)]
    show cx.Wraps item children parent picture.1 inside.markup
      [Markup.wrap (cx.head "div" item (containerStyle item children parent picture.1))
        inside.markup]
    exact .wrapped hopen rfl fun _ => ⟨hskipped, hbare⟩

theorem drawn_wraps (picture : Picture) {inside : Fragment}
    (hempty : children = [] → inside.markup = [])
    (hclosed : item.isOpen = false → inside.markup = []) :
    cx.Wraps item children parent picture.1 inside.markup
      (cx.drawn item children parent picture inside).markup := by
  cases hopen : item.isOpen with
  | false => exact .closed hopen (hclosed hopen)
  | true =>
    cases htag : item.tag with
    | list id =>
      rw [drawn, htag]
      exact .wrapped hopen rfl fun hnone => by rw [htag] at hnone; cases hnone
    | none =>
      simp only [Item.isOpen, htag, Bool.and_eq_true, Option.isNone_iff_eq_none] at hopen
      have hframed : cx.Wraps item children parent picture.1 inside.markup
          (cx.framed item children parent picture inside).markup :=
        framed_wraps hopen.2 htag hopen.1 picture hempty
      rw [drawn, htag, hopen.1]
      dsimp only
      cases hkind : item.kind with
      | group | frame | «section» => exact hframed
      | _ =>
        have hcontainer := hopen.2
        rw [hkind] at hcontainer
        cases hcontainer
    | _ =>
      rw [Item.isOpen, htag] at hopen
      cases hopen

/-- **Leaving out a container never drops anything inside it.** Of any node, in any context, with
any settings, services and cache: if the node is a container that gets no element because its style
says nothing, there is nothing inside. So what is inside stands without an element of its own around
it only where a container is left out for its size. -/
theorem emit_wraps (cx : EmitContext) (parent : ParentContext) (item : Item)
    (children : List Node) (w w' : World) (f : Fragment)
    (h : (cx.emit parent (.node item children)).runIn w = (.ok f, w')) :
    ∃ inside picture u, (cx.inside item children).runIn w = (.ok inside, u) ∧
      (cx.pictured item).runIn u = (.ok picture, w') ∧
      cx.Wraps item children parent picture.1 inside.markup f.markup := by
  rw [emit_eq] at h
  obtain ⟨inside, u, hinside, h⟩ := runIn_bind_eq_ok_iff.1 h
  obtain ⟨picture, v, hpicture, h⟩ := runIn_bind_eq_ok_iff.1 h
  obtain ⟨rfl, rfl⟩ : cx.drawn item children parent picture inside = f ∧ v = w' := by
    cases h
    exact ⟨rfl, rfl⟩
  have hpure (hnothing : cx.inside item children = pure {}) : inside.markup = [] := by
    rw [hnothing, runIn_pure] at hinside
    cases hinside
    rfl
  refine ⟨inside, picture, u, hinside, hpicture, drawn_wraps picture (fun hchildren => ?_)
    fun hopen => hpure (inside_of_not_isOpen hopen)⟩
  subst hchildren
  refine hpure ?_
  unfold EmitContext.inside
  split_ifs <;> rfl

/-- An empty frame that hugs its content, at the root of a selection. -/
theorem emit_wraps_hugging_frame :
    let host : Host := ⟨fun _ => none, fun _ _ => .failed⟩
    let assets : AssetSource := fun _ _ _ => pure none
    let layer : Layer :=
      { id := "frame", name := "Frame", type := "FRAME", width := 80, height := 20,
        horizontalSizing := .hug, verticalSizing := .hug }
    let item := ((⟨{}, host, assets⟩ : NormalizeContext).item (.node layer []) [0] {}).value
    let cx : EmitContext := ⟨{}, host, assets, .code⟩
    ∃ f w', (cx.emit .root (.node item [])).runIn {} = (.ok f, w') ∧
      ∃ inside picture u, (cx.inside item []).runIn {} = (.ok inside, u) ∧
        (cx.pictured item).runIn u = (.ok picture, w') ∧
        cx.Wraps item [] .root picture.1 inside.markup f.markup := by
  intro host assets layer item cx
  have hok : ((cx.emit .root (.node item [])).runIn {}).1.toOption.isSome = true := by
    decide +kernel
  rcases hrun : (cx.emit .root (.node item [])).runIn {} with ⟨panic | f, w'⟩
  · rw [hrun] at hok
    cases hok
  · exact ⟨f, w', rfl, emit_wraps cx .root item [] {} w' f hrun⟩

end EmitContext

end Artboard
