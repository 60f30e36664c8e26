import Artboard.Proofs.Conversion.Drawings

/-!
# Offsets add up to positions

The design tool reports the layers of a group in the space around the group, and all others relative
to their parent. In a selection without layouts every element below a root is placed at coordinates,
and its offsets, together with those of the elements around it, say where it is.

**Theorem (`Services.compile_offsets`).** The sum is the position of the layer relative to its root,
less the offsets of the containers on the way that were left out for their size. So it is the
position if no container was left out; what is inside one that was is drawn as if the container
began where its parent does (`Services.compile_bar_in_flat_row`).

Numbers are read exactly: an offset is the difference of the two numbers that the design tool
reported, before it is rounded to a double or to a class.
-/

namespace Artboard

/-! ## Numbers read exactly -/

namespace Number

/-- The value of a finite double, and zero for any other. -/
def rational (x : Float) : ℚ :=
  match exact x with
  | .finite s m e _ =>
    let magnitude : ℚ := if 0 ≤ e then m * 2 ^ e.toNat else m / 2 ^ (-e).toNat
    match s with
    | .positive => magnitude
    | .negative => -magnitude
  | _ => 0

theorem rational_zero : rational 0 = 0 := by decide +kernel

end Number

namespace Coordinate

/-- The difference before it is rounded. -/
def rational (c : Coordinate) : ℚ := Number.rational c.host - Number.rational c.origin

end Coordinate

def Geometry.coordinate (g : Geometry) : Edge → Coordinate
  | .left => g.x
  | .top => g.y

def Origin.coordinate (o : Origin) : Edge → Float
  | .left => o.x
  | .top => o.y

def Layer.coordinate (l : Layer) : Edge → Float
  | .left => l.x
  | .top => l.y

/-! ## Positions of layers -/

namespace Layer

/-- Whether a layer is a container that is left out for its size. -/
def isLeftOut (l : Layer) : Bool :=
  let kind := NodeKind.ofType l.type
  l.tag.value = .none && kind.isContainer &&
    (l.width < 0 || (if kind = .group then l.height ≤ 0 else l.height < 0))

/-- Where the layers inside a layer are measured from, relative to its corner. -/
def corner (l : Layer) (edge : Edge) : ℚ :=
  if NodeKind.ofType l.type = .group then Number.rational (l.coordinate edge) else 0

end Layer

/-- A layer and the layer around it. -/
structure Nested where
  around : Layer
  layer : Layer
deriving Repr

namespace Nested

/-- The position of a layer relative to the one around it. -/
def offset (edge : Edge) (n : Nested) : ℚ :=
  Number.rational (n.layer.coordinate edge) - n.around.corner edge

end Nested

namespace Scene

/-- The layers on the way to an address, from those right inside the scene. -/
def wayTo : Address → Scene → List Nested
  | [], _ => []
  | i :: path, .node l children =>
    match children[i]? with
    | some child => ⟨l, child.layer⟩ :: child.wayTo path
    | none => []

end Scene

namespace Selection

/-- The layers on the way from a root to an address, without the root. -/
def wayTo (selection : Selection) : Address → List Nested
  | [] => []
  | i :: path =>
    match selection[i]? with
    | some root => root.wayTo path
    | none => []

/-- The position of a layer relative to the root that it is in. -/
def position (selection : Selection) (edge : Edge) (address : Address) : ℚ :=
  ((selection.wayTo address).map (Nested.offset edge)).sum

/-- What the containers on the way that are left out contribute to the position. -/
def lost (selection : Selection) (edge : Edge) (address : Address) : ℚ :=
  (((selection.wayTo address).filter (·.layer.isLeftOut)).map (Nested.offset edge)).sum

end Selection

/-! ## Offsets of elements -/

/-- The coordinate that a utility gives at an edge. -/
def Utility.distance (edge : Edge) : Utility → ℚ
  | .offset e coordinate => if e = edge then coordinate.rational else 0
  | _ => 0

namespace Style

/-- The offset of an element at an edge, zero if it has none. -/
def offset (edge : Edge) (s : Style) : ℚ := (s.utilities.map (Utility.distance edge)).sum

/-- Only positions say how far an element is from an edge. -/
theorem offset_eq_positions (edge : Edge) (s : Style) :
    s.offset edge = ((positions s.utilities).map (Utility.distance edge)).sum := by
  have hother (us : List Utility) : (us.map (Utility.distance edge)).sum =
      ((positions us).map (Utility.distance edge)).sum := by
    induction us with
    | nil => rfl
    | cons u rest ih =>
      rw [List.map_cons, List.sum_cons, ih, positions, positions, List.filter_cons]
      split_ifs with hu
      · rw [List.map_cons, List.sum_cons]
      · have hzero : u.distance edge = 0 := by
          cases u <;> first | rfl | exact absurd rfl hu
        rw [hzero, zero_add]
  exact hother s.utilities

end Style

/-- How far a node is placed from an edge of the element around it. -/
def Item.offset (edge : Edge) (i : Item) (parent : ParentContext) : ℚ :=
  if Style.isAbsolute i parent then (i.geometry.coordinate edge).rational else 0

namespace Style

variable {edge : Edge} {item : Item} {children : List Node} {parent : ParentContext} {s : Style}

theorem offset_position :
    ((position item parent).map (Utility.distance edge)).sum = item.offset edge parent := by
  unfold position Item.offset
  cases edge <;> split_ifs <;> simp [Utility.distance, Geometry.coordinate]

theorem offset_of_positions (h : positions s.utilities = position item parent) :
    s.offset edge = item.offset edge parent := by
  rw [offset_eq_positions, h, offset_position]

theorem offset_of_frame (h : positions s.utilities = position item parent ++ frame item children) :
    s.offset edge = item.offset edge parent := by
  have hframe : ((frame item children).map (Utility.distance edge)).sum = 0 := by
    unfold frame
    split_ifs <;> simp [Utility.distance]
  rw [offset_eq_positions, h, List.map_append, List.sum_append, offset_position, hframe, add_zero]

/-- What has no style at all is not placed. -/
theorem offset_of_bare (h : EmitContext.containerUtilities item children parent = []) :
    item.offset edge parent = 0 := by
  have hpositions : position item parent ++ frame item children = [] := by
    rw [← EmitContext.positions_containerUtilities, h, positions_nil]
  rw [← offset_position, (List.append_eq_nil_iff.1 hpositions).1, List.map_nil, List.sum_nil]

end Style

/-- The offsets of some elements, one around the other. -/
def Style.offsets (edge : Edge) (styles : List Style) : ℚ := (styles.map (Style.offset edge)).sum

theorem Style.offsets_cons (edge : Edge) (s : Style) (styles : List Style) :
    offsets edge (s :: styles) = s.offset edge + offsets edge styles := by
  rw [offsets, List.map_cons, List.sum_cons, offsets]

/-- The offsets of an element and of those around it. -/
def Markup.Occurrence.offset (edge : Edge) (o : Markup.Occurrence Style) : ℚ :=
  Style.offsets edge (o.style :: o.around)

/-! ## Offsets of nodes -/

namespace Node

open Markup

variable {edge : Edge}

mutual

/-- The nodes of a tree that are not left out, and how far they are from an edge; `base` is how far
the element around the tree is. -/
def distances (edge : Edge) (base : ℚ) (parent : ParentContext) : Node → List (Address × ℚ)
  | .node item children =>
    if item.isLeftOut then distancesOfAll edge base (.inside item) children
    else
      let base := item.offset edge parent + base
      (item.address, base) :: distancesOfAll edge base (.inside item) children

def distancesOfAll (edge : Edge) (base : ℚ) (parent : ParentContext) :
    List Node → List (Address × ℚ)
  | [] => []
  | n :: rest => n.distances edge base parent ++ distancesOfAll edge base parent rest

end

theorem distancesOfAll_append (edge : Edge) (base : ℚ) (parent : ParentContext)
    (nodes others : List Node) :
    distancesOfAll edge base parent (nodes ++ others) =
      distancesOfAll edge base parent nodes ++ distancesOfAll edge base parent others := by
  induction nodes with
  | nil => rfl
  | cons n rest ih =>
    rw [List.cons_append, distancesOfAll, distancesOfAll, ih, List.append_assoc]

mutual

/-- The induction is that of the tree, and the cases are the ways for a node to be drawn. -/
theorem Draws.distance {parent : ParentContext} (n : Node) {markup : List (Markup Style)}
    (h : Draws parent n markup) (around : List Style) :
    ∀ o ∈ elementsOfAll around markup, ∀ address, o.source = some address →
      (address, o.offset edge) ∈ n.distances edge (Style.offsets edge around) parent := by
  match n with
  | .node item children =>
    rw [distances]
    cases h with
    | nothing => nofun
    | comment => nofun
    | leaf hopen hprompt hsource hhead hcontent =>
      have hshown : item.isLeftOut = false := by simp [Item.isLeftOut, hopen]
      rw [elementsOfAll_singleton, elements, List.forall_mem_cons, List.forall_mem_map, hshown,
        hsource]
      refine ⟨?_, fun _ _ => nofun⟩
      rintro _ ⟨⟩
      exact List.mem_cons.2 (.inl (Prod.ext rfl (by
        rw [Occurrence.offset, Style.offsets_cons, Style.offset_of_positions hhead])))
    | bare hopen hbare h =>
      have hinside := h.distance children around
      split_ifs with hleft
      · exact hinside
      · have hzero : item.offset edge parent = 0 :=
          Style.offset_of_bare (hbare.resolve_left hleft)
        intro o ho address haddress
        dsimp only
        rw [hzero, zero_add]
        exact List.mem_cons_of_mem _ (hinside o ho address haddress)
    | @around _ _ _ _ head hopen hshown hsource hhead h =>
      have hinside := h.distance children (head.style :: around)
      rw [Style.offsets_cons, Style.offset_of_frame hhead] at hinside
      rw [elementsOfAll_singleton, elements_wrap, List.forall_mem_cons, hshown, hsource]
      refine ⟨?_, fun o ho address haddress =>
        List.mem_cons_of_mem _ (hinside o ho address haddress)⟩
      rintro _ ⟨⟩
      exact List.mem_cons.2 (.inl (Prod.ext rfl (by
        rw [Occurrence.offset, Style.offsets_cons, Style.offset_of_frame hhead])))

theorem DrawAll.distance {parent : ParentContext} (nodes : List Node)
    {markup : List (Markup Style)} (h : DrawAll parent nodes markup) (around : List Style) :
    ∀ o ∈ elementsOfAll around markup, ∀ address, o.source = some address →
      (address, o.offset edge) ∈ distancesOfAll edge (Style.offsets edge around) parent nodes := by
  match nodes with
  | [] =>
    cases h
    nofun
  | n :: rest =>
    cases h with
    | cons hfirst hrest =>
      rw [elementsOfAll_append, distancesOfAll, List.forall_mem_append]
      exact ⟨fun o ho a ha => List.mem_append_left _ (hfirst.distance n around o ho a ha),
        fun o ho a ha => List.mem_append_right _ (hrest.distance rest around o ho a ha)⟩

end

/-! ### Instructions left out -/

mutual

theorem distances_withoutPrompts_subset (base : ℚ) (parent : ParentContext) (n : Node) :
    n.withoutPrompts.distances edge base parent ⊆ n.distances edge base parent := by
  match n with
  | .node item children =>
    rw [withoutPrompts, distances, distances]
    split_ifs
    · exact distancesOfAll_dropPrompts_subset base (.inside item) children
    · exact List.cons_subset_cons _ (distancesOfAll_dropPrompts_subset _ (.inside item) children)

theorem distancesOfAll_dropPrompts_subset (base : ℚ) (parent : ParentContext)
    (nodes : List Node) :
    distancesOfAll edge base parent (dropPrompts nodes) ⊆
      distancesOfAll edge base parent nodes := by
  match nodes with
  | [] => exact List.Subset.refl _
  | n :: rest =>
    have hrest := distancesOfAll_dropPrompts_subset base parent rest
    rw [dropPrompts, distancesOfAll]
    split_ifs
    · exact List.subset_append_of_subset_right _ hrest
    · rw [distancesOfAll]
      exact List.append_subset.2
        ⟨List.subset_append_of_subset_left _ (distances_withoutPrompts_subset base parent n),
          List.subset_append_of_subset_right _ hrest⟩

end

end Node

/-! ## Nodes of layers -/

namespace NormalizeContext

open Node

variable {cx : NormalizeContext} {edge : Edge}

theorem isLeftOut_item (cx : NormalizeContext) (s : Scene) (address : Address) (origin : Origin) :
    (cx.item s address origin).value.isLeftOut = s.layer.isLeftOut := by
  set i := (cx.item s address origin).value with hi
  have hcontainer : i.kind.isContainer = (NodeKind.ofType s.layer.type).isContainer :=
    apply_kind_item NodeKind.isContainer (fun _ _ => rfl) cx s address origin
  have hgroup : (i.kind = .group) = (NodeKind.ofType s.layer.type = .group) :=
    apply_kind_item (· = .group) (fun _ _ => by simp) cx s address origin
  have htag : i.tag = .none ↔ s.layer.tag.value = .none := by
    simp only [hi, item]
    cases s.layer.tag.value <;> simp
  have hwidth : i.geometry.width = s.layer.width := rfl
  have hheight : i.geometry.height = s.layer.height := rfl
  have hartifact : i.artifact = none := rfl
  by_cases hnone : s.layer.tag.value = .none
  · simp [Item.isLeftOut, Item.isOpen, EmitContext.isSkipped, Layer.isLeftOut, htag.2 hnone, hnone,
      hartifact, hcontainer, hgroup, hwidth, hheight]
  · simp [Item.isLeftOut, Layer.isLeftOut, htag, hnone]

theorem rational_originInside (l : Layer) :
    Number.rational ((originInside l (NodeKind.ofType l.type)).coordinate edge) =
      l.corner edge := by
  unfold originInside Layer.corner
  cases NodeKind.ofType l.type <;> cases edge <;> first | rfl | exact Number.rational_zero

/-- How far a layer is, but for the containers on the way that are left out. -/
def kept (edge : Edge) (way : List Nested) : ℚ :=
  ((way.filter (!·.layer.isLeftOut)).map (Nested.offset edge)).sum

theorem kept_cons (n : Nested) (way : List Nested) :
    kept edge (n :: way) = (if n.layer.isLeftOut then 0 else n.offset edge) + kept edge way := by
  unfold kept
  cases h : n.layer.isLeftOut <;> simp [h]

/-- How far the node of a layer is from the one around it; what is left out is nowhere. -/
def stepOf (l : Layer) (step : Layer → ℚ) : ℚ := if l.isLeftOut then 0 else step l

section Distances

variable {origin : Origin} {parent : ParentContext} {step : Layer → ℚ} {base : ℚ}

/-- What is inside a node is as far as the node, unless that is left out. -/
theorem distances_item {s : Scene} {address : Address} {inside : List Node}
    (hstep : ∀ (i : Item) (l : Layer), i.geometry = l.geometry origin →
      i.offset edge parent = step l)
    (hlayout : s.layer.layoutMode = .none)
    (hinside : ∀ base, ∀ entry ∈ distancesOfAll edge base {} inside, ∃ path,
      entry.1 = address ++ path ∧ entry.2 = base + kept edge (s.wayTo path)) :
    ∀ entry ∈ distances edge base parent (.node (cx.item s address origin).value inside), ∃ path,
      entry.1 = address ++ path ∧
        entry.2 = base + stepOf s.layer step + kept edge (s.wayTo path) := by
  have hcontext : ParentContext.inside (cx.item s address origin).value = {} := by
    simp [ParentContext.inside, item, Layer.autoLayout?, Layer.layoutDirection?, hlayout]
  have hown : (cx.item s address origin).value.offset edge parent = step s.layer :=
    hstep _ s.layer rfl
  rw [distances, isLeftOut_item, hcontext, hown, stepOf]
  intro entry hentry
  split_ifs at hentry ⊢ with hleft
  · obtain ⟨path, haddress, hvalue⟩ := hinside _ entry hentry
    exact ⟨path, haddress, by rw [hvalue, add_zero]⟩
  · rcases List.mem_cons.1 hentry with rfl | hentry
    · refine ⟨[], (List.append_nil _).symm, ?_⟩
      rw [Scene.wayTo, kept, List.filter_nil, List.map_nil, List.sum_nil, add_zero, add_comm]
    · obtain ⟨path, haddress, hvalue⟩ := hinside _ entry hentry
      exact ⟨path, haddress, by rw [hvalue, add_comm base]⟩

end Distances

/-- A layer without a layout around it is placed relative to the corner of that. -/
theorem offset_nested {around : Layer} {i : Item} {l : Layer}
    (h : i.geometry = l.geometry (originInside around (NodeKind.ofType around.type))) :
    i.offset edge {} = Nested.offset edge ⟨around, l⟩ := by
  show Coordinate.rational _ = _
  rw [Nested.offset, ← rational_originInside, h]
  cases edge <;> rfl

mutual

/-- A node is as far as the layers on the way to it, without those that are left out. -/
theorem Becomes.distance {depth : Nat} {origin : Origin} {address : Address} (s : Scene)
    {n? : Option Node} (h : cx.Becomes depth origin address s n?) {parent : ParentContext}
    {step : Layer → ℚ} {base : ℚ} (hvectors : cx.settings.embedVectors = false)
    (hstep : ∀ (i : Item) (l : Layer), i.geometry = l.geometry origin →
      i.offset edge parent = step l)
    (hlayout : ∀ d ∈ Scene.layersOf [s], d.layer.layoutMode = .none) :
    ∀ entry ∈ distancesOfAll edge base parent n?.toList, ∃ path, entry.1 = address ++ path ∧
      entry.2 = base + stepOf s.layer step + kept edge (s.wayTo path) := by
  match s with
  | .node l children =>
    rw [Scene.layersOf, List.forall_mem_cons] at hlayout
    cases h with
    | hidden => nofun
    | alone _ _ hitem =>
      subst hitem
      rw [Option.toList, distancesOfAll, distancesOfAll, List.append_nil]
      exact distances_item hstep hlayout.1 nofun
    | vector artifact _ _ _ _ hflattens =>
      exact absurd hflattens (not_flattens hvectors)
    | around _ _ hitem _ hchildren =>
      subst hitem
      have hinside := originInside_item cx (.node l children) address origin
      rw [Scene.layer] at hinside
      rw [hinside] at hchildren
      rw [Option.toList, distancesOfAll, distancesOfAll, List.append_nil]
      refine distances_item hstep hlayout.1 fun base entry hentry => ?_
      obtain ⟨i, path, child, hchild, haddress, hvalue⟩ :=
        hchildren.distance children hvectors (fun _ _ => offset_nested)
          (fun d hd => hlayout.2 d (List.mem_append_left _ hd)) entry hentry
      refine ⟨i :: path, ?_, ?_⟩
      · rw [haddress, Nat.zero_add, List.append_assoc, List.singleton_append]
      · rw [hvalue, Scene.wayTo, hchild, kept_cons, stepOf, add_assoc]

theorem AllBecome.distance {depth : Nat} {origin : Origin} {around : Address} {position : Nat}
    (scenes : List Scene) {nodes : List Node}
    (h : cx.AllBecome depth origin around position scenes nodes) {parent : ParentContext}
    {step : Layer → ℚ} {base : ℚ} (hvectors : cx.settings.embedVectors = false)
    (hstep : ∀ (i : Item) (l : Layer), i.geometry = l.geometry origin →
      i.offset edge parent = step l)
    (hlayout : ∀ d ∈ Scene.layersOf scenes, d.layer.layoutMode = .none) :
    ∀ entry ∈ distancesOfAll edge base parent nodes, ∃ i path s, scenes[i]? = some s ∧
      entry.1 = around ++ [position + i] ++ path ∧
      entry.2 = base + stepOf s.layer step + kept edge (s.wayTo path) := by
  match scenes with
  | [] =>
    cases h
    nofun
  | s :: rest =>
    rw [Scene.layersOf, List.forall_mem_cons, List.forall_mem_append] at hlayout
    cases h with
    | cons hfirst hrest =>
      rw [distancesOfAll_append, List.forall_mem_append]
      constructor
      · intro entry hentry
        have hfirst_layout : ∀ d ∈ Scene.layersOf [s], d.layer.layoutMode = .none := by
          rw [Scene.layersOf, Scene.layersOf, List.append_nil, List.forall_mem_cons]
          exact ⟨hlayout.1, hlayout.2.1⟩
        obtain ⟨path, haddress, hvalue⟩ :=
          hfirst.distance s hvectors hstep hfirst_layout entry hentry
        exact ⟨0, path, s, rfl, haddress, hvalue⟩
      · intro entry hentry
        obtain ⟨i, path, d, hat, haddress, hvalue⟩ :=
          hrest.distance rest hvectors hstep hlayout.2.2 entry hentry
        refine ⟨i + 1, path, d, hat, ?_, hvalue⟩
        rw [haddress, Nat.add_right_comm, Nat.add_assoc]

end

/-- The nodes of a selection are as far as the layers on the way to them, without those that are
left out. Roots are not placed at all. -/
theorem AllBecome.distance_roots {selection : Selection} {nodes : List Node}
    (h : cx.AllBecome 0 {} [] 0 selection nodes) (hvectors : cx.settings.embedVectors = false)
    (hlayout : ∀ s ∈ Scene.layersOf selection, s.layer.layoutMode = .none) :
    ∀ entry ∈ distancesOfAll edge 0 .root nodes,
      entry.2 = kept edge (selection.wayTo entry.1) := by
  intro entry hentry
  let step : Layer → ℚ := fun _ => 0
  have hstep (i : Item) (l : Layer) (_ : i.geometry = l.geometry {}) :
      i.offset edge .root = step l := rfl
  obtain ⟨i, path, s, hat, haddress, hvalue⟩ :=
    h.distance selection hvectors hstep hlayout entry hentry
  rw [hvalue, haddress, List.nil_append, Nat.zero_add, List.singleton_append, Selection.wayTo, hat]
  simp [stepOf, step]

end NormalizeContext

/-! ## Conversions -/

theorem Selection.kept_eq (selection : Selection) (edge : Edge) (address : Address) :
    NormalizeContext.kept edge (selection.wayTo address) =
      selection.position edge address - selection.lost edge address := by
  rw [position, lost]
  induction selection.wayTo address with
  | nil => simp [NormalizeContext.kept]
  | cons n way ih =>
    rw [NormalizeContext.kept_cons, ih]
    cases hleft : n.layer.isLeftOut with
    | true => simp [hleft]
    | false =>
      simp [hleft]
      ring

namespace Services

open Markup Node

/-- **Offsets add up to positions, but for containers that are left out.** Let vectors not be
embedded, and let no layer of the selection have a layout. In the code and in the preview, the
offsets of an element and of the elements around it add up to the position of its layer relative to
the root, less the positions, relative to their parents, of the containers on the way that are left
out for their size. -/
theorem compile_offsets (services : Services) (settings : Settings) (options : ConversionOptions)
    (selection : Selection) (w : World) (conversion : Conversion)
    (hvectors : settings.embedVectors = false)
    (hlayout : ∀ s ∈ Scene.layersOf selection, s.layer.layoutMode = .none)
    (h : (services.compile settings options selection w).1 = .ok (.converted conversion)) :
    ∃ nodes code preview, (services.normalizing settings).AllBecome 0 {} [] 0 selection nodes ∧
      services.Shows settings options conversion nodes code preview ∧
      ∀ o ∈ elementsOfAll [] (code.markup ++ preview.markup), ∀ address, o.source = some address →
        ∀ edge, o.offset edge =
          selection.position edge address - selection.lost edge address := by
  obtain ⟨nodes, code, preview, hnodes, hshows⟩ := compile_shows h
  refine ⟨nodes, code, preview, hnodes, hshows, fun o ho address haddress edge => ?_⟩
  have hmem : (address, o.offset edge) ∈ distancesOfAll edge 0 .root nodes := by
    rw [elementsOfAll_append, List.mem_append] at ho
    rcases ho with ho | ho
    · exact hshows.draws_code.distance nodes [] o ho address haddress
    · exact distancesOfAll_dropPrompts_subset 0 .root nodes
        (hshows.draws_preview.distance (dropPrompts nodes) [] o ho address haddress)
  rw [← Selection.kept_eq]
  exact hnodes.distance_roots hvectors hlayout _ hmem

/-- A bar in a group in a card: the bar is placed relative to the group, and the group relative to
the card. -/
theorem compile_bar_in_row :
    let bar : Scene := .node
      { id := "bar", name := "Bar", type := "RECTANGLE", x := 15, y := 25, width := 30,
        height := 10 } []
    let row : Scene := .node
      { id := "row", name := "Row", type := "GROUP", x := 10, y := 20, width := 50, height := 40 }
      [bar]
    let card : Selection := [.node
      { id := "card", name := "Card", type := "FRAME", x := 7, width := 100, height := 100 } [row]]
    let services := Services.uploading ⟨fun _ => none, fun _ _ => .failed⟩ fun _ _ => .failed
    (Selection.position card .left [0, 0, 0] = 15 ∧ Selection.lost card .left [0, 0, 0] = 0) ∧
      ∃ conversion, (services.compile {} {} card {}).1 = .ok (.converted conversion) ∧
        ∃ nodes code preview, (services.normalizing {}).AllBecome 0 {} [] 0 card nodes ∧
          services.Shows {} {} conversion nodes code preview ∧
          ∀ o ∈ elementsOfAll [] (code.markup ++ preview.markup),
            ∀ address, o.source = some address → ∀ edge, o.offset edge =
              Selection.position card edge address - Selection.lost card edge address := by
  intro bar row card services
  have hlayout : ∀ s ∈ Scene.layersOf card, s.layer.layoutMode = .none := by decide
  have hcode : (codeOf (services.compile {} {} card {}).1).isSome = true := by decide +kernel
  obtain ⟨conversion, hconversion⟩ := exists_of_codeOf hcode
  exact ⟨by decide +kernel, conversion, hconversion,
    compile_offsets _ _ _ _ _ _ rfl hlayout hconversion⟩

/-- **A container that is left out takes its offset with it.** The same bar in a group of no height:
the group is left out, but the bar stays placed relative to it, ten pixels too far to the left and
twenty too high. -/
theorem compile_bar_in_flat_row :
    let bar : Scene := .node
      { id := "bar", name := "Bar", type := "RECTANGLE", x := 15, y := 25, width := 30,
        height := 10 } []
    let row : Scene := .node
      { id := "row", name := "Row", type := "GROUP", x := 10, y := 20, width := 50, height := 0 }
      [bar]
    let card : Selection := [.node
      { id := "card", name := "Card", type := "FRAME", width := 100, height := 100 } [row]]
    let services := Services.uploading ⟨fun _ => none, fun _ _ => .failed⟩ fun _ _ => .failed
    (∀ s ∈ Scene.layersOf card, s.layer.layoutMode = .none) ∧
      Selection.position card .left [0, 0, 0] = 15 ∧ Selection.position card .top [0, 0, 0] = 25 ∧
      codeOf (services.compile {} {} card {}).1 = some ("<div className=\"w-24 h-24 relative\">\n  " ++
        "<div className=\"absolute left-[5px] top-[5px] w-7 h-2.5\" />\n</div>") := by
  decide +kernel

end Services

end Artboard
