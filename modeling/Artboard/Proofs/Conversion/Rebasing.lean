import Artboard.Proofs.Conversion.Offsets
import Artboard.Proofs.Number.Finite

/-!
# Rebased places

The design tool reports what is in a group in the space around the group. Normalization measures it
from the corner of the group instead, and the groups around that likewise, each from the corner of
the group right around it. So the reported position of a layer is the sum of what its node and the
groups around that say, up to the next node that is no group.

**Theorem (`NormalizeContext.normalize_keeps_places`).** This holds of every node that comes of a
selection, numbers being read exactly; size and rotation stay as they are reported.

The corner that is handed down into a group is the one that is reported, and not what the group's
own node says. The invariant of the induction is that it is the sum for the groups around
(`Item.corner`).
-/

namespace Artboard

namespace Item

variable {edge : Edge} {i : Item} {around : List Item}

/-- How far an item is from the corner that it is measured from. -/
def distance (edge : Edge) (i : Item) : ℚ := (i.geometry.coordinate edge).rational

/-- The unbroken chain of groups among the items around something, from the inside out. -/
def groups (around : List Item) : List Item := around.takeWhile (·.kind = .group)

/-- The corner that is measured from inside some items, the innermost first. -/
def corner (edge : Edge) (around : List Item) : ℚ := ((groups around).map (distance edge)).sum

theorem corner_nil : corner edge [] = 0 := rfl

theorem corner_of_group (h : i.kind = .group) :
    corner edge (i :: around) = i.distance edge + corner edge around := by
  rw [corner, groups, List.takeWhile_cons_of_pos (by simp [h]), List.map_cons, List.sum_cons]
  rfl

/-- What is no group breaks the chain. -/
theorem corner_of_not_group (h : i.kind ≠ .group) : corner edge (i :: around) = 0 := by
  rw [corner, groups, List.takeWhile_cons_of_neg (by simp [h]), List.map_nil, List.sum_nil]

end Item

namespace Node

/-- An item of a tree and the items around it, the innermost first. -/
structure Place where
  item : Item
  around : List Item
deriving Repr

mutual

def places (around : List Item) : Node → List Place
  | .node item children => ⟨item, around⟩ :: placesOfAll (item :: around) children

def placesOfAll (around : List Item) : List Node → List Place
  | [] => []
  | n :: rest => n.places around ++ placesOfAll around rest

end

theorem placesOfAll_append (around : List Item) (nodes others : List Node) :
    placesOfAll around (nodes ++ others) =
      placesOfAll around nodes ++ placesOfAll around others := by
  induction nodes with
  | nil => rfl
  | cons n rest ih => rw [List.cons_append, placesOfAll, placesOfAll, ih, List.append_assoc]

/-- A place where a node has what the design tool reports of a layer. -/
structure Place.Keeps (p : Place) (l : Layer) : Prop where
  finite : ∀ edge, (l.coordinate edge).isFinite = true
  position : ∀ edge, Number.rational (l.coordinate edge) =
    p.item.distance edge + ((Item.groups p.around).map (Item.distance edge)).sum
  width : p.item.geometry.width = l.width
  height : p.item.geometry.height = l.height
  rotation : p.item.geometry.rotation = l.rotation

end Node

namespace NormalizeContext

open Node

variable {cx : NormalizeContext} {origin : Origin} {l : Layer} {item : Item} {around : List Item}

/-! ## One step down -/

theorem isFinite_of_fault? {depth : Nat} (h : fault? l depth origin = none) (edge : Edge) :
    (l.coordinate edge).isFinite = true := by
  unfold fault? at h
  split_ifs at h with hdepth hfinite
  have hgeometry : (l.geometry origin).isFinite = true := by
    cases hg : (l.geometry origin).isFinite with
    | true => rfl
    | false => exact absurd (by rw [hg]; rfl) hfinite
  simp only [Geometry.isFinite, Rect.isFinite, Bool.and_eq_true] at hgeometry
  obtain ⟨⟨⟨⟨hx, hy⟩, -⟩, -⟩, -⟩ := hgeometry
  cases edge with
  | left => exact (Number.isFinite_of_sub hx).1
  | top => exact (Number.isFinite_of_sub hy).1

theorem distance_of_geometry (h : item.geometry = l.geometry origin) (edge : Edge) :
    item.distance edge =
      Number.rational (l.coordinate edge) - Number.rational (origin.coordinate edge) := by
  rw [Item.distance, h]
  cases edge <;> rfl

/-- An item is placed in the space that its origin belongs to. -/
theorem keeps_of_geometry {depth : Nat} (hfault : fault? l depth origin = none)
    (h : item.geometry = l.geometry origin)
    (horigin : ∀ edge, Number.rational (origin.coordinate edge) = Item.corner edge around) :
    Place.Keeps ⟨item, around⟩ l where
  finite := isFinite_of_fault? hfault
  position edge := by
    show _ = _ + Item.corner edge around
    rw [distance_of_geometry h, horigin, sub_add_cancel]
  width := by rw [h]; rfl
  height := by rw [h]; rfl
  rotation := by rw [h]; rfl

/-- **The origin handed down is the corner**, whether the chain of groups goes on or ends here. -/
theorem rational_originInside_eq_corner (h : item.geometry = l.geometry origin)
    (horigin : ∀ edge, Number.rational (origin.coordinate edge) = Item.corner edge around)
    (edge : Edge) :
    Number.rational ((originInside l item.kind).coordinate edge) =
      Item.corner edge (item :: around) := by
  by_cases hgroup : item.kind = .group
  · rw [Item.corner_of_group hgroup, distance_of_geometry h, horigin, sub_add_cancel, hgroup]
    cases edge <;> rfl
  · have hreset : originInside l item.kind = {} := by
      unfold originInside
      split
      · exact absurd ‹_› hgroup
      · rfl
    rw [Item.corner_of_not_group hgroup, hreset]
    cases edge <;> exact Number.rational_zero

/-! ## Whole trees -/

mutual

/-- Every node of a tree keeps the place of the layer at its address. -/
theorem Becomes.keeps {depth : Nat} {origin : Origin} {address : Address} {s : Scene}
    {n? : Option Node} (h : cx.Becomes depth origin address s n?) {around : List Item}
    (horigin : ∀ edge, Number.rational (origin.coordinate edge) = Item.corner edge around) :
    ∀ p ∈ placesOfAll around n?.toList, ∃ path d, s.at? path = some d ∧
      p.item.address = address ++ path ∧ p.Keeps d.layer := by
  intro p hp
  cases h with
  | hidden => cases hp
  | alone hfault _ hitem | vector _ hfault _ hitem =>
    obtain rfl : p = _ := by simpa [placesOfAll, places] using hp
    subst hitem
    exact ⟨[], _, rfl, (List.append_nil _).symm, keeps_of_geometry hfault rfl horigin⟩
  | around hfault _ hitem _ hchildren =>
    subst hitem
    rcases (by simpa [placesOfAll, places] using hp) with rfl | hp
    · exact ⟨[], _, rfl, (List.append_nil _).symm, keeps_of_geometry hfault rfl horigin⟩
    · obtain ⟨i, path, d, hat, haddress, hkeeps⟩ :=
        hchildren.keep (rational_originInside_eq_corner rfl horigin) p hp
      refine ⟨i :: path, d, hat, ?_, hkeeps⟩
      rw [haddress, Nat.zero_add, List.append_assoc, List.singleton_append]

theorem AllBecome.keep {depth : Nat} {origin : Origin} {parent : Address} {position : Nat}
    {scenes : List Scene} {nodes : List Node}
    (h : cx.AllBecome depth origin parent position scenes nodes) {around : List Item}
    (horigin : ∀ edge, Number.rational (origin.coordinate edge) = Item.corner edge around) :
    ∀ p ∈ placesOfAll around nodes, ∃ i path d, scenes[i]?.bind (Scene.at? path) = some d ∧
      p.item.address = parent ++ [position + i] ++ path ∧ p.Keeps d.layer := by
  intro p hp
  cases h with
  | nil => cases hp
  | cons hfirst hrest =>
    rw [placesOfAll_append, List.mem_append] at hp
    rcases hp with hp | hp
    · obtain ⟨path, d, hat, haddress, hkeeps⟩ := hfirst.keeps horigin p hp
      exact ⟨0, path, d, hat, haddress, hkeeps⟩
    · obtain ⟨i, path, d, hat, haddress, hkeeps⟩ := hrest.keep horigin p hp
      refine ⟨i + 1, path, d, hat, ?_, hkeeps⟩
      rwa [Nat.add_right_comm] at haddress

end

/-- **Rebasing loses nothing.** Let a selection normalize. The layer at the address of any node is
reported where the node and the unbroken chain of groups right around it say together, and the node
has the size and the rotation that are reported. -/
theorem normalize_keeps_places (cx : NormalizeContext) (selection : Selection) (w : World)
    (nodes : Warned (List Node)) (hnodes : ((cx.normalize selection).runIn w).1 = .ok (.ok nodes)) :
    ∀ p ∈ placesOfAll [] nodes.value, ∃ s, selection.at? p.item.address = some s ∧
      p.Keeps s.layer := by
  intro p hp
  have horigin (edge : Edge) :
      Number.rational (Origin.coordinate {} edge) = Item.corner edge [] := by
    rw [Item.corner_nil]
    cases edge <;> exact Number.rational_zero
  obtain ⟨i, path, s, hat, haddress, hkeeps⟩ :=
    (cx.normalize_become selection w _ hnodes nodes rfl).keep horigin p hp
  rw [List.nil_append, Nat.zero_add, List.singleton_append] at haddress
  exact ⟨s, by rw [haddress]; exact hat, hkeeps⟩

/-- A dot in two groups in a component in a group: the component ends the chain of the dot, so what
counts for the dot are the two groups, and what counts for the component is the outermost one. -/
theorem normalize_keeps_dot_in_groups :
    let dot : Scene := .node
      { id := "dot", type := "ELLIPSE", x := 17.5, y := 27, width := 5, height := 5 } []
    let inner : Scene := .node { id := "inner", type := "GROUP", x := 15, y := 25 } [dot]
    let outer : Scene := .node { id := "outer", type := "GROUP", x := 10, y := 20 } [inner]
    let card : Scene := .node { id := "card", type := "COMPONENT", x := 130, y := 240 } [outer]
    let pile : Selection := [.node { id := "pile", type := "GROUP", x := 100, y := 200 } [card]]
    let cx : NormalizeContext := ⟨{}, ⟨fun _ => none, fun _ _ => .failed⟩, fun _ _ _ => pure none⟩
    ∃ nodes, ((cx.normalize pile).runIn {}).1 = .ok (.ok nodes) ∧
      ((placesOfAll [] nodes.value).map fun p =>
        (p.item.id, p.item.distance .left, (Item.groups p.around).map (·.id))) =
          [("pile", 100, []), ("card", 30, ["pile"]), ("outer", 10, []), ("inner", 5, ["outer"]),
            ("dot", 5 / 2, ["inner", "outer"])] ∧
      ∀ p ∈ placesOfAll [] nodes.value, ∃ s, Selection.at? pile p.item.address = some s ∧
        p.Keeps s.layer := by
  intro dot inner outer card pile cx
  have hplaces : ((((cx.normalize pile).runIn {}).1.toOption.bind (·.toOption)).map fun nodes =>
      (placesOfAll [] nodes.value).map fun p =>
        (p.item.id, p.item.distance .left, (Item.groups p.around).map (·.id))) =
      some [("pile", 100, []), ("card", 30, ["pile"]), ("outer", 10, []),
        ("inner", 5, ["outer"]), ("dot", 5 / 2, ["inner", "outer"])] := by decide +kernel
  rcases hrun : ((cx.normalize pile).runIn {}).1 with panic | failure | nodes
  · rw [hrun] at hplaces
    cases hplaces
  · rw [hrun] at hplaces
    cases hplaces
  · rw [hrun] at hplaces
    exact ⟨nodes, rfl, Option.some.inj hplaces, normalize_keeps_places cx pile {} nodes hrun⟩

end NormalizeContext

end Artboard
