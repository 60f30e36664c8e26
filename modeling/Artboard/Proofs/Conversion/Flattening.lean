import Artboard.Proofs.Conversion.Results

/-!
# What flattening takes with it

A layer is drawn as one vector only if vectors are embedded, it is visible and untagged, and it is a
vector itself or a group or frame in which every visible layer is such a layer again. So no control
is lost as long as no such layer holds one (`normalize_flattens_no_control`).

Nothing else keeps controls from being lost. The layers inside are judged by their kinds alone, so a
vector tagged `#ignore` is drawn together with the vectors beside it (`flattened_icon_draws_guides`).
-/

namespace Artboard

namespace Scene

/-! ## Layers made of vectors -/

/-- A vector, or a group or frame with visible layers, all of which are made of vectors. -/
inductive VectorsOnly : Scene → Prop
  | vector {l : Layer} {children : List Scene} (hkind : NodeKind.ofType l.type = .vector) :
      VectorsOnly (.node l children)
  | around {l : Layer} {children : List Scene}
      (hkind : NodeKind.ofType l.type = .group ∨ NodeKind.ofType l.type = .frame)
      (hsome : ∃ s ∈ children, s.layer.visible = true)
      (hall : ∀ s ∈ children, s.layer.visible = true → VectorsOnly s) :
      VectorsOnly (.node l children)

theorem anyVisible_iff (scenes : List Scene) :
    anyVisible scenes = true ↔ ∃ s ∈ scenes, s.layer.visible = true := by
  induction scenes with
  | nil => simp [anyVisible]
  | cons s rest ih => simp [anyVisible, ih]

mutual

theorem isFlattenable_iff (s : Scene) : s.isFlattenable = true ↔ s.VectorsOnly := by
  match s with
  | .node l children =>
    rw [isFlattenable]
    have hinside : (anyVisible children && allFlattenable children) = true ↔
        (∃ s ∈ children, s.layer.visible = true) ∧
          ∀ s ∈ children, s.layer.visible = true → s.VectorsOnly := by
      rw [Bool.and_eq_true, anyVisible_iff, allFlattenable_iff]
    constructor
    · intro h
      split at h
      case h_1 hkind => exact .vector hkind
      case h_2 hkind => exact .around (.inl hkind) (hinside.1 h).1 (hinside.1 h).2
      case h_3 hkind => exact .around (.inr hkind) (hinside.1 h).1 (hinside.1 h).2
      case h_4 => cases h
    · rintro (hkind | ⟨hkind | hkind, hsome, hall⟩)
      · rw [hkind]
      · rw [hkind]
        exact hinside.2 ⟨hsome, hall⟩
      · rw [hkind]
        exact hinside.2 ⟨hsome, hall⟩

theorem allFlattenable_iff (scenes : List Scene) :
    allFlattenable scenes = true ↔ ∀ s ∈ scenes, s.layer.visible = true → s.VectorsOnly := by
  match scenes with
  | [] => simp [allFlattenable]
  | s :: rest =>
    rw [allFlattenable, Bool.and_eq_true, allFlattenable_iff rest, List.forall_mem_cons,
      Bool.or_eq_true, isFlattenable_iff s, Bool.not_eq_true', ← Bool.not_eq_true, imp_iff_not_or]

end

instance (s : Scene) : Decidable s.VectorsOnly := decidable_of_iff _ s.isFlattenable_iff

/-! ## Layers inside, and controls -/

mutual

/-- All layers inside a layer, each before those inside it. -/
def inside : Scene → List Scene
  | .node _ children => layersOf children

/-- Some layers and all layers inside them. -/
def layersOf : List Scene → List Scene
  | [] => []
  | s :: rest => s :: (s.inside ++ layersOf rest)

end

/-- Whether the tag of a layer is one that takes effect: any if it is visible, and also that of a
hidden instruction. -/
def isControl (s : Scene) : Bool :=
  s.layer.tag.value.isPrompt || s.layer.visible && s.layer.tag.value ≠ .none

theorem mem_layersOf_of_mem {s : Scene} {scenes : List Scene} (h : s ∈ scenes) :
    s ∈ layersOf scenes ∧ ∀ d ∈ s.inside, d ∈ layersOf scenes := by
  induction scenes with
  | nil => cases h
  | cons first rest ih =>
    rw [layersOf]
    rcases List.mem_cons.1 h with rfl | h
    · exact ⟨List.mem_cons_self, fun d hd => List.mem_cons_of_mem _ (List.mem_append_left _ hd)⟩
    · obtain ⟨hs, hinside⟩ := ih h
      exact ⟨List.mem_cons_of_mem _ (List.mem_append_right _ hs),
        fun d hd => List.mem_cons_of_mem _ (List.mem_append_right _ (hinside d hd))⟩

theorem mem_inside_of_at? {path : Address} {s d : Scene} (h : s.at? path = some d) :
    d = s ∨ d ∈ s.inside := by
  induction path generalizing s with
  | nil => exact .inl (Option.some.inj h).symm
  | cons i path ih =>
    obtain ⟨l, children⟩ := s
    obtain ⟨child, hchild, hd⟩ := Option.bind_eq_some_iff.1 h
    obtain ⟨hself, hbelow⟩ := mem_layersOf_of_mem (List.mem_of_getElem? hchild)
    rcases ih hd with rfl | hd
    · exact .inr hself
    · exact .inr (hbelow d hd)

end Scene

theorem Selection.mem_layersOf_of_at? {selection : Selection} {address : Address} {s : Scene}
    (h : selection.at? address = some s) : s ∈ Scene.layersOf selection := by
  cases address with
  | nil => cases h
  | cons i path =>
    obtain ⟨root, hroot, hs⟩ := Option.bind_eq_some_iff.1 h
    obtain ⟨hself, hbelow⟩ := Scene.mem_layersOf_of_mem (List.mem_of_getElem? hroot)
    rcases Scene.mem_inside_of_at? hs with rfl | hs
    · exact hself
    · exact hbelow s hs

namespace NormalizeContext

variable {cx : NormalizeContext}

/-! ## Flattened layers -/

/-- A layer with a vector of its own is drawn for that, untagged, and made of vectors. -/
theorem ItemOf.of_artifact {address : Address} {s : Scene} {item : Item}
    (h : cx.ItemOf address s item) (hartifact : item.artifact ≠ none) :
    cx.settings.embedVectors = true ∧ s.layer.tag.value = .none ∧ s.VectorsOnly := by
  cases h with
  | plain => exact absurd rfl hartifact
  | vector origin artifact hflattens =>
    simp only [flattens, Bool.and_eq_true, decide_eq_true_eq] at hflattens
    obtain ⟨⟨hsettings, htag⟩, hvectors⟩ := hflattens
    refine ⟨hsettings, ?_, s.isFlattenable_iff.1 hvectors⟩
    simp only [item] at htag
    split at htag
    · cases htag
    · exact htag

/-- **Flattening loses no control of a selection in which vectors hold none.** Let no untagged layer
that is made of vectors have a layer inside it whose tag takes effect. Then every item of a
normalization that carries a vector stands for a visible and untagged layer made of vectors, vectors
are embedded, and no tag inside the layer takes effect. -/
theorem normalize_flattens_no_control (cx : NormalizeContext) (selection : Selection) (w : World)
    (nodes : Warned (List Node))
    (hnodes : ((cx.normalize selection).runIn w).1 = .ok (.ok nodes))
    (hplain : ∀ s ∈ Scene.layersOf selection, s.layer.tag.value = .none → s.VectorsOnly →
      ∀ d ∈ s.inside, d.isControl = false) :
    ∀ item ∈ Node.itemsOfAll nodes.value, item.artifact ≠ none →
      ∃ s, selection.at? item.address = some s ∧ cx.settings.embedVectors = true ∧
        s.layer.visible = true ∧ s.layer.tag.value = .none ∧ s.VectorsOnly ∧
        ∀ d ∈ s.inside, d.isControl = false := by
  intro item hitem hartifact
  obtain ⟨s, hat, hkept, hof⟩ :=
    cx.normalize_exists_of_mem selection w _ hnodes nodes rfl item hitem
  obtain ⟨hsettings, htag, hvectors⟩ := hof.of_artifact hartifact
  have hvisible : s.layer.visible = true := by
    simpa [Layer.isKept, htag, LayerTag.isPrompt] using hkept
  exact ⟨s, hat, hsettings, hvisible, htag, hvectors,
    hplain s (Selection.mem_layersOf_of_at? hat) htag hvectors⟩

/-- An icon of two paths, one of them hidden and ignored, beside a title to be filled in. -/
theorem normalize_icon_beside_title :
    let icon : Scene := .node { id := "icon", name := "Icon", type := "GROUP" }
      [.ofType "outer" "VECTOR", .ofType "inner" "STAR",
        .node { id := "old", name := "#ignore", type := "VECTOR", visible := false } []]
    let title : Scene := .node { id := "title", name := "#slot:text:title", type := "TEXT" } []
    let card : Selection := [.node { id := "card", name := "Card", type := "FRAME" } [icon, title]]
    let host : Host := ⟨fun _ => none, fun _ _ => .done "<svg/>".toUTF8.toList⟩
    let cx : NormalizeContext := ⟨{ embedVectors := true }, host, fun _ _ _ => pure none⟩
    ∃ nodes, ((cx.normalize card).runIn {}).1 = .ok (.ok nodes) ∧
      (∃ item ∈ Node.itemsOfAll nodes.value, item.artifact ≠ none) ∧
      (∀ s ∈ Scene.layersOf card, s.layer.tag.value = .none → s.VectorsOnly →
        ∀ d ∈ s.inside, d.isControl = false) ∧
      ∀ item ∈ Node.itemsOfAll nodes.value, item.artifact ≠ none →
        ∃ s, Selection.at? card item.address = some s ∧ cx.settings.embedVectors = true ∧
          s.layer.visible = true ∧ s.layer.tag.value = .none ∧ s.VectorsOnly ∧
          ∀ d ∈ s.inside, d.isControl = false := by
  intro icon title card host cx
  have hrun : (match ((cx.normalize card).runIn {}).1 with
      | .ok (.ok nodes) => (Node.itemsOfAll nodes.value).any fun item => item.artifact ≠ none
      | _ => false) = true := by decide +kernel
  have hplain : ∀ s ∈ Scene.layersOf card, s.layer.tag.value = .none → s.VectorsOnly →
      ∀ d ∈ s.inside, d.isControl = false := by decide
  rcases hresult : ((cx.normalize card).runIn {}).1 with _ | _ | nodes
  · simp [hresult] at hrun
  · simp [hresult] at hrun
  · refine ⟨nodes, rfl, ?_, hplain, normalize_flattens_no_control cx card {} nodes hresult hplain⟩
    simpa [hresult] using hrun

/-- **Flattening takes no notice of the tags inside.** The guides of an icon are tagged `#ignore`
and visible, yet the icon is drawn as one vector, with the guides in it. -/
theorem flattened_icon_draws_guides :
    let guides : Scene := .node
      { id := "guides", name := "#ignore", type := "VECTOR", width := 24, height := 24 } []
    let path : Scene := .node
      { id := "path", name := "Path", type := "VECTOR", width := 24, height := 24 } []
    let icon : Scene := .node
      { id := "icon", name := "Icon", type := "GROUP", width := 24, height := 24 } [path, guides]
    let host : Host := ⟨fun _ => none, fun _ request =>
      if request.id = "icon" then .done "<svg>PATH AND GUIDES</svg>".toUTF8.toList else .failed⟩
    let cx : NormalizeContext := ⟨{ embedVectors := true }, host, fun _ _ _ => pure none⟩
    guides ∈ icon.inside ∧ guides.layer.visible = true ∧ guides.layer.tag.value = .ignore ∧
      Selection.at? [icon] [0] = some icon ∧
      (match ((cx.normalize [icon]).runIn {}).1 with
        | .ok (.ok nodes) =>
          (Node.itemsOfAll nodes.value).map fun item => (item.address, item.artifact)
        | _ => []) = [([0], some (.svg "<svg>PATH AND GUIDES</svg>"))] :=
  ⟨List.mem_cons_of_mem _ List.mem_cons_self, rfl, by decide, rfl, by decide +kernel⟩

end NormalizeContext

end Artboard
