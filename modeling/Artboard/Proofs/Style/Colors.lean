import Artboard.Proofs.Style.Positions

/-!
# Colours of styles

Only fills, strokes and runs of text have colours; position, size, layout, corners, effects and
alignment have none. A background shows the topmost fill alone, and a gradient three of its stops at
most, so what is shown is part of what the item has.
-/

namespace Artboard

/-- The colour of a utility. -/
def Utility.color? : Utility → Option SolidFill
  | .color _ fill => some fill
  | _ => none

namespace Style

/-- The colours of some utilities. -/
def colors (utilities : List Utility) : List SolidFill := utilities.filterMap Utility.color?

@[simp] theorem colors_nil : colors [] = [] := rfl

@[simp] theorem colors_cons (u : Utility) (us : List Utility) :
    colors (u :: us) = u.color?.toList ++ colors us := by
  cases h : u.color? <;> simp [colors, h]

@[simp] theorem colors_append (us vs : List Utility) :
    colors (us ++ vs) = colors us ++ colors vs :=
  List.filterMap_append

@[simp] theorem colors_ite (c : Prop) [Decidable c] (us vs : List Utility) :
    colors (if c then us else vs) = if c then colors us else colors vs :=
  apply_ite colors c us vs

theorem mem_colors_iff {us : List Utility} {fill : SolidFill} :
    fill ∈ colors us ↔ ∃ role, .color role fill ∈ us := by
  rw [colors, List.mem_filterMap]
  constructor
  · rintro ⟨u, hu, hfill⟩
    cases u with
    | color role other =>
      obtain rfl := Option.some.inj hfill
      exact ⟨role, hu⟩
    | _ => cases hfill
  · rintro ⟨role, hu⟩
    exact ⟨_, hu, rfl⟩

/-- The class of a colour is that of its role and of its colour part. -/
theorem color_mem_classes {settings : Settings} {s : Style} {role : ColorRole} {fill : SolidFill}
    (h : .color role fill ∈ s.utilities) :
    settings.classPrefix ++ (role.word ++ "-" ++ fill.text settings) ∈ s.classes settings := by
  refine ClassList.mem_ofTexts.2 ⟨_, List.mem_map_of_mem h, ?_, rfl⟩
  intro hempty
  have hword := congrArg String.toList hempty
  rw [Utility.text, String.append_assoc, String.toList_append] at hword
  cases role <;> cases hword

variable {item : Item} {children : List Node} {parent : ParentContext}

@[simp] theorem colors_position : colors (position item parent) = [] := by
  simp [position, Utility.color?]

@[simp] theorem colors_size : colors (size item parent) = [] := by
  have haxis (sizing : LayoutSizing) (axis : Direction) (x : Float) :
      colors (axisSize sizing axis x parent) = [] := by
    unfold axisSize
    split <;> simp [Utility.color?]
  simp [size, haxis]

@[simp] theorem colors_effects : colors (effects item children) = [] := by
  simp [effects, Utility.color?]

@[simp] theorem colors_corners : colors (corners item) = [] := by
  unfold corners
  split
  · rfl
  · dsimp only
    split <;> simp [roundedCorner, Utility.color?]

theorem colors_padding (p : Padding) : colors (padding p) = [] := by
  simp [padding, positive, Utility.color?]

theorem colors_autoLayout (l : AutoLayout) : colors (autoLayout l) = [] := by
  have hprimary : colors (primaryAlign l.primary) = [] := by cases l.primary <;> rfl
  have hcounter : colors (counterAlign l.counter) = [] := by cases l.counter <;> rfl
  simp [autoLayout, hprimary, hcounter, colors_padding, positive, Utility.color?]

@[simp] theorem colors_childLayout : colors (childLayout item children) = [] := by
  unfold childLayout
  cases item.layout <;> simp [colors_autoLayout, Utility.color?]

@[simp] theorem colors_alignment (content : TextContent) : colors (alignment content) = [] := by
  unfold alignment
  cases content.alignHorizontal <;> cases content.alignVertical <;> rfl

theorem colors_whenSome {α : Type} {f : α → List Utility} (h : ∀ a, colors (f a) = [])
    (value : Option α) : colors (whenSome f value) = [] := by
  cases value with
  | none => rfl
  | some a => exact h a

/-- A run has no colour but its own. -/
theorem colors_run (settings : Settings) (s : RunStyle) :
    colors (run settings s) = s.color.toList := by
  have hweight (w : Nat) : colors (weight w) = [] := by simp [weight, Utility.color?]
  have hfamily (name : String) : colors (family settings name) = [] := by
    unfold family
    split_ifs
    · rfl
    · split <;> rfl
  have htracking (value : SpacingValue) : colors (tracking value) = [] := by
    unfold tracking
    cases value.unit <;> simp [Utility.color?]
  have hleading (value : SpacingValue) : colors (leading value) = [] := by
    unfold leading
    cases value.unit <;> simp [Utility.color?]
  have hdecoration : colors (decoration s.decoration) = [] := by cases s.decoration <;> rfl
  have hcase : colors (textCase s.textCase) = [] := by cases s.textCase <;> rfl
  have hsize (x : Float) : colors [.fontSize x] = [] := rfl
  have hcolor : colors (whenSome (fun fill => [.color .text fill]) s.color) = s.color.toList := by
    cases s.color <;> rfl
  simp [run, colors_whenSome hsize, colors_whenSome hweight, colors_whenSome hfamily, hdecoration,
    hcase, colors_whenSome htracking, colors_whenSome hleading, hcolor, Utility.color?]

/-- A gradient shows the colours of some of its stops. -/
theorem colors_gradientColors_subset (stops : List GradientStop) :
    colors (gradientColors stops) ⊆ stops.map (·.fill) := by
  have hmem {stop : GradientStop} (h : stop ∈ stops) : ∃ s ∈ stops, s.fill = stop.fill :=
    ⟨stop, h, rfl⟩
  unfold gradientColors
  split
  case h_1 first last hfirst hlast =>
    have hfirst := hmem (List.mem_of_head? hfirst)
    have hlast := hmem (List.mem_of_getLast? hlast)
    cases hmiddle : stops[stops.length / 2]? with
    | none => simpa [Utility.color?] using ⟨hfirst, hlast⟩
    | some middle =>
      have hmiddle := hmem (List.mem_of_getElem? hmiddle)
      split_ifs <;> simp [Utility.color?, *]
  case h_2 => exact List.nil_subset _

/-- The topmost fill is one of the fills. -/
theorem colors_background_subset (fills : List Fill) :
    colors (background fills) ⊆ fills.flatMap Fill.colors := by
  unfold background
  split
  case h_1 fill hlast =>
    simpa [Utility.color?] using ⟨_, List.mem_of_getLast? hlast, List.mem_singleton_self _⟩
  case h_2 g hlast =>
    intro fill hfill
    refine List.mem_flatMap.2 ⟨_, List.mem_of_getLast? hlast, colors_gradientColors_subset _ ?_⟩
    unfold gradient at hfill
    split_ifs at hfill
    · cases hfill
    · exact hfill
  all_goals exact List.nil_subset _

theorem colors_stroke_subset : colors (stroke item) ⊆ item.strokes.flatMap Fill.colors := by
  unfold stroke
  split
  case h_1 fill hlast =>
    split_ifs
    · exact List.nil_subset _
    · simpa [Utility.color?] using ⟨_, List.mem_of_getLast? hlast, List.mem_singleton_self _⟩
  case h_2 => exact List.nil_subset _

theorem colors_paint_subset :
    colors (paint item) ⊆ (item.fills ++ item.strokes).flatMap Fill.colors := by
  rw [paint, colors_append, colors_append, colors_corners, List.append_nil, List.flatMap_append]
  exact List.append_subset.2 ⟨List.subset_append_of_subset_left _ (colors_background_subset _),
    List.subset_append_of_subset_right _ colors_stroke_subset⟩

end Style
end Artboard
