import Artboard.Conversion.Emit
import Mathlib.Tactic

/-!
# Where elements are placed

Two words say how an element is placed: `absolute` puts it at coordinates, and `relative` makes it
the frame of the coordinates inside it. No other utility is written as one of them, so a class list
has one of the words iff the utility is among those of the style (`Style.mem_classes_iff`).

**Positions** (`Style.positions`). The utilities of a style that place an element: the two words and
the coordinates. Size, effects, paint and text have none.

**Marks** (`Style.marked`). The positions, and the utilities that fill the background. Hardly any
part of a style has marks, so what holds of positions and of backgrounds alike is said of marks.
-/

namespace Artboard

/-! ## Class lists -/

namespace ClassList

variable {classPrefix text c : String} {classes texts : List String}

theorem mem_add : c ∈ add classPrefix classes text ↔
    c ∈ classes ∨ text ≠ "" ∧ c = classPrefix ++ text := by
  unfold add
  by_cases htext : text = ""
  · simp [htext]
  · rw [if_neg (by simpa using htext)]
    dsimp only
    split_ifs with hmem
    · rw [List.contains_iff_mem] at hmem
      exact ⟨.inl, fun h => h.elim id fun h => h.2 ▸ hmem⟩
    · simp [htext]

/-- The classes are those of the texts that are not empty. -/
theorem mem_ofTexts : c ∈ ofTexts classPrefix texts ↔
    ∃ text ∈ texts, text ≠ "" ∧ c = classPrefix ++ text := by
  have hfoldl (classes : List String) : c ∈ texts.foldl (add classPrefix) classes ↔
      c ∈ classes ∨ ∃ text ∈ texts, text ≠ "" ∧ c = classPrefix ++ text := by
    induction texts generalizing classes with
    | nil => simp
    | cons text rest ih => simp [ih, mem_add, or_assoc]
  simpa [ofTexts] using hfoldl []

end ClassList

/-! ## Words -/

/-- A choice among some values, two at a time, is one of them. -/
theorem foldl_mem_cons {α : Type*} {choose : α → α → α}
    (h : ∀ a b, choose a b = a ∨ choose a b = b) (a : α) (values : List α) :
    values.foldl choose a ∈ a :: values := by
  induction values generalizing a with
  | nil => exact List.mem_cons_self
  | cons b rest ih =>
    have hmem := ih (choose a b)
    rw [List.foldl_cons]
    rcases h a b with heq | heq <;> rw [heq] at hmem ⊢
    · exact List.cons_subset_cons _ (List.subset_cons_self _ _) hmem
    · exact List.mem_cons_of_mem _ hmem

namespace Scale

/-- What a value snaps onto is the label of an entry. -/
theorem exists_of_snap {raw percent : Float} {scale : List (Float × String)} {label : String}
    (h : snap raw scale percent = some label) : ∃ value, (value, label) ∈ scale := by
  have hnearer (best next : Float × String) :
      nearer raw best next = best ∨ nearer raw best next = next := by
    unfold nearer
    split_ifs <;> simp
  unfold snap at h
  split at h
  case h_1 => cases h
  case h_2 value label' hnearest =>
    split_ifs at h
    obtain rfl := Option.some.inj h
    cases scale with
    | nil => cases hnearest
    | cons entry rest =>
      exact ⟨value, Option.some.inj hnearest ▸ foldl_mem_cons hnearer entry rest⟩

theorem prefix_radiusClass (settings : Settings) (x : Float) :
    "rounded".toList <+: (radiusClass settings x).toList := by
  have hwritten : "rounded".toList <+: ("rounded-[" ++ Number.pixels x ++ "]").toList := by
    rw [String.append_assoc, String.toList_append]
    exact List.IsPrefix.trans (by decide) (List.prefix_append _ _)
  have hlabels : ∀ entry ∈ radii, "rounded".toList <+: entry.2.toList := by decide
  unfold radiusClass
  split_ifs
  · cases hsnap : snap x radii settings.rounding.threshold with
    | none => exact hwritten
    | some label =>
      obtain ⟨value, hmem⟩ := exists_of_snap hsnap
      exact hlabels _ hmem
  · exact hwritten

end Scale

namespace Utility

/-- Whether a utility says where the element, or what is inside it, is placed. -/
def isPosition : Utility → Bool
  | .keyword .absolute | .keyword .relative | .offset _ _ => true
  | _ => false

/-- Whether a utility fills the background with a colour or an image. -/
def isBackground : Utility → Bool
  | .color .background _ | .backgroundImage _ => true
  | _ => false

/-- How the class of a utility begins, whatever its data and the settings are. A word is all there
is. -/
def beginning : Utility → String
  | .keyword word => word.text
  | .offset edge _ => edge.text ++ "-"
  | .length extent _ => extent.text ++ "-"
  | .radius _ | .cornerRadius _ _ => "rounded"
  | .opacity _ => "opacity-"
  | .rotation _ => "rotate-"
  | .color role _ => role.word ++ "-"
  | .gradient _ => "bg-gradient-"
  | .backgroundImage _ => "bg-"
  | .border side _ => side.text
  | .fontSize _ => "text-"
  | .fontWeight _ | .fontKey _ | .fontFamily _ => "font-"
  | .tracking _ => "tracking-"
  | .leading _ => "leading-"

theorem prefix_beginning (settings : Settings) (u : Utility) :
    u.beginning.toList <+: (u.text settings).toList := by
  have hstart {b start rest : String} (h : b.toList <+: start.toList := by decide) :
      b.toList <+: (start ++ rest).toList := by
    rw [String.toList_append]
    exact h.trans (List.prefix_append _ _)
  cases u with
  | keyword word => exact List.prefix_rfl
  | offset edge coordinate => exact hstart List.prefix_rfl
  | length extent x => exact hstart List.prefix_rfl
  | radius x => exact Scale.prefix_radiusClass settings x
  | color role fill => exact hstart List.prefix_rfl
  | opacity x =>
    simp only [beginning, text, Scale.opacityClass, String.append_assoc]
    split <;> exact hstart
  | border side x =>
    simp only [beginning, text, borderText, String.append_assoc]
    split_ifs
    · exact List.prefix_rfl
    · exact hstart List.prefix_rfl
    · exact hstart List.prefix_rfl
  | fontSize x =>
    simp only [beginning, text, Scale.fontSizeClass, String.append_assoc]
    split_ifs
    · split <;> exact hstart
    · exact hstart
  | fontWeight weight =>
    simp only [beginning, text, fontWeightText, String.append_assoc]
    split
    case h_9 => exact hstart
    all_goals decide
  | fontFamily family =>
    simp only [beginning, text, fontFamilyText, String.append_assoc]
    exact hstart
  | cornerRadius | rotation | gradient | backgroundImage | fontKey | tracking | leading =>
    simp only [beginning, text, String.append_assoc]
    exact hstart

/-- The beginnings of utilities that are neither words nor backgrounds. -/
def beginnings : List String :=
  ["left-", "top-", "w-", "h-", "gap-", "p-", "px-", "py-", "pt-", "pr-", "pb-", "pl-", "rounded",
    "opacity-", "rotate-", "from-", "via-", "to-", "border", "text-", "bg-gradient-", "font-",
    "tracking-", "leading-"]

theorem exists_beginning (settings : Settings) {u : Utility} (hword : ∀ word, u ≠ .keyword word)
    (hbackground : u.isBackground = false) :
    ∃ b ∈ beginnings, b.toList <+: (u.text settings).toList := by
  have hbegin : ∃ b ∈ beginnings, b.toList <+: u.beginning.toList := by
    cases u with
    | keyword word => exact absurd rfl (hword word)
    | offset edge coordinate => cases edge <;> simp only [beginning] <;> decide
    | length extent x => cases extent <;> simp only [beginning] <;> decide
    | color role fill =>
      cases role with
      | background => cases hbackground
      | gradientFrom | gradientVia | gradientTo | border | text => simp only [beginning]; decide
    | backgroundImage url => cases hbackground
    | border side x => cases side <;> simp only [beginning] <;> decide
    | radius | cornerRadius | opacity | rotation | gradient | fontSize | fontWeight | fontKey
    | fontFamily | tracking | leading => simp only [beginning]; decide
  obtain ⟨b, hmem, hb⟩ := hbegin
  exact ⟨b, hmem, hb.trans (u.prefix_beginning settings)⟩

theorem prefix_of_isBackground (settings : Settings) {u : Utility} (h : u.isBackground = true) :
    "bg-".toList <+: (u.text settings).toList := by
  refine List.IsPrefix.trans ?_ (u.prefix_beginning settings)
  cases u with
  | color role fill =>
    cases role with
    | background => exact List.prefix_rfl
    | gradientFrom | gradientVia | gradientTo | border | text => cases h
  | backgroundImage url => exact List.prefix_rfl
  | _ => cases h

/-- No class of another utility is one of the two words. -/
theorem text_ne {settings : Settings} {u : Utility} {word : Keyword}
    (hword : word = .absolute ∨ word = .relative) (hu : u ≠ .keyword word) :
    u.text settings ≠ word.text := by
  have hbegin : ∀ b ∈ "bg-" :: beginnings,
      ¬ b.toList <+: "absolute".toList ∧ ¬ b.toList <+: "relative".toList := by decide
  have hother (b : String) (hmem : b ∈ "bg-" :: beginnings)
      (hb : b.toList <+: (u.text settings).toList) : u.text settings ≠ word.text := by
    intro heq
    rw [heq] at hb
    rcases hword with rfl | rfl
    · exact (hbegin b hmem).1 hb
    · exact (hbegin b hmem).2 hb
  by_cases hkeyword : ∃ other, u = .keyword other
  · obtain ⟨other, rfl⟩ := hkeyword
    have hne : other ≠ word := fun h => hu (congrArg keyword h)
    show other.text ≠ word.text
    rcases hword with rfl | rfl <;> revert hne <;> cases other <;> decide
  · cases hbackground : u.isBackground with
    | true => exact hother "bg-" List.mem_cons_self (prefix_of_isBackground settings hbackground)
    | false =>
      obtain ⟨b, hmem, hb⟩ :=
        exists_beginning settings (fun other h => hkeyword ⟨other, h⟩) hbackground
      exact hother b (List.mem_cons_of_mem _ hmem) hb

end Utility

namespace Style

/-- A class list has one of the two words iff the style has. -/
theorem mem_classes_iff {settings : Settings} {s : Style} {word : Keyword}
    (hword : word = .absolute ∨ word = .relative) :
    settings.classPrefix ++ word.text ∈ s.classes settings ↔ .keyword word ∈ s.utilities := by
  have htext : word.text ≠ "" := by rcases hword with rfl | rfl <;> decide
  simp only [classes, ClassList.mem_ofTexts, List.mem_map, String.append_right_inj]
  constructor
  · rintro ⟨_, ⟨u, hu, rfl⟩, -, heq⟩
    by_contra hnot
    exact Utility.text_ne hword (fun h => hnot (h ▸ hu)) heq.symm
  · exact fun hu => ⟨_, ⟨_, hu, rfl⟩, htext, rfl⟩

/-! ## Positions -/

/-- The utilities that place an element or what is inside it. -/
def positions (utilities : List Utility) : List Utility := utilities.filter Utility.isPosition

@[simp] theorem positions_nil : positions [] = [] := rfl

@[simp] theorem positions_append (us vs : List Utility) :
    positions (us ++ vs) = positions us ++ positions vs :=
  List.filter_append us vs

theorem mem_positions_iff {us : List Utility} {u : Utility} (hu : u.isPosition = true) :
    u ∈ positions us ↔ u ∈ us := by
  rw [positions, List.mem_filter, and_iff_left hu]

/-- The utilities that place an element or fill its background. -/
def marked (utilities : List Utility) : List Utility :=
  utilities.filter fun u => u.isPosition || u.isBackground

theorem marked_nil : marked [] = [] := rfl

theorem marked_append (us vs : List Utility) : marked (us ++ vs) = marked us ++ marked vs :=
  List.filter_append us vs

theorem positions_marked (us : List Utility) : positions (marked us) = positions us := by
  rw [positions, positions, marked, List.filter_filter]
  exact List.filter_congr fun u _ => by cases u.isPosition <;> rfl

theorem positions_of_marked {us : List Utility} (h : marked us = []) : positions us = [] := by
  rw [← positions_marked, h, positions_nil]

variable {item : Item} {children : List Node} {parent : ParentContext}

@[simp] theorem positions_position : positions (position item parent) = position item parent := by
  unfold position
  split_ifs <;> rfl

theorem marked_size : marked (size item parent) = [] := by
  have haxis (sizing : LayoutSizing) (axis : Direction) (x : Float) :
      marked (axisSize sizing axis x parent) = [] := by
    unfold axisSize
    split
    · rfl
    · split_ifs <;> cases axis <;> rfl
    · rfl
  unfold size
  split_ifs <;> simp [marked_nil, marked_append, haxis]

@[simp] theorem positions_size : positions (size item parent) = [] :=
  positions_of_marked marked_size

theorem marked_effects : marked (effects item children) = [] := by
  unfold effects
  dsimp only
  split_ifs <;> rfl

@[simp] theorem positions_effects : positions (effects item children) = [] :=
  positions_of_marked marked_effects

/-! ### Paint -/

theorem marked_gradient (g : LinearGradient) : marked (gradient g) = [] := by
  have hcolors : marked (gradientColors g.stops) = [] := by
    unfold gradientColors
    split
    · split_ifs
      · cases g.stops[g.stops.length / 2]? <;> rfl
      · rfl
    · rfl
  unfold gradient
  split_ifs
  · rfl
  · exact hcolors

theorem marked_background (fills : List Fill) :
    marked (background fills) =
      match fills.getLast? with
      | some (.solid fill) => [.color .background fill]
      | some (.image _) | some (.gradient _) | none => [] := by
  unfold background
  rcases fills.getLast? with _ | _ | _ | g
  · rfl
  · rfl
  · rfl
  · exact marked_gradient g

theorem positions_background (fills : List Fill) : positions (background fills) = [] := by
  rw [← positions_marked, marked_background]
  rcases fills.getLast? with _ | _ | _ | _ <;> rfl

theorem marked_stroke : marked (stroke item) = [] := by
  unfold stroke
  split
  · split_ifs <;> rfl
  · rfl

@[simp] theorem positions_stroke : positions (stroke item) = [] :=
  positions_of_marked marked_stroke

theorem marked_corners : marked (corners item) = [] := by
  have hcorner (corner : Corner) (x : Float) : marked (roundedCorner corner x) = [] := by
    unfold roundedCorner
    split_ifs <;> rfl
  unfold corners
  split
  · rfl
  · dsimp only
    split
    · split_ifs <;> rfl
    · simp [marked_append, hcorner]

@[simp] theorem positions_paint : positions (paint item) = [] := by
  simp [paint, positions_background, positions_of_marked marked_corners]

/-! ### Layout of children -/

theorem marked_positive (extent : Extent) (x : Float) : marked (positive extent x) = [] := by
  unfold positive
  split_ifs <;> rfl

theorem marked_padding (p : Padding) : marked (padding p) = [] := by
  unfold padding
  split_ifs <;> simp [marked_append, marked_positive]

theorem marked_autoLayout (l : AutoLayout) : marked (autoLayout l) = [] := by
  have hdirection : marked (.keyword .flex ::
      if l.direction = .column then [.keyword .flexColumn] else []) = [] := by
    split_ifs <;> rfl
  have hwrap : marked (if l.wrap then [.keyword .flexWrap] else []) = [] := by
    split_ifs <;> rfl
  have hprimary : marked (primaryAlign l.primary) = [] := by cases l.primary <;> rfl
  have hcounter : marked (counterAlign l.counter) = [] := by cases l.counter <;> rfl
  have hgap : marked (if l.primary ≠ .spaceBetween then positive .gap l.gap else []) = [] := by
    split_ifs
    · exact marked_positive _ _
    · rfl
  simp only [autoLayout, marked_append, hdirection, hwrap, hprimary, hcounter, hgap,
    marked_padding, List.append_nil]

/-- What makes a node the frame of the coordinates inside it. -/
def frame (item : Item) (children : List Node) : List Utility :=
  if hasAbsoluteChildren item children then [.keyword .relative] else []

theorem positions_frame : positions (frame item children) = frame item children := by
  unfold frame
  split_ifs <;> rfl

theorem marked_childLayout : marked (childLayout item children) = frame item children := by
  have hframe : marked (frame item children) = frame item children := by
    unfold frame
    split_ifs <;> rfl
  rw [childLayout, ← frame, marked_append, hframe]
  cases item.layout with
  | none => rfl
  | some l => rw [marked_autoLayout, List.nil_append]

@[simp] theorem positions_childLayout :
    positions (childLayout item children) = frame item children := by
  rw [← positions_marked, marked_childLayout, positions_frame]

/-! ### Text -/

theorem marked_alignment (content : TextContent) : marked (alignment content) = [] := by
  unfold alignment
  cases content.alignHorizontal <;> cases content.alignVertical <;> rfl

@[simp] theorem positions_alignment (content : TextContent) :
    positions (alignment content) = [] :=
  positions_of_marked (marked_alignment content)

theorem marked_whenSome {α : Type} {f : α → List Utility} (h : ∀ a, marked (f a) = [])
    (value : Option α) : marked (whenSome f value) = [] := by
  cases value with
  | none => rfl
  | some a => exact h a

theorem marked_weight (w : Nat) : marked (weight w) = [] := by
  unfold weight
  split_ifs <;> rfl

theorem marked_family (settings : Settings) (name : String) :
    marked (family settings name) = [] := by
  unfold family
  split_ifs
  · rfl
  · split <;> rfl

theorem marked_tracking (s : SpacingValue) : marked (tracking s) = [] := by
  unfold tracking
  split_ifs
  · rfl
  · cases s.unit <;> rfl

theorem marked_leading (s : SpacingValue) : marked (leading s) = [] := by
  unfold leading
  split_ifs
  · cases s.unit <;> rfl
  · rfl

theorem marked_run (settings : Settings) (s : RunStyle) : marked (run settings s) = [] := by
  have hsize := marked_whenSome (f := fun x => [.fontSize x]) (fun _ => rfl) s.fontSize
  have hcolor := marked_whenSome (f := fun fill => [.color .text fill]) (fun _ => rfl) s.color
  have hitalic : marked (if s.italic then [.keyword .italic] else []) = [] := by
    split_ifs <;> rfl
  have hdecoration : marked (decoration s.decoration) = [] := by cases s.decoration <;> rfl
  have hcase : marked (textCase s.textCase) = [] := by cases s.textCase <;> rfl
  simp only [run, marked_append, hsize, hcolor, hitalic, hdecoration, hcase,
    marked_whenSome marked_weight, marked_whenSome (marked_family settings),
    marked_whenSome marked_tracking, marked_whenSome marked_leading, List.append_nil]

@[simp] theorem positions_run (settings : Settings) (s : RunStyle) :
    positions (run settings s) = [] :=
  positions_of_marked (marked_run settings s)

end Style

end Artboard
