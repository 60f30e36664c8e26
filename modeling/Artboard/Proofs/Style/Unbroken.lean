import Artboard.Proofs.Style.Colors
import Artboard.Proofs.Style.Tokens

/-!
# Data that break no class

Which data come into the classes of an element: the variables of its colours, the names of font
families, and the keys that stand for them. If these break no class into tokens, no part of a style
does (`Style.Unbroken`). The class of a variable never does, whatever its name is
(`blankFree_variableToken`): names are split at blanks, and no capital has a blank as its small
letter.
-/

namespace Artboard

open Text (BlankFree)

/-! ## Classes of variables -/

namespace Text

/-- The code points of blanks: first and last of each range. -/
def blankRanges : List (Nat × Nat) :=
  [(9, 13), (0x20, 0x20), (0x85, 0x85), (0xA0, 0xA0), (0x1680, 0x1680), (0x2000, 0x200A),
    (0x2028, 0x2029), (0x202F, 0x202F), (0x205F, 0x205F), (0x3000, 0x3000)]

theorem exists_range_of_isBlank {c : Char} (h : isBlank c = true) :
    ∃ r ∈ blankRanges, r.1 ≤ c.toNat ∧ c.toNat ≤ r.2 := by
  simp only [isBlank, Bool.or_eq_true, Bool.and_eq_true, decide_eq_true_eq, beq_iff_eq] at h
  simp only [blankRanges, List.exists_mem_cons_iff, List.not_mem_nil, false_and, exists_false]
  omega

/-- No capital has a blank as its small letter: the small letters of no run come to one. -/
theorem isBlank_small {c : Char} (h : isBlank c = false) : isBlank (small c) = false := by
  have htable : ∀ run ∈ capitalRuns, ∀ r ∈ blankRanges,
      (r.2 : Int) < run.1 + run.2.2.2 ∨ run.2.1 + run.2.2.2 < (r.1 : Int) := by decide +kernel
  unfold small
  dsimp only
  split
  case h_2 => exact h
  case h_1 first last step distance hfind =>
    rw [← Bool.not_eq_true]
    intro hblank
    obtain ⟨r, hr, hlow, hhigh⟩ := exists_range_of_isBlank hblank
    have hvalue (n : Nat) (hn : 9 ≤ (Char.ofNat n).toNat) : (Char.ofNat n).toNat = n := by
      by_cases hvalid : n.isValidChar
      · rw [Char.ofNat, dif_pos hvalid]
        rfl
      · rw [Char.ofNat, dif_neg hvalid] at hn
        exact absurd hn (by decide)
    have hpositive : ∀ r ∈ blankRanges, 9 ≤ r.1 := by decide
    have hsmall := hvalue _ ((hpositive r hr).trans hlow)
    rw [hsmall] at hlow hhigh
    have hrange := List.find?_some hfind
    simp only [Bool.and_eq_true, decide_eq_true_eq] at hrange
    have hrun := htable _ (List.mem_of_find?_eq_some hfind) r hr
    have hfirst := hpositive r hr
    dsimp only at hrun
    omega

end Text

/-- **The class of a variable has no blank.** -/
theorem blankFree_variableToken (name : String) : BlankFree (variableToken name) := by
  intro c hc
  rcases exists_of_mem_variableToken hc with hc | ⟨d, hd, -, rfl⟩
  · have hspecial : ['ς', 'σ', 'i', '\u0307'].all (fun c => !Text.isBlank c) = true := by decide
    simpa using List.all_eq_true.1 hspecial c hc
  · exact Text.isBlank_small hd

/-! ## Styles -/

namespace RunStyle

/-- What a run of text has from the layer breaks no class. -/
structure Unbroken (s : RunStyle) : Prop where
  color : ∀ fill ∈ s.color, fill.Unbroken
  family : ∀ family ∈ s.fontFamily, Text.OnlySpaces family

end RunStyle

namespace Style

variable {item : Item} {children : List Node} {parent : ParentContext} {us vs : List Utility}

/-- No class of the utilities is broken by data. -/
def Unbroken (us : List Utility) : Prop := ∀ u ∈ us, u.Unbroken

theorem Unbroken.append (hu : Unbroken us) (hv : Unbroken vs) : Unbroken (us ++ vs) :=
  List.forall_mem_append.2 ⟨hu, hv⟩

theorem unbroken_nil : Unbroken [] := List.forall_mem_nil _

theorem Unbroken.ite {c : Prop} [Decidable c] (hu : Unbroken us) (hv : Unbroken vs) :
    Unbroken (if c then us else vs) := by
  split_ifs
  · exact hu
  · exact hv

theorem unbroken_position : Unbroken (position item parent) := by
  unfold position
  split_ifs <;> simp [Unbroken, Utility.Unbroken]

theorem unbroken_size : Unbroken (size item parent) := by
  have haxis (sizing : LayoutSizing) (axis : Direction) (x : Float) :
      Unbroken (axisSize sizing axis x parent) := by
    unfold axisSize
    split
    · exact unbroken_nil
    · split_ifs <;> simp [Unbroken, Utility.Unbroken]
    · simp [Unbroken, Utility.Unbroken]
  exact (Unbroken.ite (haxis _ _ _) unbroken_nil).append (.ite (haxis _ _ _) unbroken_nil)

theorem unbroken_effects : Unbroken (effects item children) := by
  unfold effects
  dsimp only
  split_ifs <;> simp [Unbroken, Utility.Unbroken]

theorem unbroken_positive (extent : Extent) (x : Float) : Unbroken (positive extent x) := by
  unfold positive
  split_ifs <;> simp [Unbroken, Utility.Unbroken]

theorem unbroken_padding (p : Padding) : Unbroken (padding p) := by
  unfold padding
  split_ifs
  · exact unbroken_positive _ _
  · exact (unbroken_positive _ _).append (unbroken_positive _ _)
  · exact (((unbroken_positive _ _).append (unbroken_positive _ _)).append
      (unbroken_positive _ _)).append (unbroken_positive _ _)

theorem unbroken_autoLayout (l : AutoLayout) : Unbroken (autoLayout l) := by
  have hdirection : Unbroken (.keyword .flex ::
      if l.direction = .column then [.keyword .flexColumn] else []) := by
    split_ifs <;> simp [Unbroken, Utility.Unbroken]
  have hwrap : Unbroken (if l.wrap then [.keyword .flexWrap] else []) := by
    split_ifs <;> simp [Unbroken, Utility.Unbroken]
  have hprimary : Unbroken (primaryAlign l.primary) := by
    cases l.primary <;> simp [primaryAlign, Unbroken, Utility.Unbroken]
  have hcounter : Unbroken (counterAlign l.counter) := by
    cases l.counter <;> simp [counterAlign, Unbroken, Utility.Unbroken]
  have hgap : Unbroken (if l.primary ≠ .spaceBetween then positive .gap l.gap else []) :=
    .ite (unbroken_positive _ _) unbroken_nil
  exact ((((hdirection.append hwrap).append hprimary).append hcounter).append hgap).append
    (unbroken_padding _)

theorem unbroken_childLayout : Unbroken (childLayout item children) := by
  unfold childLayout
  refine .append ?_ (.ite (by simp [Unbroken, Utility.Unbroken]) unbroken_nil)
  cases item.layout with
  | none => exact unbroken_nil
  | some l => exact unbroken_autoLayout l

theorem unbroken_corners : Unbroken (corners item) := by
  have hcorner (corner : Corner) (x : Float) : Unbroken (roundedCorner corner x) := by
    unfold roundedCorner
    split_ifs <;> simp [Unbroken, Utility.Unbroken]
  unfold corners
  split
  · simp [Unbroken, Utility.Unbroken]
  · dsimp only
    split
    · split_ifs <;> simp [Unbroken, Utility.Unbroken]
    · exact (((hcorner _ _).append (hcorner _ _)).append (hcorner _ _)).append (hcorner _ _)

theorem unbroken_alignment (content : TextContent) : Unbroken (alignment content) := by
  unfold alignment
  cases content.alignHorizontal <;> cases content.alignVertical <;>
    simp [horizontalAlign, verticalAlign, Unbroken, Utility.Unbroken]

/-! ### Paint -/

theorem unbroken_gradientColors {stops : List GradientStop}
    (h : ∀ stop ∈ stops, stop.fill.Unbroken) : Unbroken (gradientColors stops) := by
  unfold gradientColors
  split
  case h_1 first last hfirst hlast =>
    have hfirst : Unbroken [.color .gradientFrom first.fill] :=
      List.forall_mem_singleton.2 (h _ (List.mem_of_head? hfirst))
    have hlast : Unbroken [.color .gradientTo last.fill] :=
      List.forall_mem_singleton.2 (h _ (List.mem_of_getLast? hlast))
    refine (hfirst.append (.ite ?_ unbroken_nil)).append hlast
    cases hmiddle : stops[stops.length / 2]? with
    | none => exact unbroken_nil
    | some middle => exact List.forall_mem_singleton.2 (h _ (List.mem_of_getElem? hmiddle))
  case h_2 => exact unbroken_nil

theorem unbroken_background {fills : List Fill}
    (h : ∀ fill ∈ fills.flatMap Fill.colors, fill.Unbroken) : Unbroken (background fills) := by
  unfold background
  split
  case h_1 fill hlast =>
    exact List.forall_mem_singleton.2
      (h fill (List.mem_flatMap.2 ⟨_, List.mem_of_getLast? hlast, List.mem_singleton_self _⟩))
  case h_2 g hlast =>
    have hcolors : Unbroken (gradientColors g.stops) := unbroken_gradientColors fun stop hstop =>
      h stop.fill (List.mem_flatMap.2
        ⟨_, List.mem_of_getLast? hlast, List.mem_map_of_mem hstop⟩)
    exact .ite unbroken_nil (List.forall_mem_cons.2 ⟨trivial, hcolors⟩)
  all_goals exact unbroken_nil

theorem unbroken_stroke (h : ∀ fill ∈ item.strokes.flatMap Fill.colors, fill.Unbroken) :
    Unbroken (stroke item) := by
  unfold stroke
  split
  case h_1 fill hlast =>
    have hfill : fill.Unbroken :=
      h fill (List.mem_flatMap.2 ⟨_, List.mem_of_getLast? hlast, List.mem_singleton_self _⟩)
    exact .ite unbroken_nil (List.forall_mem_cons.2 ⟨trivial, List.forall_mem_singleton.2 hfill⟩)
  case h_2 => exact unbroken_nil

theorem unbroken_paint
    (h : ∀ fill ∈ (item.fills ++ item.strokes).flatMap Fill.colors, fill.Unbroken) :
    Unbroken (paint item) := by
  rw [List.flatMap_append, List.forall_mem_append] at h
  exact ((unbroken_background h.1).append unbroken_corners).append (unbroken_stroke h.2)

/-! ### Text -/

theorem unbroken_whenSome {α : Type} {f : α → List Utility} {value : Option α}
    (h : ∀ a ∈ value, Unbroken (f a)) : Unbroken (whenSome f value) := by
  cases value with
  | none => exact unbroken_nil
  | some a => exact h a rfl

/-- A configured family is written by its key, and any other by its name. -/
theorem unbroken_family {settings : Settings} {name : String}
    (hkeys : ∀ entry ∈ settings.fontFamilies, BlankFree entry.1)
    (hname : Text.OnlySpaces name) :
    Unbroken (family settings name) := by
  refine .ite unbroken_nil ?_
  split
  case h_1 key hkey =>
    obtain ⟨entry, hentry, rfl⟩ := Option.map_eq_some_iff.1 hkey
    exact List.forall_mem_singleton.2 (hkeys _ (List.mem_of_find?_eq_some hentry))
  case h_2 => exact List.forall_mem_singleton.2 hname

theorem unbroken_tracking (s : SpacingValue) : Unbroken (tracking s) := by
  refine .ite unbroken_nil ?_
  cases s.unit with
  | pixels => exact List.forall_mem_singleton.2 (Number.blankFree_pixels _)
  | percent =>
    exact List.forall_mem_singleton.2 ((Number.blankFree_short _).append (t := "em") (by decide))
  | auto => exact unbroken_nil

theorem unbroken_leading (s : SpacingValue) : Unbroken (leading s) := by
  refine .ite ?_ unbroken_nil
  cases s.unit with
  | pixels => exact List.forall_mem_singleton.2 (Number.blankFree_pixels _)
  | percent => exact List.forall_mem_singleton.2 (Number.blankFree_short _)
  | auto => exact unbroken_nil

theorem unbroken_run {settings : Settings} {s : RunStyle}
    (hkeys : ∀ entry ∈ settings.fontFamilies, BlankFree entry.1) (h : s.Unbroken) :
    Unbroken (run settings s) := by
  have hplain {u : Utility} (hu : u.Unbroken) : Unbroken [u] := List.forall_mem_singleton.2 hu
  have hsize : Unbroken (whenSome (fun x => [.fontSize x]) s.fontSize) :=
    unbroken_whenSome fun x _ => hplain trivial
  have hweight : Unbroken (whenSome weight s.fontWeight) :=
    unbroken_whenSome fun w _ => .ite unbroken_nil (hplain trivial)
  have hitalic : Unbroken (if s.italic then [.keyword .italic] else []) :=
    .ite (hplain trivial) unbroken_nil
  have hfamily : Unbroken (whenSome (family settings) s.fontFamily) :=
    unbroken_whenSome fun name hname => unbroken_family hkeys (h.family name hname)
  have hdecoration : Unbroken (decoration s.decoration) := by
    cases s.decoration <;> simp [decoration, Unbroken, Utility.Unbroken]
  have hcase : Unbroken (textCase s.textCase) := by
    cases s.textCase <;> simp [textCase, Unbroken, Utility.Unbroken]
  have hcolor : Unbroken (whenSome (fun fill => [.color .text fill]) s.color) :=
    unbroken_whenSome fun fill hfill => hplain (h.color fill hfill)
  exact (((((((hsize.append hweight).append hitalic).append hfamily).append hdecoration).append
    hcase).append (unbroken_whenSome fun _ _ => unbroken_tracking _)).append
      (unbroken_whenSome fun _ _ => unbroken_leading _)).append hcolor

end Style

end Artboard
