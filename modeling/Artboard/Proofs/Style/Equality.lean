import Artboard.Node.Basic
import Artboard.Proofs.Number.Order

/-!
# Equal styles

Two styles of runs are compared field by field, and their numbers by value, so the two zeros are
equal and what is not a number is equal to nothing. The comparison is symmetric and transitive, and
a style is equal to itself iff all its numbers are numbers (`RunStyle.same_self_iff`).

Transitivity is stated as it is used: equal styles are equal to the same styles.
-/

namespace Artboard

/-! ## Values that may be absent -/

section BothOr

variable {α : Type} {same : α → α → Bool}

theorem bothOr_congr (hsame : ∀ a b, same a b = true → ∀ c, same a c = same b c) {a b : Option α}
    (h : bothOr same a b = true) (c : Option α) : bothOr same a c = bothOr same b c := by
  cases a <;> cases b
  case none.none => rfl
  case some.some a b =>
    cases c with
    | none => rfl
    | some c => exact hsame a b h c
  all_goals cases h

theorem bothOr_self_iff {a : Option α} : bothOr same a a = true ↔ ∀ x ∈ a, same x x = true := by
  cases a <;> simp [bothOr]

end BothOr

/-! ## Spacing and colours -/

namespace SpacingValue

theorem same_congr {a b : SpacingValue} (h : a.same b = true) (c : SpacingValue) :
    a.same c = b.same c := by
  simp only [same, Bool.and_eq_true, decide_eq_true_iff] at h ⊢
  rw [Number.beq_congr h.1, h.2]

theorem same_self_iff {a : SpacingValue} : a.same a = true ↔ a.value.isNaN = false := by
  rw [same, Bool.and_eq_true, Number.beq_self_iff]
  simp

end SpacingValue

namespace Rgba

def channels (c : Rgba) : List Float := [c.red, c.green, c.blue, c.alpha]

theorem equal_congr {a b : Rgba} (h : a.equal b = true) (c : Rgba) : a.equal c = b.equal c := by
  simp only [equal, Bool.and_eq_true] at h ⊢
  obtain ⟨⟨⟨hred, hgreen⟩, hblue⟩, halpha⟩ := h
  rw [Number.beq_congr hred, Number.beq_congr hgreen, Number.beq_congr hblue,
    Number.beq_congr halpha]

theorem equal_self_iff {a : Rgba} : a.equal a = true ↔ ∀ x ∈ a.channels, x.isNaN = false := by
  simp only [equal, channels, Bool.and_eq_true, Number.beq_self_iff, List.forall_mem_cons,
    and_assoc]
  simp

end Rgba

namespace SolidFill

theorem same_congr {a b : SolidFill} (h : a.same b = true) (c : SolidFill) :
    a.same c = b.same c := by
  simp only [same, Bool.and_eq_true, decide_eq_true_iff] at h ⊢
  rw [Rgba.equal_congr h.1, h.2]

theorem same_self_iff {a : SolidFill} :
    a.same a = true ↔ ∀ x ∈ a.color.channels, x.isNaN = false := by
  simp [same, Rgba.equal_self_iff]

end SolidFill

/-! ## Styles -/

namespace RunStyle

/-- The numbers of a style that are compared by value. -/
def numbers (s : RunStyle) : List Float :=
  s.fontSize.toList ++ s.letterSpacing.toList.map (·.value) ++ s.lineHeight.toList.map (·.value) ++
    s.color.toList.flatMap (·.color.channels)

/-- All numbers of the style are numbers. -/
def IsNumeric (s : RunStyle) : Prop := ∀ x ∈ s.numbers, x.isNaN = false

instance : DecidablePred IsNumeric := fun s =>
  inferInstanceAs (Decidable (∀ x ∈ s.numbers, x.isNaN = false))

/-- Equal styles are equal to the same styles. -/
theorem same_congr {a b : RunStyle} (h : a.same b = true) (c : RunStyle) :
    a.same c = b.same c := by
  simp only [same, Bool.and_eq_true, decide_eq_true_iff] at h
  obtain ⟨⟨⟨⟨⟨⟨⟨⟨⟨⟨hsize, hfamily⟩, hweight⟩, hitalic⟩, hdecoration⟩, hcase⟩, htracking⟩,
    hleading⟩, hcolor⟩, hsub⟩, hsuper⟩ := h
  simp only [same, hfamily, hweight, hitalic, hdecoration, hcase, hsub, hsuper,
    bothOr_congr (fun _ _ h => Number.beq_congr h) hsize,
    bothOr_congr (fun _ _ h => SpacingValue.same_congr h) htracking,
    bothOr_congr (fun _ _ h => SpacingValue.same_congr h) hleading,
    bothOr_congr (fun _ _ h => SolidFill.same_congr h) hcolor]

/-- **A style is equal to itself iff all its numbers are numbers.** -/
theorem same_self_iff {s : RunStyle} : s.same s = true ↔ s.IsNumeric := by
  simp only [IsNumeric, numbers, List.forall_mem_append, List.forall_mem_map,
    List.forall_mem_flatMap, Option.mem_toList]
  simp only [same, Bool.and_eq_true, bothOr_self_iff, Number.beq_self_iff,
    SpacingValue.same_self_iff, SolidFill.same_self_iff]
  simp

end RunStyle

end Artboard
