import Artboard.Proofs.Number.Order
import Artboard.Settings.Change
import Mathlib.Tactic.SplitIfs

/-!
# Edited settings are in range

Settings are in range if their threshold is between 0 and 50 and their base font size is a positive
number. What is in range is read as it is stored (`InRange.threshold_eq`, `InRange.fontSize_eq`).

The standard settings are in range, and so is all that edits make of them, whatever slots they name,
whatever values they give, and whether they succeed or fail (`foldl_apply_inRange`): a changed
document is read again as a whole and checked as a whole, and the font families have no range.
-/

namespace Artboard

namespace Settings

variable {s changed : Settings} {edit : Edit} {error : SettingsError}

/-! ## Ranges -/

structure InRange (s : Settings) : Prop where
  threshold_nonneg : 0 ≤ s.rounding.thresholdPercent
  threshold_le : s.rounding.thresholdPercent ≤ 50
  fontSize_finite : s.baseFontSize.isFinite = true
  fontSize_pos : 0 < s.baseFontSize

theorem inRange_init : ({} : Settings).InRange where
  threshold_nonneg := by decide
  threshold_le := by decide
  fontSize_finite := by decide
  fontSize_pos := by decide

/-- The check of changed settings is that of their range. -/
theorem fault?_eq_none_iff : s.fault? = none ↔ s.InRange := by
  unfold fault?
  dsimp only
  split_ifs with hthreshold hsize
  · refine iff_of_false nofun fun h => ?_
    simp [h.threshold_nonneg, Rounding.maxThreshold, h.threshold_le] at hthreshold
  · refine iff_of_false nofun fun h => ?_
    simp [h.fontSize_finite, Number.not_le_of_lt h.fontSize_pos] at hsize
  · simp only [Bool.not_eq_true', Bool.not_eq_false, Bool.and_eq_true, decide_eq_true_eq]
      at hthreshold
    simp only [Bool.or_eq_true, Bool.not_eq_true', decide_eq_true_eq, not_or,
      Bool.not_eq_false] at hsize
    obtain ⟨hfinite, hpos⟩ := hsize
    refine iff_of_true rfl ⟨hthreshold.1, hthreshold.2, hfinite, ?_⟩
    exact Number.lt_of_not_le (Number.isNaN_eq_false_of_isFinite hfinite) (by decide) hpos

namespace InRange

/-- A threshold in range is not clamped. -/
theorem threshold_eq (h : s.InRange) : s.rounding.threshold = s.rounding.thresholdPercent := by
  have hnumber := Number.isNaN_eq_false_of_le h.threshold_nonneg
  have hbelow := Number.not_lt_of_le h.threshold_nonneg
  have habove : ¬Rounding.maxThreshold < s.rounding.thresholdPercent :=
    Number.not_lt_of_le h.threshold_le
  rw [Rounding.threshold, hnumber, Bool.false_or, decide_eq_false hbelow,
    if_neg Bool.false_ne_true, if_neg habove]

/-- Nothing stands in for a font size in range. -/
theorem fontSize_eq (h : s.InRange) : s.fontSize = s.baseFontSize := by
  simp [fontSize, h.fontSize_finite, h.fontSize_pos]

/-! ## Edits -/

/-- The font families have no part in it. -/
theorem withFamilies (h : s.InRange) {text : String} (hedit : s.withFamilies text = .ok changed) :
    changed.InRange := by
  have hsame (families : List (String × List String)) :
      ({ s with fontFamilies := families } : Settings).InRange :=
    ⟨h.threshold_nonneg, h.threshold_le, h.fontSize_finite, h.fontSize_pos⟩
  unfold Settings.withFamilies at hedit
  split_ifs at hedit
  · cases hedit
    exact hsame []
  · split at hedit
    · cases hedit
      exact hsame _
    · cases hedit

end InRange

/-- Whatever the settings were, a change that succeeds leaves them in range. -/
theorem inRange_of_change {key : String} {value : Json} (hedit : s.change key value = .ok changed) :
    changed.InRange := by
  unfold change at hedit
  split at hedit
  · cases hedit
  split at hedit
  · cases hedit
  split at hedit
  case h_1 => cases hedit
  case h_2 hfault =>
    cases hedit
    exact fault?_eq_none_iff.1 hfault

theorem InRange.apply (h : s.InRange) (edit : Edit) : (s.apply edit).InRange := by
  unfold Settings.apply
  cases hedit : s.edited edit with
  | error error => exact h
  | ok changed =>
    cases edit with
    | slot key value => exact inRange_of_change hedit
    | families text => exact h.withFamilies hedit

/-- An edit that fails might as well not have been asked for. -/
theorem apply_of_error (h : s.edited edit = .error error) : s.apply edit = s := by
  rw [apply, h]

/-! ## Runs of edits -/

theorem InRange.foldl_apply (h : s.InRange) (edits : List Edit) :
    (edits.foldl Settings.apply s).InRange := by
  induction edits generalizing s with
  | nil => exact h
  | cons edit rest ih => exact ih (h.apply edit)

/-- **Whatever edits make of the standard settings is in range,** so that it is read as it is
stored, and an edit that fails on the way leaves no trace: neither in the settings right behind it
nor in those at the end. -/
theorem foldl_apply_inRange (edits : List Edit) :
    let reached := edits.foldl Settings.apply {}
    reached.InRange ∧ reached.rounding.threshold = reached.rounding.thresholdPercent ∧
      reached.fontSize = reached.baseFontSize ∧
      ∀ edit error, reached.edited edit = .error error →
        reached.apply edit = reached ∧
          ∀ later : List Edit, (edits ++ edit :: later).foldl Settings.apply {} =
            (edits ++ later).foldl Settings.apply {} := by
  have hreached := inRange_init.foldl_apply edits
  refine ⟨hreached, hreached.threshold_eq, hreached.fontSize_eq, fun edit error herror => ?_⟩
  have hsame := apply_of_error herror
  refine ⟨hsame, fun later => ?_⟩
  rw [List.foldl_append, List.foldl_append, List.foldl_cons, hsame]

end Settings

end Artboard
