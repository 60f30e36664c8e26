import Artboard.Number.Exact

/-!
# Comparing doubles

The comparisons of doubles are those of their exact forms. What is not a number is neither below nor
above anything, so `x ≤ y` says both that there are two numbers and that `y` is not below `x`.
-/

namespace Artboard.Number

open Float.Model (UnpackedFloat)

/-! ## Exact forms -/

/-- Exact forms compare the other way round if they change places. -/
theorem compare_swap (a b : UnpackedFloat) : b.compare a = (a.compare b).map Ordering.swap := by
  cases a with
  | notANumber =>
    cases b with
    | notANumber => rfl
    | infinity t | zero t | finite t => cases t <;> rfl
  | infinity s =>
    cases b with
    | notANumber => rfl
    | infinity t | zero t | finite t => cases s <;> cases t <;> rfl
  | zero s =>
    cases b with
    | notANumber => rfl
    | infinity t | zero t | finite t => cases t <;> rfl
  | finite s m e =>
    cases b with
    | notANumber => cases s <;> rfl
    | infinity t | zero t => cases s <;> cases t <;> rfl
    | finite t m' e' =>
      cases s <;> cases t <;> dsimp only [UnpackedFloat.compare] <;>
        simp [Ordering.swap_then, Std.OrientedCmp.eq_swap (a := e') (b := e),
          Std.OrientedCmp.eq_swap (a := m') (b := m)]

/-- Any two numbers compare. -/
theorem exists_compare_eq {a b : UnpackedFloat} (ha : a.isNaN = false) (hb : b.isNaN = false) :
    ∃ order, a.compare b = some order := by
  cases a with
  | notANumber => cases ha
  | infinity s | zero s | finite s =>
    cases b with
    | notANumber => cases hb
    | infinity t | zero t | finite t => cases s <;> cases t <;> exact ⟨_, rfl⟩

/-- Only zeros are equal to other forms. -/
theorem eq_or_zero_of_compare_eq {a b : UnpackedFloat} (h : a.compare b = some .eq) :
    a = b ∨ ∃ s t, a = .zero s ∧ b = .zero t := by
  cases a with
  | notANumber => cases h
  | infinity s =>
    cases b with
    | notANumber => cases s <;> cases h
    | infinity t => cases s <;> cases t <;> first | exact .inl rfl | cases h
    | zero t | finite t => cases s <;> cases h
  | zero s =>
    cases b with
    | notANumber => cases h
    | zero t => exact .inr ⟨s, t, rfl, rfl⟩
    | infinity t | finite t => cases t <;> cases h
  | finite s m e =>
    cases b with
    | notANumber => cases s <;> cases h
    | infinity t | zero t => cases s <;> cases t <;> cases h
    | finite t m' e' =>
      cases s <;> cases t <;> dsimp only [UnpackedFloat.compare] at h
      case positive.negative | negative.positive => cases h
      all_goals
        rw [Option.some_inj] at h
        simp only [Ordering.swap_eq_eq, Ordering.then_eq_eq, Std.compare_eq_iff_eq] at h
        obtain ⟨rfl, rfl⟩ := h
        exact .inl rfl

/-- What is equal to a form compares with everything as that form does. -/
theorem compare_congr {a b : UnpackedFloat} (h : a.compare b = some .eq) (c : UnpackedFloat) :
    a.compare c = b.compare c := by
  obtain rfl | ⟨s, t, rfl, rfl⟩ := eq_or_zero_of_compare_eq h
  · rfl
  · cases c with
    | notANumber | zero => rfl
    | infinity u | finite u => cases u <;> rfl

/-- Every number is equal to itself, and nothing else is. -/
theorem compare_self_eq_iff {a : UnpackedFloat} : a.compare a = some .eq ↔ a.isNaN = false := by
  cases a with
  | notANumber => exact ⟨nofun, nofun⟩
  | zero => exact iff_of_true rfl rfl
  | infinity s => cases s <;> exact iff_of_true rfl rfl
  | finite s m e =>
    refine iff_of_true ?_ rfl
    cases s <;> dsimp only [UnpackedFloat.compare] <;> simp

/-! ## Doubles -/

variable {x y : Float}

theorem le_iff : x ≤ y ↔ ((exact x).compare (exact y)).any (·.isLE) = true := by
  show decide (x.toModel ≤ y.toModel) = true ↔ _
  exact decide_eq_true_iff

theorem lt_iff : x < y ↔ (exact x).compare (exact y) = some .lt := by
  show decide (x.toModel < y.toModel) = true ↔ _
  rw [decide_eq_true_iff]
  exact beq_iff_eq

theorem beq_iff : (x == y) = true ↔ (exact x).compare (exact y) = some .eq := by
  show ((exact x).compare (exact y) == some .eq) = true ↔ _
  exact beq_iff_eq

theorem beq_comm : (x == y) = (y == x) := by
  rw [Bool.eq_iff_iff, beq_iff, beq_iff, compare_swap]
  rcases (exact y).compare (exact x) with _ | _ | _ | _ <;> simp

theorem beq_congr (h : (x == y) = true) (z : Float) : (x == z) = (y == z) := by
  rw [Bool.eq_iff_iff, beq_iff, beq_iff, compare_congr (beq_iff.1 h)]

/-- A double is equal to itself iff it is a number. -/
theorem beq_self_iff : (x == x) = true ↔ x.isNaN = false := beq_iff.trans compare_self_eq_iff

theorem le_iff_lt_or_beq : x ≤ y ↔ x < y ∨ (x == y) = true := by
  rw [le_iff, lt_iff, beq_iff]
  rcases (exact x).compare (exact y) with _ | _ | _ | _ <;> simp

theorem not_lt_of_le (h : x ≤ y) : ¬y < x := by
  rw [le_iff] at h
  rw [lt_iff, compare_swap]
  rcases horder : (exact x).compare (exact y) with _ | _ | _ | _
  · exact nofun
  · exact nofun
  · exact nofun
  · rw [horder] at h
    cases h

theorem not_le_of_lt (h : x < y) : ¬y ≤ x := fun hle => not_lt_of_le hle h

/-- Of two numbers one is at most the other. -/
theorem lt_of_not_le (hx : x.isNaN = false) (hy : y.isNaN = false) (h : ¬x ≤ y) : y < x := by
  obtain ⟨order, horder⟩ := exists_compare_eq (a := exact x) (b := exact y) hx hy
  rw [le_iff, horder] at h
  rw [lt_iff, compare_swap, horder]
  cases order with
  | gt => rfl
  | lt | eq => exact absurd rfl h

/-- What is at least something is a number. -/
theorem isNaN_eq_false_of_le (h : x ≤ y) : y.isNaN = false := by
  rw [le_iff, compare_swap] at h
  show (exact y).isNaN = false
  cases hy : exact y with
  | notANumber =>
    rw [hy] at h
    cases h
  | infinity | zero | finite => rfl

theorem isNaN_eq_false_of_isFinite (h : x.isFinite = true) : x.isNaN = false := by
  change (exact x).isFinite = true at h
  show (exact x).isNaN = false
  cases hx : exact x with
  | notANumber =>
    rw [hx] at h
    cases h
  | infinity | zero | finite => rfl

end Artboard.Number
