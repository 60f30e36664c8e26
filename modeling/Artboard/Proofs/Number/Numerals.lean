import Artboard.Number.Decimal
import Mathlib.Data.List.Basic
import Mathlib.Tactic.SplitIfs

/-!
# Characters of numbers

A double is written with digits, a sign, a point, and letters if it is not finite. Other characters
do not occur, so the text of a number can stand wherever these mean nothing.
-/

namespace Artboard.Number

/-- Whether a character may stand in the text of a number. -/
def isNumeral (c : Char) : Bool := c.isDigit || "-.NaNinf".toList.contains c

def Numerals (cs : List Char) : Prop := ∀ c ∈ cs, isNumeral c = true

instance (cs : List Char) : Decidable (Numerals cs) := decidable_of_iff _ List.all_eq_true

/-- What holds of digits and of the other characters of numbers holds of a number. -/
theorem Numerals.forall {p : Char → Bool} {cs : List Char} (h : Numerals cs)
    (hdigit : ∀ c : Char, c.isDigit = true → p c = true)
    (hother : "-.NaNinf".toList.all p = true) : ∀ c ∈ cs, p c = true := by
  intro c hc
  have hnumeral := h c hc
  rw [isNumeral, Bool.or_eq_true, List.contains_iff_mem] at hnumeral
  exact hnumeral.elim (hdigit c) (List.all_eq_true.1 hother c)

theorem Numerals.append {cs ds : List Char} (hc : Numerals cs) (hd : Numerals ds) :
    Numerals (cs ++ ds) :=
  List.forall_mem_append.2 ⟨hc, hd⟩

theorem numerals_digits (n : Nat) : Numerals (digits n) := by
  intro c hc
  have hdigit := Nat.isDigit_of_mem_toDigits (by decide) (by decide) hc
  rw [isNumeral, hdigit, Bool.true_or]

theorem numerals_signText (s : Float.Model.UnpackedFloat.Sign) : Numerals (signText s) := by
  cases s <;> decide

theorem numerals_paddedDigits (width n : Nat) : Numerals (paddedDigits width n) := by
  refine Numerals.append (fun c hc => ?_) (numerals_digits n)
  rw [List.eq_of_mem_replicate hc]
  decide

theorem numerals_fixedDigits (places n : Nat) : Numerals (fixedDigits places n) := by
  unfold fixedDigits
  split_ifs
  · exact numerals_digits n
  · refine (numerals_digits _).append (List.forall_mem_cons.2 ⟨by decide, ?_⟩)
    exact numerals_paddedDigits _ _

theorem numerals_fixedChars (places : Nat) (x : Float) : Numerals (fixedChars places x) := by
  unfold fixedChars
  split
  · decide
  · exact (numerals_signText _).append (by decide)
  · exact (numerals_signText _).append (numerals_fixedDigits _ _)
  · exact (numerals_signText _).append (numerals_fixedDigits _ _)

theorem numerals_fixed (places : Nat) (x : Float) : Numerals (fixed places x).toList := by
  rw [fixed, String.toList_ofList]
  exact numerals_fixedChars places x

theorem dropTrailingZeros_subset (cs : List Char) : dropTrailingZeros cs ⊆ cs := by
  have hkept : cs.reverse.dropWhile (· == '0') ⊆ cs := fun c hc =>
    List.mem_reverse.1 (List.dropWhile_subset _ hc)
  simp only [dropTrailingZeros]
  split
  case h_1 rest hrest =>
    exact fun c hc => hkept (hrest ▸ List.mem_cons_of_mem _ (List.mem_reverse.1 hc))
  case h_2 => exact fun c hc => hkept (List.mem_reverse.1 hc)

theorem numerals_short (x : Float) : Numerals (short x).toList := by
  simp only [short, String.toList_ofList, shortChars]
  split_ifs
  · decide
  · exact fun c hc => numerals_fixedChars _ _ c (dropTrailingZeros_subset _ hc)

end Artboard.Number
