import Artboard.Text.Blank
import Mathlib.Data.List.DropRight
import Mathlib.Data.List.TakeWhile

/-!
# Trimmed texts

Every text is its trim with blanks on both sides (`exists_trim`), and blanks on both sides of a
trimmed text are what trimming removes (`trim_between`). A text is trimmed iff neither its first nor
its last character is a blank (`trimmed_iff`).

The first piece of a text ends before the first character it is split at (`exists_pieces`), so the
first word of a text without a blank in front ends before its first blank (`headD_words`). Blanks at
the end of a text only reach the last piece of it (`exists_pieces_append`), and are trimmed off there.
-/

namespace Artboard.Text

variable {p : Char → Bool} {cs before after : List Char}

/-- Nothing but blanks. -/
def Blanks (cs : List Char) : Prop := ∀ c ∈ cs, isBlank c = true

/-- No blanks at either end. -/
def Trimmed (cs : List Char) : Prop := trim cs = cs

/-! ## One end -/

theorem trimStart_of_head (h : ∀ c ∈ cs.head?, isBlank c = false) : trimStart cs = cs := by
  cases cs with
  | nil => rfl
  | cons c cs => exact List.dropWhile_cons_of_neg (by rw [h c rfl]; exact Bool.false_ne_true)

theorem head_dropWhile_eq_false (p : Char → Bool) (cs : List Char) :
    ∀ c ∈ (cs.dropWhile p).head?, p c = false := by
  intro c hc
  have hhead := List.head?_dropWhile_not p cs
  rw [Option.mem_def.1 hc] at hhead
  exact hhead

theorem isBlank_head_trimStart : ∀ c ∈ (trimStart cs).head?, isBlank c = false :=
  head_dropWhile_eq_false isBlank cs

theorem trimEnd_eq (cs : List Char) : trimEnd cs = (trimStart cs.reverse).reverse := rfl

theorem trimEnd_of_getLast (h : ∀ c ∈ cs.getLast?, isBlank c = false) : trimEnd cs = cs := by
  rw [trimEnd_eq, trimStart_of_head (by rwa [List.head?_reverse]), List.reverse_reverse]

theorem isBlank_getLast_trimEnd : ∀ c ∈ (trimEnd cs).getLast?, isBlank c = false := by
  rw [trimEnd_eq, List.getLast?_reverse]
  exact isBlank_head_trimStart

theorem trimEnd_prefix (cs : List Char) : trimEnd cs <+: cs := List.rdropWhile_prefix isBlank cs

theorem Blanks.trimStart_append (h : Blanks before) : trimStart (before ++ cs) = trimStart cs :=
  List.dropWhile_append_of_pos h

theorem Blanks.trimEnd_append (h : Blanks after) : trimEnd (cs ++ after) = trimEnd cs := by
  have hreverse : Blanks after.reverse := fun c hc => h c (List.mem_reverse.1 hc)
  rw [trimEnd_eq, List.reverse_append, hreverse.trimStart_append, trimEnd_eq]

theorem exists_trimStart (cs : List Char) : ∃ before, Blanks before ∧ cs = before ++ trimStart cs :=
  ⟨cs.takeWhile isBlank, fun _ => List.mem_takeWhile_imp, List.takeWhile_append_dropWhile.symm⟩

theorem exists_trimEnd (cs : List Char) : ∃ after, Blanks after ∧ cs = trimEnd cs ++ after :=
  ⟨cs.rtakeWhile isBlank, fun _ => List.mem_rtakeWhile_imp,
    (List.rdropWhile_append_rtakeWhile (p := isBlank)).symm⟩

/-! ## Both ends -/

theorem trimmed_iff :
    Trimmed cs ↔
      (∀ c ∈ cs.head?, isBlank c = false) ∧ ∀ c ∈ cs.getLast?, isBlank c = false := by
  constructor
  · intro h
    refine ⟨fun c hc => ?_, ?_⟩
    · rw [← h] at hc
      obtain ⟨rest, hrest⟩ := trimEnd_prefix (trimStart cs)
      have hstart : c ∈ (trimStart cs).head? := by
        rw [← hrest, List.head?_append]
        exact Option.mem_def.2 (Option.or_eq_some_iff.2 (.inl hc))
      exact isBlank_head_trimStart c hstart
    · rw [← h]
      exact isBlank_getLast_trimEnd
  · rintro ⟨hhead, hlast⟩
    rw [Trimmed, trim, trimStart_of_head hhead, trimEnd_of_getLast hlast]

theorem Blanks.trim_append_left (h : Blanks before) : trim (before ++ cs) = trim cs := by
  rw [trim, h.trimStart_append, trim]

theorem Blanks.trim_append_right (h : Blanks after) : trim (cs ++ after) = trim cs := by
  rw [trim, trimStart, List.dropWhile_append, trim, trimStart]
  split_ifs with hempty
  · rw [List.isEmpty_iff.1 hempty, List.dropWhile_eq_nil_iff.2 h]
  · exact h.trimEnd_append

theorem trim_between {t : List Char} (hbefore : Blanks before) (ht : Trimmed t)
    (hafter : Blanks after) : trim (before ++ t ++ after) = t := by
  rw [hafter.trim_append_right, hbefore.trim_append_left, ht]

theorem exists_trim (cs : List Char) :
    ∃ before after, Blanks before ∧ Blanks after ∧ cs = before ++ trim cs ++ after := by
  obtain ⟨before, hbefore, hstart⟩ := exists_trimStart cs
  obtain ⟨after, hafter, hend⟩ := exists_trimEnd (trimStart cs)
  exact ⟨before, after, hbefore, hafter, by rw [List.append_assoc, trim, ← hend, ← hstart]⟩

theorem trimmed_trim (cs : List Char) : Trimmed (trim cs) := by
  obtain ⟨before, after, hbefore, hafter, hcs⟩ := exists_trim cs
  have htrim := congrArg trim hcs
  rw [hafter.trim_append_right, hbefore.trim_append_left] at htrim
  exact htrim.symm

/-! ## Pieces -/

/-- The first piece ends where a character of the class is met. -/
theorem exists_pieces (p : Char → Bool) (cs : List Char) :
    ∃ rest, pieces p cs = cs.takeWhile (fun c => !p c) :: rest := by
  induction cs with
  | nil => exact ⟨[], rfl⟩
  | cons c cs ih =>
    obtain ⟨rest, hrest⟩ := ih
    by_cases hc : p c = true
    · exact ⟨pieces p cs, by simp [pieces, hc]⟩
    · exact ⟨rest, by simp [pieces, hc, hrest]⟩

/-- The first word of a text without a blank in front. -/
theorem headD_words (h : ∀ c ∈ cs.head?, isBlank c = false) :
    (words cs).headD [] = cs.takeWhile fun c => !isBlank c := by
  cases cs with
  | nil => rfl
  | cons c cs =>
    obtain ⟨rest, hrest⟩ := exists_pieces isBlank (c :: cs)
    rw [words, fieldsOf, hrest]
    simp [h c rfl]

/-- Text without a character of the class only reaches the last piece. -/
theorem exists_pieces_append (hafter : ∀ c ∈ after, p c = false) (cs : List Char) :
    ∃ front last, pieces p cs = front ++ [last] ∧
      pieces p (cs ++ after) = front ++ [last ++ after] := by
  induction cs with
  | nil => exact ⟨[], [], rfl, pieces_of_free hafter⟩
  | cons c cs ih =>
    obtain ⟨front, last, hpieces, happend⟩ := ih
    by_cases hc : p c = true
    · exact ⟨[] :: front, last, by simp [pieces, hc, hpieces], by simp [pieces, hc, happend]⟩
    · cases front with
      | nil => exact ⟨[], c :: last, by simp [pieces, hc, hpieces], by simp [pieces, hc, happend]⟩
      | cons piece front =>
        exact ⟨(c :: piece) :: front, last, by simp [pieces, hc, hpieces],
          by simp [pieces, hc, happend]⟩

/-- Blanks at the end are trimmed off the last piece. -/
theorem Blanks.map_trim_pieces_append (hafter : Blanks after)
    (hp : ∀ c, isBlank c = true → p c = false) (cs : List Char) :
    (pieces p (cs ++ after)).map trim = (pieces p cs).map trim := by
  obtain ⟨front, last, hpieces, happend⟩ :=
    exists_pieces_append (fun c hc => hp c (hafter c hc)) cs
  rw [hpieces, happend, List.map_append, List.map_append, List.map_singleton, List.map_singleton,
    hafter.trim_append_right]

end Artboard.Text
