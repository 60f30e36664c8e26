import Artboard.Proofs.Markup.Reading

/-!
# Comments are read as comments

A comment ends at the first terminator behind its start, so it is read back as one token if its
text holds none, also not together with the beginning of its own terminator (`reads_comment`). The
text of a generated comment keeps to that whatever it says, as every terminator in it is broken up
by a blank (`reads_renderComment`).
-/

namespace Artboard.Markup

variable {mode : Mode} {cs : List Char}

/-! ## Texts without a terminator -/

theorem step_comment {seen : List Char} {c : Char} (h : ¬ commentEnd mode <:+ seen ++ [c]) :
    (Position.comment seen).step mode c = some ([], .comment (seen ++ [c])) := by
  rw [Position.step, if_neg]
  rwa [List.isSuffixOf_iff_suffix]

theorem step_comment_of_suffix {text : List Char} {seen : List Char} {c : Char}
    (h : seen ++ [c] = text ++ commentEnd mode) :
    (Position.comment seen).step mode c = some ([.comment text], .text) := by
  have hlength : seen.length + 1 = text.length + (commentEnd mode).length := by
    simpa using congrArg List.length h
  have hpositive : 0 < (commentEnd mode).length := by cases mode <;> decide
  have htake : seen.take text.length = text := by
    have hle : text.length ≤ seen.length := by omega
    rw [← List.take_append_of_le_length hle, h, List.take_left]
  rw [Position.step, h, if_pos (List.isSuffixOf_iff_suffix.2 (List.suffix_append _ _)), hlength,
    Nat.add_sub_cancel, htake]

theorem reads_inComment {seen : List Char} (h : ¬ commentEnd mode <:+: seen ++ cs) :
    Reads mode (.comment seen) cs [] (.comment (seen ++ cs)) := by
  induction cs generalizing seen with
  | nil => simpa using Reads.nil
  | cons c cs ih =>
    rw [List.append_cons] at h ⊢
    have hend : ¬ commentEnd mode <:+ seen ++ [c] := fun hsuffix =>
      h (hsuffix.isInfix.trans (List.prefix_append _ _).isInfix)
    exact .cons (step_comment hend) (ih h)

/-- A comment is read as one if no terminator comes before its own. -/
theorem reads_comment {text marks : List Char} {last : Char}
    (hend : commentEnd mode = marks ++ [last]) (h : ¬ commentEnd mode <:+: text ++ marks) :
    Reads mode .text (commentStart mode ++ text ++ commentEnd mode) [.comment text] .text := by
  have hstart : Reads mode .text (commentStart mode) [] (.comment []) := by cases mode <;> rfl
  have hinside : Reads mode (.comment []) (text ++ marks) [] (.comment (text ++ marks)) :=
    reads_inComment h
  have hlast : Reads mode (.comment (text ++ marks)) [last] [.comment text] .text :=
    .one (step_comment_of_suffix (by rw [hend, List.append_assoc]))
  rw [hend, List.append_assoc, ← List.append_assoc text]
  exact hstart.append (hinside.append hlast)

/-! ## Broken terminators -/

/-- What does not hold a character stands on one side of it. -/
theorem infix_append_cons_iff {e : List Char} {c : Char} (h : c ∉ e) (ds : List Char) :
    e <:+: cs ++ c :: ds ↔ e <:+: cs ∨ e <:+: ds := by
  constructor
  · intro hinfix
    obtain hcs | hds | ⟨front, back, rfl, hfront, hback⟩ := List.infix_append_iff.1 hinfix
    · exact .inl hcs
    · obtain hprefix | hds := List.infix_cons_iff.1 hds
      · obtain rfl | ⟨rest, rfl, -⟩ := List.prefix_cons_iff.1 hprefix
        · exact .inl List.nil_infix
        · exact absurd List.mem_cons_self h
      · exact .inr hds
    · obtain rfl | ⟨rest, rfl, -⟩ := List.prefix_cons_iff.1 hback
      · exact .inl (by simpa using hfront.isInfix)
      · exact absurd (List.mem_append_right front List.mem_cons_self) h
  · rintro (hcs | hds)
    · exact List.infix_append_of_infix_left hcs
    · exact List.infix_append_of_infix_right (List.infix_cons hds)

theorem head?_breakDashes (text : List Char) : (breakDashes text).head? = text.head? := by
  unfold breakDashes
  split <;> rfl

theorem head?_breakStars (text : List Char) : (breakStars text).head? = text.head? := by
  unfold breakStars
  split <;> rfl

theorem not_infix_cons {e : List Char} {c : Char} (hhead : ¬ e <+: c :: cs) (h : ¬ e <:+: cs) :
    ¬ e <:+: c :: cs := by
  rw [List.infix_cons_iff, not_or]
  exact ⟨hhead, h⟩

/-- Where a broken text goes on with the rest of a terminator, so did the text. -/
theorem exists_of_prefix_breakDashes {text : List Char} (h : ['-', '>'] <+: breakDashes text) :
    ∃ rest, text = '-' :: '>' :: rest := by
  unfold breakDashes at h
  split at h
  case h_1 => simp [List.cons_prefix_cons] at h
  case h_2 c rest _ =>
    obtain ⟨rfl, hrest⟩ := List.cons_prefix_cons.1 h
    obtain ⟨more, hmore⟩ := hrest
    have hhead : rest.head? = some '>' := by
      rw [← head?_breakDashes, ← hmore]
      rfl
    obtain ⟨rest, rfl⟩ := List.head?_eq_some_iff.1 hhead
    exact ⟨rest, rfl⟩
  case h_3 => simp at h

theorem not_infix_breakDashes (text : List Char) : ¬ ['-', '-', '>'] <:+: breakDashes text := by
  fun_induction breakDashes text with
  | case1 rest ih =>
    refine not_infix_cons ?_ (not_infix_cons ?_ (not_infix_cons ?_ (not_infix_cons ?_ ih)))
    all_goals simp [List.cons_prefix_cons]
  | case2 c rest hc ih =>
    refine not_infix_cons (fun h => ?_) ih
    obtain ⟨rfl, hrest⟩ := List.cons_prefix_cons.1 h
    obtain ⟨rest, rfl⟩ := exists_of_prefix_breakDashes hrest
    exact hc rest rfl rfl
  | case3 => decide

theorem not_infix_breakStars (text : List Char) : ¬ ['*', '/'] <:+: breakStars text := by
  fun_induction breakStars text with
  | case1 rest ih =>
    refine not_infix_cons ?_ (not_infix_cons ?_ (not_infix_cons ?_ ih))
    all_goals simp [List.cons_prefix_cons]
  | case2 c rest hc ih =>
    refine not_infix_cons (fun h => ?_) ih
    obtain ⟨rfl, more, hmore⟩ := List.cons_prefix_cons.1 h
    have hhead : rest.head? = some '/' := by
      rw [← head?_breakStars, ← hmore]
      rfl
    obtain ⟨rest, rfl⟩ := List.head?_eq_some_iff.1 hhead
    exact hc rest rfl rfl
  | case3 => decide

/-! ## Generated comments -/

/-- The text of a generated comment. -/
def commentText (mode : Mode) (text : List Char) : List Char :=
  match mode with
  | .html => ' ' :: breakDashes text ++ [' ']
  | .jsx => ' ' :: breakStars text ++ [' ']

/-- The text with its terminators broken up. -/
def broken : Mode → List Char → List Char
  | .html => breakDashes
  | .jsx => breakStars

theorem commentText_eq (mode : Mode) (text : List Char) :
    commentText mode text = ' ' :: (broken mode text ++ [' ']) := by
  cases mode <;> rfl

/-- What has no blank stands in the broken text or outside the blanks around it. -/
theorem infix_commentText_iff {e text : List Char} (h : ' ' ∉ e) (before after : List Char) :
    e <:+: before ++ commentText mode text ++ after ↔
      e <:+: before ∨ e <:+: broken mode text ∨ e <:+: after := by
  have hsplit : before ++ commentText mode text ++ after =
      before ++ ' ' :: (broken mode text ++ ' ' :: after) := by simp [commentText_eq]
  rw [hsplit, infix_append_cons_iff h, infix_append_cons_iff h]

theorem not_infix_broken (mode : Mode) (text : List Char) :
    ¬ commentEnd mode <:+: broken mode text := by
  cases mode with
  | html => exact not_infix_breakDashes text
  | jsx =>
    have hstars : ['*', '/'] <:+: commentEnd .jsx := ⟨[], ['\x7d'], rfl⟩
    exact fun h => not_infix_breakStars text (hstars.trans h)

theorem not_infix_commentText {marks : List Char} (h : ¬ commentEnd mode <:+: marks)
    (text : List Char) : ¬ commentEnd mode <:+: commentText mode text ++ marks := by
  rw [← List.nil_append (commentText mode text), infix_commentText_iff (by cases mode <;> decide)]
  rintro (hnil | hbroken | hmarks)
  · cases mode <;> exact absurd hnil (by decide)
  · exact not_infix_broken mode text hbroken
  · exact h hmarks

/-- **A comment is read as one comment,** whatever its text. -/
theorem reads_renderComment (mode : Mode) (text : List Char) :
    Reads mode .text (renderComment mode text)
      [.char '\n', .comment (commentText mode text)] .text := by
  cases mode with
  | html =>
    refine (reads_line _).append (?_ : Reads .html .text
      ("<!-- ".toList ++ breakDashes text ++ " -->".toList) _ _)
    have h : ¬ commentEnd .html <:+: commentText .html text ++ ['-', '-'] :=
      not_infix_commentText (by decide) text
    simpa [commentStart, commentText, commentEnd] using reads_comment rfl h
  | jsx =>
    refine (reads_line _).append (?_ : Reads .jsx .text
      ("\x7b/* ".toList ++ breakStars text ++ " */\x7d".toList) _ _)
    have h : ¬ commentEnd .jsx <:+: commentText .jsx text ++ ['*', '/'] :=
      not_infix_commentText (by decide) text
    simpa [commentStart, commentText, commentEnd] using reads_comment rfl h

end Artboard.Markup
