import Artboard.Proofs.Markup.Comments

/-!
# Indented text is read alike

Two blanks behind every line feed change nothing but characters of text, and what stands inside
values, expressions and comments: a reader of the indented text goes through the same kinds of
places, and reads the same tags and comments, themselves indented (`Reads.indented`).
-/

namespace Artboard.Markup

variable {mode : Mode} {p q : Position} {c : Char} {cs e : List Char} {ts : List Token}

/-! ## Indented tokens -/

def Written.indented : Written → Written
  | .quoted value => .quoted (indent value)
  | .braced expression => .braced (indent expression)
  | .bare => .bare

def Tag.indented (t : Tag) : Tag :=
  { t with attributes := t.attributes.map fun (key, value) => (key, value.indented) }

/-- What a token of a text is in the indented text. -/
def Token.indented : Token → List Token
  | .char c => (indentChar c).map .char
  | .comment text => [.comment (indent text)]
  | .opening t => [.opening t.indented]
  | .single t => [.single t.indented]
  | .closing name => [.closing name]

def indentTokens (ts : List Token) : List Token := ts.flatMap Token.indented

def Place.indented : Place → Place
  | .quoted key value => .quoted key (indent value)
  | .braced key expression n => .braced key (indent expression) n
  | place => place

def Position.indented : Position → Position
  | .comment seen => .comment (indent seen)
  | .tag t place => .tag t.indented place.indented
  | p => p

theorem indentTokens_append (ts us : List Token) :
    indentTokens (ts ++ us) = indentTokens ts ++ indentTokens us := List.flatMap_append

theorem indented_add (t : Tag) (key : List Char) (value : Written) :
    (t.add key value).indented = t.indented.add key value.indented := by
  simp [Tag.add, Tag.indented]

/-! ## Indented comments -/

theorem indent_append (cs ds : List Char) : indent (cs ++ ds) = indent cs ++ indent ds :=
  List.flatMap_append

theorem indent_concat (hc : c ≠ '\n') (cs : List Char) : indent (cs ++ [c]) = indent cs ++ [c] := by
  simp [indent, indentChar, hc]

theorem not_suffix_concat (hne : e ≠ []) (h : c ∉ e) : ¬ e <:+ cs ++ [c] := by
  intro hsuffix
  rcases List.suffix_concat_iff.1 hsuffix with rfl | ⟨t, rfl, -⟩
  · exact hne rfl
  · exact h (List.mem_append_right _ List.mem_cons_self)

/-- What holds neither blanks nor line feeds ends an indented text iff it ends the text. -/
theorem suffix_indent_iff (hline : '\n' ∉ e) (hblank : ' ' ∉ e) : e <:+ indent cs ↔ e <:+ cs := by
  induction cs using List.reverseRecOn generalizing e with
  | nil => rfl
  | append_singleton cs c ih =>
    by_cases hc : c = '\n'
    · subst hc
      by_cases he : e = []
      · simp [he]
      · have hindent : indent (cs ++ ['\n']) = indent cs ++ ['\n', ' '] ++ [' '] := by
          simp [indent, indentChar]
        rw [hindent]
        exact iff_of_false (not_suffix_concat he hblank) (not_suffix_concat he hline)
    · rw [indent_concat hc, List.suffix_concat_iff, List.suffix_concat_iff]
      refine or_congr_right (exists_congr fun t => and_congr_right ?_)
      rintro rfl
      exact ih (fun h => hline (List.mem_append_left _ h))
        fun h => hblank (List.mem_append_left _ h)

theorem suffix_commentEnd_indent_iff :
    commentEnd mode <:+ indent cs ↔ commentEnd mode <:+ cs := by
  cases mode <;> exact suffix_indent_iff (by decide) (by decide)

theorem indent_commentEnd (mode : Mode) : indent (commentEnd mode) = commentEnd mode := by
  cases mode <;> rfl

/-! ## Steps -/

/-- What a step gives, indented. -/
def indentMove (move : List Token × Position) : List Token × Position :=
  (indentTokens move.1, move.2.indented)

theorem boundary_indented (t : Tag) (c : Char) :
    boundary t.indented c = (boundary t c).map indentMove := by
  unfold boundary
  split_ifs <;> rfl

theorem placeStep_indented (hc : c ≠ '\n') (t : Tag) (place : Place) :
    place.indented.step mode t.indented c = (place.step mode t c).map indentMove := by
  have hindent (value : List Char) : indent value ++ [c] = indent (value ++ [c]) :=
    (indent_concat hc value).symm
  cases place with
  | inName =>
    simp only [Place.indented, Place.step, boundary_indented]
    split_ifs <;> rfl
  | between =>
    simp only [Place.indented, Place.step, boundary_indented]
    split_ifs <;> rfl
  | inKey key =>
    have hadd : t.indented.add key .bare = (t.add key .bare).indented :=
      (indented_add t key .bare).symm
    simp only [Place.indented, Place.step, hadd, boundary_indented]
    split_ifs <;> rfl
  | equals key =>
    simp only [Place.indented, Place.step]
    split_ifs <;> rfl
  | quoted key value =>
    simp only [Place.indented, Place.step, hindent]
    split_ifs
    · simp [indentMove, Position.indented, Place.indented, indented_add, Written.indented,
        indentTokens]
    · rfl
  | braced key expression n =>
    simp only [Place.indented, Place.step, hindent]
    cases n.step c with
    | some n => rfl
    | none =>
      simp [indentMove, Position.indented, Place.indented, indented_add, Written.indented,
        indentTokens]
  | behind => exact boundary_indented t c
  | slash =>
    simp only [Place.indented, Place.step]
    split_ifs <;> rfl

theorem step_indented (hc : c ≠ '\n') (p : Position) :
    p.indented.step mode c = (p.step mode c).map indentMove := by
  cases p with
  | text =>
    simp only [Position.indented, Position.step]
    split_ifs
    · rfl
    · simp [indentMove, indentTokens, Token.indented, indentChar, hc, Position.indented]
  | start seen =>
    simp only [Position.indented, Position.step]
    split_ifs <;> rfl
  | comment seen =>
    by_cases hend : commentEnd mode <:+ seen ++ [c]
    · obtain ⟨text, htext⟩ := hend
      have hindented : indent seen ++ [c] = indent text ++ commentEnd mode := by
        rw [← indent_concat hc, ← htext, indent_append, indent_commentEnd]
      rw [Position.indented, step_comment_of_suffix hindented, step_comment_of_suffix htext.symm]
      rfl
    · have hindented : ¬ commentEnd mode <:+ indent seen ++ [c] := by
        rwa [← indent_concat hc, suffix_commentEnd_indent_iff]
      rw [Position.indented, step_comment hindented, step_comment hend, ← indent_concat hc]
      rfl
  | tag t place => exact placeStep_indented hc t place
  | ending name =>
    simp only [Position.indented, Position.step]
    split_ifs <;> rfl

/-! ## Line feeds -/

theorem not_suffix_commentEnd (hc : c = '\n' ∨ c = ' ') : ¬ commentEnd mode <:+ cs ++ [c] := by
  rcases hc with rfl | rfl <;> cases mode <;> exact not_suffix_concat (by decide) (by decide)

/-- Where a text goes on behind a line feed, the indented one goes on behind its indentation. -/
theorem reads_indentation (h : p.step mode '\n' = some (ts, q)) :
    Reads mode p.indented ['\n', ' ', ' '] (indentTokens ts) q.indented := by
  have hindent (cs : List Char) : indent (cs ++ ['\n']) = indent cs ++ ['\n', ' ', ' '] := by
    simp [indent, indentChar]
  cases p with
  | text =>
    obtain ⟨rfl, rfl⟩ : [.char '\n'] = ts ∧ .text = q := by
      cases mode <;> exact Prod.mk.inj (Option.some.inj h)
    cases mode <;> rfl
  | start seen =>
    have hstart : ¬ seen ++ ['\n'] <+: commentStart mode := fun h =>
      absurd (h.subset (List.mem_append_right _ List.mem_cons_self)) (by cases mode <;> decide)
    have hne : seen ++ ['\n'] ≠ commentStart mode := fun h => hstart (h ▸ List.prefix_rfl)
    simp [Position.step, hne, hstart] at h
  | comment seen =>
    rw [step_comment (not_suffix_commentEnd (.inl rfl))] at h
    obtain ⟨rfl, rfl⟩ := Prod.mk.inj (Option.some.inj h)
    have hread (seen : List Char) {c : Char} (hc : c = '\n' ∨ c = ' ') :
        Reads mode (.comment seen) [c] [] (.comment (seen ++ [c])) :=
      .one (step_comment (not_suffix_commentEnd hc))
    simpa [Position.indented, hindent, indentTokens] using
      ((hread (indent seen) (.inl rfl)).append (hread _ (.inr rfl))).append (hread _ (.inr rfl))
  | tag t place =>
    cases place with
    | inName | between | behind =>
      obtain ⟨rfl, rfl⟩ := Prod.mk.inj (Option.some.inj h)
      rfl
    | inKey key =>
      obtain ⟨rfl, rfl⟩ := Prod.mk.inj (Option.some.inj h)
      rw [Position.indented, Position.indented, indented_add]
      rfl
    | quoted key value =>
      obtain ⟨rfl, rfl⟩ := Prod.mk.inj (Option.some.inj h)
      rw [Position.indented, Position.indented, Place.indented, Place.indented, hindent]
      exact reads_quoted (by decide)
    | braced key expression n =>
      have hn {c : Char} (hc : c = '\n' ∨ c = ' ') : n.step c = some n := by
        rcases hc with rfl | rfl <;> exact Nesting.step_of_ne (by decide) (by decide) (by decide)
      rw [Position.step, Place.step, hn (.inl rfl)] at h
      obtain ⟨rfl, rfl⟩ := Prod.mk.inj (Option.some.inj h)
      rw [Position.indented, Position.indented, Place.indented, Place.indented, hindent]
      refine reads_braced ?_
      simp [hn]
    | equals | slash => cases mode <;> cases h
  | ending name => cases h

/-- **Indented text is read alike,** with indented tokens. -/
theorem Reads.indented (h : Reads mode p cs ts q) :
    Reads mode p.indented (indent cs) (indentTokens ts) q.indented := by
  induction cs generalizing p ts with
  | nil =>
    obtain ⟨rfl, rfl⟩ := Prod.mk.inj (Option.some.inj h)
    exact .nil
  | cons c cs ih =>
    obtain ⟨us, r, us', hstep, hrest, rfl⟩ := cons_iff.1 h
    rw [indentTokens_append]
    refine append (?_ : Reads mode _ (indentChar c) _ _) (ih hrest)
    by_cases hc : c = '\n'
    · subst hc
      exact reads_indentation hstep
    · rw [indentChar, if_neg hc]
      exact .one (by rw [step_indented hc, hstep]; rfl)

end Artboard.Markup
