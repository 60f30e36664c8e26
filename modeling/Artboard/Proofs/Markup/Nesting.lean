import Artboard.Proofs.Markup.Indentation

/-!
# Properly nested tokens

Tokens are proper if they close all tags that they open, and only those, and hold no raw character
that belongs to tags or expressions. Proper tokens in a row are proper, and so is an element around
some, and what becomes of them when the text is indented (`Proper.indented`). A text that is read as
proper tokens is well formed (`Proper.isWellFormed`).
-/

namespace Artboard.Markup

variable {mode : Mode} {cs : List Char} {ts us : List Token}

/-- Clean tokens that close all they open, and nothing else. -/
structure Proper (mode : Mode) (ts : List Token) : Prop where
  closes : ∀ names rest, closes names (ts ++ rest) = closes names rest
  clean : ∀ t ∈ ts, t.isClean mode = true

namespace Proper

theorem nil : Proper mode [] := ⟨fun _ _ => rfl, nofun⟩

theorem append (ht : Proper mode ts) (hu : Proper mode us) : Proper mode (ts ++ us) where
  closes names rest := by rw [List.append_assoc, ht.closes, hu.closes]
  clean := List.forall_mem_append.2 ⟨ht.clean, hu.clean⟩

theorem char {c : Char} (h : (Token.char c).isClean mode = true) : Proper mode [.char c] :=
  ⟨fun _ _ => rfl, List.forall_mem_singleton.2 h⟩

theorem comment (text : List Char) : Proper mode [.comment text] :=
  ⟨fun _ _ => rfl, List.forall_mem_singleton.2 rfl⟩

theorem single {t : Tag} (h : (Token.single t).isClean mode = true) : Proper mode [.single t] :=
  ⟨fun _ _ => rfl, List.forall_mem_singleton.2 h⟩

/-- A tag around proper tokens, and its end tag. -/
theorem element {t : Tag} (ht : (Token.opening t).isClean mode = true) (h : Proper mode ts) :
    Proper mode (.opening t :: (ts ++ [.closing t.name])) where
  closes names rest := by
    rw [List.cons_append, Markup.closes, List.append_assoc, h.closes]
    simp [Markup.closes]
  clean := by
    simp only [List.forall_mem_cons, List.forall_mem_append]
    exact ⟨ht, h.clean, rfl, nofun⟩

theorem flatMap {α : Type} {f : α → List Token} {items : List α}
    (h : ∀ a ∈ items, Proper mode (f a)) : Proper mode (items.flatMap f) := by
  induction items with
  | nil => exact nil
  | cons a rest ih =>
    rw [List.forall_mem_cons] at h
    exact h.1.append (ih h.2)

theorem chars (h : ∀ c ∈ cs, (Token.char c).isClean mode = true) : Proper mode (cs.map .char) := by
  induction cs with
  | nil => exact nil
  | cons c cs ih =>
    rw [List.forall_mem_cons] at h
    exact (char h.1).append (ih h.2)

theorem line (mode : Mode) : Proper mode [.char '\n'] := char (by cases mode <;> decide)

end Proper

theorem Proper.of_line (h : Proper mode (.char '\n' :: ts)) : Proper mode ts :=
  ⟨h.closes, (List.forall_mem_cons.1 h.clean).2⟩

/-! ### Indentation -/

theorem closes_indentTokens (names : List (List Char)) (ts rest : List Token) :
    closes names (indentTokens ts ++ rest) = closes names (ts ++ rest) := by
  induction ts generalizing names with
  | nil => rfl
  | cons t ts ih =>
    rw [indentTokens, List.flatMap_cons, List.append_assoc]
    cases t with
    | char c =>
      rw [Token.indented, indentChar]
      split_ifs <;> exact ih names
    | comment | single => exact ih names
    | opening t => exact ih (t.name :: names)
    | closing name =>
      cases names with
      | nil => rfl
      | cons innermost outer => exact congrArg (innermost == name && ·) (ih outer)

theorem mem_indent {c : Char} (h : c ∈ indent cs) : c ∈ cs ∨ c = ' ' := by
  obtain ⟨d, hd, hc⟩ := List.mem_flatMap.1 h
  unfold indentChar at hc
  split_ifs at hc with hline
  · simp only [List.mem_cons, List.not_mem_nil, or_false, or_self] at hc
    rcases hc with rfl | rfl
    · exact .inl (hline ▸ hd)
    · exact .inr rfl
  · exact .inl (List.mem_singleton.1 hc ▸ hd)

theorem Written.isClean_indented {value : Written} (h : value.isClean = true) :
    value.indented.isClean = true := by
  cases value with
  | quoted value =>
    simp only [indented, isClean, List.all_eq_true] at h ⊢
    intro c hc
    rcases mem_indent hc with hc | rfl
    · exact h c hc
    · rfl
  | braced | bare => rfl

theorem Tag.isClean_indented (mode : Mode) {t : Tag} (h : (Token.opening t).isClean mode = true) :
    (Token.opening t.indented).isClean mode = true := by
  simp only [Token.isClean, indented, List.all_map, List.all_eq_true] at h ⊢
  exact fun entry hentry => Written.isClean_indented (h entry hentry)

theorem Token.isClean_indented {t : Token} (h : t.isClean mode = true) :
    ∀ u ∈ t.indented, u.isClean mode = true := by
  cases t with
  | char c =>
    rw [indented, List.forall_mem_map, indentChar]
    split_ifs with hc
    · cases mode <;> simp [isClean]
    · exact List.forall_mem_singleton.2 h
  | comment | closing => exact List.forall_mem_singleton.2 rfl
  | opening | single => exact List.forall_mem_singleton.2 (Tag.isClean_indented mode h)

theorem Proper.indented (h : Proper mode ts) : Proper mode (indentTokens ts) where
  closes names rest := by rw [closes_indentTokens, h.closes]
  clean u hu := by
    obtain ⟨t, ht, hu⟩ := List.mem_flatMap.1 hu
    exact Token.isClean_indented (h.clean t ht) u hu

/-- **What is read as proper tokens is well formed.** -/
theorem Proper.isWellFormed (h : Proper mode ts) (hreads : Reads mode .text cs ts .text) :
    isWellFormed mode cs = true := by
  have hread : read? mode cs = some ts := by
    rw [read?, hreads]
  have hcloses : Markup.closes [] ts = true := by
    simpa [Markup.closes] using h.closes [] []
  simp only [Markup.isWellFormed, hread, hcloses, Bool.true_and, List.all_eq_true]
  exact h.clean

end Artboard.Markup
