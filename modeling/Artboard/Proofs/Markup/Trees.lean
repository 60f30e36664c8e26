import Artboard.Proofs.Markup.Nesting

/-!
# Written trees are well formed

**Theorem (`isWellFormed_document`).** Let the tags and attributes of a tree have names that a
reader accepts, let what stands between braces be expressions, and let no preformatted text be in it
(`IsSound`). Then the tree as text is well formed, whatever its texts, values and comments are.

The text is read back as the tokens of the tree (`tokens`), by induction over the tree: the inside
of an element is read as it was before it was indented. The tokens of a tree are proper: each element
closes what it opens, and escaping has left no raw character.
-/

namespace Artboard.Markup

variable {mode : Mode} {tag : String} {attributes : List Attribute} {cs : List Char}
  {ts : List Token}

/-! ## Sound trees -/

/-- A tag that is read back. -/
structure IsSoundTag (mode : Mode) (tag : String) (attributes : List Attribute) : Prop where
  name : isName tag.toList = true
  attributes : ∀ a ∈ attributes, a.IsSound mode

def Content.IsSound (mode : Mode) : Content Classes → Prop
  | .empty => True
  | .spans parts => ∀ s ∈ parts, ∀ tag style, s.wrapper = some (tag, style) →
      IsSoundTag mode tag (styleAttributes mode style.classes style.declarations)
  | .block _ => False

/-- A tree whose tags are read back, and that holds no preformatted text. -/
inductive IsSound (mode : Mode) : Markup Classes → Prop
  | comment (text : String) : IsSound mode (.comment text)
  | leaf {head : Head Classes} {content : Content Classes}
      (hhead : IsSoundTag mode head.tag (head.attributes mode)) (hcontent : content.IsSound mode) :
      IsSound mode (.leaf head content)
  | parent {head : Head Classes} {children : List (Markup Classes)}
      (hhead : IsSoundTag mode head.tag (head.attributes mode))
      (hchildren : ∀ m ∈ children, IsSound mode m) : IsSound mode (.parent head children)

/-! ## Elements -/

/-- The beginning of an element on its line, up to the end of its start tag. -/
theorem IsSoundTag.exists_reads (h : IsSoundTag mode tag attributes) :
    ∃ q, Reads mode .text ("\n<".toList ++ tag.toList ++ renderAttributes mode attributes)
      [.char '\n'] q ∧ Ready mode q (tagOf mode tag attributes) := by
  obtain ⟨q, hreads, hq⟩ := exists_reads_tag h.name h.attributes
  exact ⟨q, (reads_line mode).append hreads, hq⟩

theorem IsSoundTag.reads_empty (h : IsSoundTag mode tag attributes) :
    Reads mode .text (renderElement mode tag attributes .empty)
      (.char '\n' ::
        if isSelfClosing mode tag then [.single (tagOf mode tag attributes)]
        else [.opening (tagOf mode tag attributes), .closing tag.toList]) .text := by
  obtain ⟨q, hreads, hq⟩ := h.exists_reads
  by_cases hself : isSelfClosing mode tag
  · rw [renderElement, renderBody, if_pos hself, if_pos hself]
    exact hreads.append hq.reads_selfClosing
  · rw [renderElement, renderBody, if_neg hself, if_neg hself]
    exact hreads.append (hq.reads_end.append (reads_endTag h.name))

theorem IsSoundTag.reads_inline (h : IsSoundTag mode tag attributes)
    (hinside : Reads mode .text cs ts .text) :
    Reads mode .text (renderElement mode tag attributes (.inline cs))
      (.char '\n' :: .opening (tagOf mode tag attributes) :: (ts ++ [.closing tag.toList]))
      .text := by
  obtain ⟨q, hreads, hq⟩ := h.exists_reads
  exact hreads.append ((hq.reads_end.append hinside).append (reads_endTag h.name))

theorem IsSoundTag.reads_children (h : IsSoundTag mode tag attributes)
    (hinside : Reads mode .text cs ts .text) :
    Reads mode .text (renderElement mode tag attributes (.children cs))
      (.char '\n' :: .opening (tagOf mode tag attributes) ::
        (indentTokens ts ++ [.char '\n', .closing tag.toList])) .text := by
  obtain ⟨q, hreads, hq⟩ := h.exists_reads
  have hline : Reads mode .text ('\n' :: endTag tag) [.char '\n', .closing tag.toList] .text :=
    (reads_line mode).append (reads_endTag h.name)
  have hlines : Reads mode .text (indent cs) (indentTokens ts) .text := hinside.indented
  exact hreads.append ((hq.reads_end.append hlines).append hline)

/-- What is read behind the line feed that text begins with. -/
theorem Reads.of_line {q : Position} (h : Reads mode .text ('\n' :: cs) (.char '\n' :: ts) q) :
    Reads mode .text cs ts q := by
  obtain ⟨us, p, us', hstep, hrest, heq⟩ := cons_iff.1 h
  obtain ⟨rfl, rfl⟩ : [.char '\n'] = us ∧ .text = p := by
    cases mode <;> exact Prod.mk.inj (Option.some.inj hstep)
  obtain rfl : ts = us' := (List.cons.inj heq).2
  exact hrest

/-! ## The tokens of a tree -/

def Span.tokens (mode : Mode) (s : Span Classes) : List Token :=
  let text := textTokens mode s.text.toList
  match s.wrapper with
  | none => text
  | some (tag, style) =>
    .opening (tagOf mode tag (styleAttributes mode style.classes style.declarations)) ::
      (text ++ [.closing tag.toList])

/-- The tokens of an element without elements on lines of their own. Preformatted text may hold any
tags, so it has none here. -/
def Content.tokens (mode : Mode) (head : Head Classes) : Content Classes → List Token
  | .empty =>
    if isSelfClosing mode head.tag then [.single (tagOf mode head.tag (head.attributes mode))]
    else [.opening (tagOf mode head.tag (head.attributes mode)), .closing head.tag.toList]
  | .spans parts =>
    .opening (tagOf mode head.tag (head.attributes mode)) ::
      (parts.flatMap (Span.tokens mode) ++ [.closing head.tag.toList])
  | .block _ => []

mutual

/-- What a tree is read back as. -/
def tokens (mode : Mode) : Markup Classes → List Token
  | .comment text => [.char '\n', .comment (commentText mode text.toList)]
  | .leaf head content => .char '\n' :: content.tokens mode head
  | .parent head children =>
    .char '\n' :: .opening (tagOf mode head.tag (head.attributes mode)) ::
      (indentTokens (tokensAll mode children) ++ [.char '\n', .closing head.tag.toList])

def tokensAll (mode : Mode) : List (Markup Classes) → List Token
  | [] => []
  | m :: rest => m.tokens mode ++ tokensAll mode rest

end

/-! ## Trees are read as their tokens -/

theorem Span.reads {s : Span Classes}
    (h : ∀ tag style, s.wrapper = some (tag, style) →
      IsSoundTag mode tag (styleAttributes mode style.classes style.declarations)) :
    Reads mode .text (s.render mode) (s.tokens mode) .text := by
  obtain ⟨wrapper, text⟩ := s
  cases wrapper with
  | none => exact reads_escapeText mode text.toList
  | some wrapper => exact ((h _ _ rfl).reads_inline (reads_escapeText mode text.toList)).of_line

theorem Span.reads_flatMap {parts : List (Span Classes)}
    (h : (Content.spans parts).IsSound mode) :
    Reads mode .text (parts.flatMap (Span.render mode)) (parts.flatMap (Span.tokens mode))
      .text := by
  induction parts with
  | nil => exact .nil
  | cons s rest ih =>
    rw [Content.IsSound, List.forall_mem_cons] at h
    exact (Span.reads h.1).append (ih h.2)

theorem reads_renderAll {markup : List (Markup Classes)}
    (h : ∀ m ∈ markup, Reads mode .text (m.render mode) (m.tokens mode) .text) :
    Reads mode .text (renderAll mode markup) (tokensAll mode markup) .text := by
  induction markup with
  | nil => exact .nil
  | cons m rest ih =>
    rw [List.forall_mem_cons] at h
    exact h.1.append (ih h.2)

/-- **A sound tree is read as its tokens.** The induction is that of the tree. -/
theorem IsSound.reads_render {m : Markup Classes} (h : m.IsSound mode) :
    Reads mode .text (m.render mode) (m.tokens mode) .text := by
  induction h with
  | comment text => exact reads_renderComment mode text.toList
  | @leaf head content hhead hcontent =>
    cases content with
    | empty => exact hhead.reads_empty
    | spans parts => exact hhead.reads_inline (Span.reads_flatMap hcontent)
    | block text => exact hcontent.elim
  | parent hhead _ ih => exact hhead.reads_children (reads_renderAll ih)

/-! ## The tokens are proper -/

theorem isClean_tagOf (mode : Mode) (tag : String) (attributes : List Attribute) :
    (Token.opening (tagOf mode tag attributes)).isClean mode = true := by
  simp only [Token.isClean, tagOf, List.all_map, List.all_eq_true]
  exact fun a _ => isClean_written mode a

theorem proper_textTokens (mode : Mode) (text : List Char) :
    Proper mode (textTokens mode text) := by
  refine .flatMap fun c _ => ?_
  unfold charTokens
  split_ifs with hc
  · exact .single rfl
  · exact .chars (isClean_textChar hc)

theorem Span.proper (s : Span Classes) : Proper mode (s.tokens mode) := by
  obtain ⟨wrapper, text⟩ := s
  cases wrapper with
  | none => exact proper_textTokens mode _
  | some wrapper => exact .element (isClean_tagOf ..) (proper_textTokens mode _)

theorem Content.proper (head : Head Classes) (content : Content Classes) :
    Proper mode (content.tokens mode head) := by
  cases content with
  | empty =>
    rw [tokens]
    split_ifs
    · exact .single (isClean_tagOf ..)
    · exact .element (isClean_tagOf ..) .nil
  | spans parts => exact .element (isClean_tagOf ..) (.flatMap fun s _ => s.proper)
  | block text => exact .nil

mutual

theorem proper_tokens (mode : Mode) (m : Markup Classes) : Proper mode (m.tokens mode) := by
  match m with
  | .comment text => exact (Proper.line mode).append (.comment _)
  | .leaf head content => exact (Proper.line mode).append (content.proper head)
  | .parent head children =>
    have hinside := ((proper_tokensAll mode children).indented).append (.line mode)
    have helement := Proper.element (isClean_tagOf mode head.tag (head.attributes mode)) hinside
    rw [List.append_assoc] at helement
    exact (Proper.line mode).append helement

theorem proper_tokensAll (mode : Mode) (markup : List (Markup Classes)) :
    Proper mode (tokensAll mode markup) := by
  match markup with
  | [] => exact .nil
  | m :: rest => exact (proper_tokens mode m).append (proper_tokensAll mode rest)

end

/-! ## Documents -/

/-- Every tree begins with a line feed, and has no other one behind it. -/
theorem exists_render_eq (mode : Mode) (m : Markup Classes) :
    ∃ c cs, m.render mode = '\n' :: c :: cs ∧ c ≠ '\n' := by
  cases m with
  | comment text => cases mode <;> exact ⟨_, _, rfl, by decide⟩
  | leaf | parent => exact ⟨_, _, rfl, by decide⟩

theorem exists_tokens_eq (mode : Mode) (m : Markup Classes) :
    ∃ ts, m.tokens mode = .char '\n' :: ts := by
  cases m <;> exact ⟨_, rfl⟩

/-- Whole markup is read as the tokens of its trees, but for the line feed in front. -/
theorem reads_document {markup : List (Markup Classes)} (h : ∀ m ∈ markup, m.IsSound mode) :
    Reads mode .text (document mode markup).toList (tokensAll mode markup).tail .text := by
  have hreads := reads_renderAll fun m hm => (h m hm).reads_render
  cases markup with
  | nil => exact .nil
  | cons m rest =>
    obtain ⟨c, cs, hrender, hc⟩ := exists_render_eq mode m
    obtain ⟨ts, htokens⟩ := exists_tokens_eq mode m
    have hdocument : (document mode (m :: rest)).toList = c :: cs ++ renderAll mode rest := by
      simp [document, renderAll, hrender, hc]
    rw [renderAll, hrender, tokensAll, htokens] at hreads
    rw [hdocument, tokensAll, htokens]
    exact hreads.of_line

/-- **Sound trees as text are well formed.** -/
theorem isWellFormed_document {markup : List (Markup Classes)}
    (h : ∀ m ∈ markup, m.IsSound mode) :
    isWellFormed mode (document mode markup).toList = true := by
  refine Proper.isWellFormed ?_ (reads_document h)
  have hproper := proper_tokensAll mode markup
  cases markup with
  | nil => exact .nil
  | cons m rest =>
    obtain ⟨ts, htokens⟩ := exists_tokens_eq mode m
    rw [tokensAll, htokens] at hproper ⊢
    exact hproper.of_line

end Artboard.Markup
