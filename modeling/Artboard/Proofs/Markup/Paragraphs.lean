import Artboard.Proofs.Markup.Places

/-!
# Paragraphs

What a reader finds between the tags of a paragraph: characters, line breaks, and wrappers around
some of them. Without the wrappers, with line breaks as line feeds and with references read, this is
the text of the paragraph (`Span.decode_inlineText`), at any depth: escaped text has no line feeds,
so there is nothing in it to indent (`indentTokens_iterate_textTokens`).
-/

namespace Artboard.Markup

variable {mode : Mode}

/-! ## Reading inline text -/

/-- The elements that may be around a part of a paragraph. -/
def wrapperNames : List (List Char) := ["span".toList, "sub".toList, "sup".toList]

/-- The characters between the tags of a paragraph, without wrappers and with line breaks as line
feeds; nothing if there is anything else. -/
def inlineText? : List Token → Option (List Char)
  | [] => some []
  | .char c :: rest => (inlineText? rest).map (c :: ·)
  | .single t :: rest => if t.name = "br".toList then (inlineText? rest).map ('\n' :: ·) else none
  | .opening t :: rest => if t.name ∈ wrapperNames then inlineText? rest else none
  | .closing name :: rest => if name ∈ wrapperNames then inlineText? rest else none
  | .comment _ :: _ => none

example :
    (read? .html "a &lt;<br/><sub class=\"b\">&amp;lt;</sub>".toList).bind inlineText? =
      some "a &lt;\n&amp;lt;".toList := by
  decide

theorem inlineText?_textTokens (mode : Mode) (text : List Char) (rest : List Token) :
    inlineText? (textTokens mode text ++ rest) =
      (inlineText? rest).map (text.flatMap (lineChar mode) ++ ·) := by
  have hchars (cs : List Char) (rest : List Token) :
      inlineText? (cs.map .char ++ rest) = (inlineText? rest).map (cs ++ ·) := by
    induction cs with
    | nil => simp
    | cons c cs ih =>
      rw [List.map_cons, List.cons_append, inlineText?, ih, Option.map_map]
      rfl
  induction text with
  | nil => simp [textTokens]
  | cons c text ih =>
    have hchar (rest : List Token) : inlineText? (charTokens mode c ++ rest) =
        (inlineText? rest).map (lineChar mode c ++ ·) := by
      unfold charTokens lineChar
      split_ifs with hc
      · subst hc
        rfl
      · exact hchars _ rest
    rw [textTokens, List.flatMap_cons, List.append_assoc, hchar, ← textTokens, ih, Option.map_map]
    simp [Function.comp_def]

theorem line_not_mem_textChar {c : Char} (hc : c ≠ '\n') : '\n' ∉ textChar mode c := by
  unfold textChar
  split
  case h_7 => exact fun h => hc (List.mem_singleton.1 h).symm
  case h_4 => exact absurd rfl hc
  all_goals cases mode <;> decide

/-- Escaped text is read the same at every depth. -/
theorem indentTokens_iterate_textTokens (n : Nat) (mode : Mode) (text : List Char) :
    indentTokens^[n] (textTokens mode text) = textTokens mode text := by
  refine Function.iterate_fixed ?_ n
  rw [indentTokens, textTokens, List.flatMap_assoc]
  refine List.flatMap_congr fun c _ => ?_
  unfold charTokens
  split_ifs with hc
  · rfl
  · have hindent : indent (textChar mode c) = textChar mode c :=
      (indent_iterate_eq 1 _).trans (indentBy_eq_self_iff.2 (.inr (line_not_mem_textChar hc)))
    exact (indentTokens_chars _).trans (congrArg _ hindent)

/-- Only the start tag of an element and what is inside change with the depth. -/
theorem indentTokens_iterate_element (n : Nat) (t : Tag) (ts : List Token) (name : List Char) :
    indentTokens^[n] (.opening t :: (ts ++ [.closing name])) =
      .opening (Tag.indented^[n] t) :: (indentTokens^[n] ts ++ [.closing name]) := by
  rw [indentTokens_iterate_eq, indentTokens_iterate_eq, List.flatMap_cons, List.flatMap_append]
  rfl

/-! ## Parts of a paragraph -/

/-- The class attribute of a tag at a depth shows the classes, and there is none without classes. -/
def Tag.ShowsClasses (mode : Mode) (depth : Nat) (t : Tag) (classes : List String) : Prop :=
  if classes = [] then ∀ w, ((className mode).toList, w) ∉ t.attributes
  else ∃ w, ((className mode).toList, w) ∈ t.attributes ∧ w.Shows depth (" ".intercalate classes)

theorem showsClasses_tagOf (depth : Nat) (tag : String) {before : List Attribute}
    (hbefore : ∀ a ∈ before, a.1 ≠ className mode) (classes : List String) :
    (Tag.indented^[depth] (tagOf mode tag (before ++ styleAttributes mode classes []))).ShowsClasses
      mode depth classes := by
  unfold Tag.ShowsClasses
  split_ifs with hclasses
  · intro w hw
    obtain ⟨a, ha, hname, -⟩ := exists_of_mem_attributes hw
    have hnone : styleAttributes mode [] [] = [] := rfl
    rw [hclasses, hnone, List.append_nil] at ha
    exact hbefore a ha (String.toList_inj.1 hname)
  · let a : Attribute := (className mode, .text (" ".intercalate classes))
    have ha : a ∈ before ++ styleAttributes mode classes [] := by
      rw [styleAttributes, if_neg (by simpa using hclasses)]
      exact List.mem_append_right _ (List.mem_append_left _ List.mem_cons_self)
    refine ⟨Written.indented^[depth] (a.written mode), ?_, Written.shows_of_text rfl depth⟩
    rw [Tag.indented_iterate]
    exact List.mem_map_of_mem (List.mem_map_of_mem ha)

/-- A part of a paragraph at a depth: a wrapper with classes around a text. -/
inductive IsPart (mode : Mode) (depth : Nat) (classes : List String) (text : List Char) :
    List Token → Prop
  | intro {t : Tag} {name : List Char} {inner : List Token} (hname : t.name = name)
      (hwrapper : name ∈ wrapperNames) (hclasses : t.ShowsClasses mode depth classes)
      (hinner : (inlineText? inner).map decode = some text) :
      IsPart mode depth classes text (.opening t :: (inner ++ [.closing name]))

namespace Span

variable {s : Span Classes}

/-- Only the tags of a part change with the depth. -/
theorem indentTokens_iterate_wrapped {tag : String} {style : Classes}
    (h : s.wrapper = some (tag, style)) (n : Nat) :
    indentTokens^[n] (s.tokens mode) =
      .opening (Tag.indented^[n]
          (tagOf mode tag (styleAttributes mode style.classes style.declarations))) ::
        (textTokens mode s.text.toList ++ [.closing tag.toList]) := by
  rw [tokens, h]
  dsimp only
  rw [indentTokens_iterate_element, indentTokens_iterate_textTokens]

theorem inlineText?_tokens (h : ∀ tag style, s.wrapper = some (tag, style) →
    tag.toList ∈ wrapperNames) (n : Nat) (rest : List Token) :
    inlineText? (indentTokens^[n] (s.tokens mode) ++ rest) =
      (inlineText? rest).map (s.text.toList.flatMap (lineChar mode) ++ ·) := by
  cases hwrapper : s.wrapper with
  | none =>
    rw [tokens, hwrapper]
    dsimp only
    rw [indentTokens_iterate_textTokens, inlineText?_textTokens]
  | some wrapper =>
    obtain ⟨tag, style⟩ := wrapper
    have htag := h tag style hwrapper
    rw [indentTokens_iterate_wrapped hwrapper, List.cons_append, inlineText?,
      Tag.name_indented_iterate, tagOf, if_pos htag, List.append_assoc, inlineText?_textTokens,
      List.singleton_append, inlineText?, if_pos htag]

/-- **The text of a paragraph is read back,** at any depth. -/
theorem decode_inlineText {parts : List (Span Classes)}
    (h : ∀ s ∈ parts, ∀ tag style, s.wrapper = some (tag, style) → tag.toList ∈ wrapperNames)
    (n : Nat) :
    (inlineText? (indentTokens^[n] (parts.flatMap (tokens mode)))).map decode =
      some (parts.flatMap (·.text.toList)) := by
  have hinline : inlineText? (indentTokens^[n] (parts.flatMap (tokens mode))) =
      some ((parts.flatMap (·.text.toList)).flatMap (lineChar mode)) := by
    induction parts with
    | nil => simp [indentTokens_iterate_eq, inlineText?]
    | cons s rest ih =>
      rw [List.forall_mem_cons] at h
      rw [List.flatMap_cons, indentTokens_iterate_append, inlineText?_tokens h.1, ih h.2,
        List.flatMap_cons, List.flatMap_append, Option.map_some]
  rw [hinline, Option.map_some, decode_lineChars]

/-- A wrapped text is a part with the classes of the wrapper. -/
theorem isPart {tag : String} {style : Classes} (h : s.wrapper = some (tag, style))
    (htag : tag.toList ∈ wrapperNames) (hstyle : style.declarations = []) (n : Nat) :
    IsPart mode n style.classes s.text.toList (indentTokens^[n] (s.tokens mode)) := by
  have hinner : (inlineText? (textTokens mode s.text.toList)).map decode =
      some s.text.toList := by
    have hchars := inlineText?_textTokens mode s.text.toList []
    rw [List.append_nil, inlineText?, Option.map_some, List.append_nil] at hchars
    rw [hchars, Option.map_some, decode_lineChars]
  rw [indentTokens_iterate_wrapped h, hstyle]
  exact .intro (Tag.name_indented_iterate n _) htag
    (showsClasses_tagOf n tag (List.forall_mem_nil _) style.classes) hinner

end Span

/-! ## Whole paragraphs -/

/-- **An element with text is read at every depth** on a line of its own, with the same text. -/
theorem reads_indented_spans {head : Head Classes} {parts : List (Span Classes)}
    (h : (Markup.leaf head (.spans parts)).IsSound mode) (n : Nat) :
    Reads mode .text (indent^[n] ((Markup.leaf head (.spans parts)).render mode))
      (lineTokens n ++ .opening (Tag.indented^[n] (tagOf mode head.tag (head.attributes mode))) ::
        (indentTokens^[n] (parts.flatMap (Span.tokens mode)) ++ [.closing head.tag.toList]))
      .text := by
  have hreads := h.reads_render.indented_iterate n
  rw [tokens, Content.tokens, indentTokens_iterate_line, indentTokens_iterate_element] at hreads
  exact hreads

end Artboard.Markup
