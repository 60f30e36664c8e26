import Artboard.Proofs.Markup.References
import Artboard.Proofs.Markup.Surroundings

/-!
# Elements at places

What a reader finds where an element is written inside others: a line feed with the blanks of its
depth, and then what it would find of the element alone, indented once for every element around it
(`Context.exists_reads_startTag`). Start tags keep their names and the names of their attributes,
and the values of attributes are read back as indented texts (`Written.shows_of_text`).
-/

namespace Artboard.Markup

variable {mode : Mode} {tag : String} {attributes : List Attribute}

/-! ## Indented again and again -/

theorem indent_iterate_append (n : Nat) (cs ds : List Char) :
    indent^[n] (cs ++ ds) = indent^[n] cs ++ indent^[n] ds :=
  Function.Semiconj₂.iterate indent_append n cs ds

theorem Reads.indented_iterate {cs : List Char} {ts : List Token} (h : Reads mode .text cs ts .text)
    (n : Nat) : Reads mode .text (indent^[n] cs) (indentTokens^[n] ts) .text := by
  induction n with
  | zero => exact h
  | succ n ih =>
    rw [Function.iterate_succ_apply', Function.iterate_succ_apply']
    exact ih.indented

theorem indentTokens_chars (cs : List Char) :
    indentTokens (cs.map .char) = (indent cs).map .char := by
  rw [indentTokens, indent, List.flatMap_map, List.map_flatMap]
  rfl

/-- What a token of a text is at a depth. -/
def Token.indentedBy (n : Nat) : Token → List Token
  | .char c => (indent^[n] [c]).map .char
  | .comment text => [.comment (indent^[n] text)]
  | .opening t => [.opening (Tag.indented^[n] t)]
  | .single t => [.single (Tag.indented^[n] t)]
  | .closing name => [.closing name]

theorem indentTokens_iterate_eq (n : Nat) (ts : List Token) :
    indentTokens^[n] ts = ts.flatMap (Token.indentedBy n) := by
  induction n with
  | zero =>
    refine (List.flatMap_singleton' ts).symm.trans (List.flatMap_congr fun t _ => ?_)
    cases t <;> rfl
  | succ n ih =>
    rw [Function.iterate_succ_apply', ih, indentTokens, List.flatMap_assoc]
    refine List.flatMap_congr fun t _ => ?_
    cases t with
    | char c =>
      rw [Token.indentedBy, Token.indentedBy, Function.iterate_succ_apply']
      exact indentTokens_chars _
    | comment | opening | single =>
      rw [Token.indentedBy, Token.indentedBy, Function.iterate_succ_apply']
      rfl
    | closing => rfl

theorem indentTokens_iterate_append (n : Nat) (ts us : List Token) :
    indentTokens^[n] (ts ++ us) = indentTokens^[n] ts ++ indentTokens^[n] us :=
  Function.Semiconj₂.iterate indentTokens_append n ts us

/-- The tokens of a new line at a depth. -/
def lineTokens (depth : Nat) : List Token := .char '\n' :: List.replicate (2 * depth) (.char ' ')

theorem indentTokens_iterate_line (n : Nat) (ts : List Token) :
    indentTokens^[n] (.char '\n' :: ts) = lineTokens n ++ indentTokens^[n] ts := by
  have hline : Token.indentedBy n (.char '\n') = lineTokens n := by
    rw [Token.indentedBy, indent_iterate_eq, lineTokens]
    simp [indentBy]
  rw [indentTokens_iterate_eq, indentTokens_iterate_eq, List.flatMap_cons, hline]

/-! ## Values -/

theorem Tag.indented_iterate (n : Nat) (t : Tag) :
    Tag.indented^[n] t =
      { t with attributes := t.attributes.map fun a => (a.1, Written.indented^[n] a.2) } := by
  induction n with
  | zero => simp
  | succ n ih =>
    rw [Function.iterate_succ_apply', ih, Tag.indented]
    simp [Function.iterate_succ_apply', Function.comp_def]

@[simp] theorem Tag.name_indented_iterate (n : Nat) (t : Tag) :
    (Tag.indented^[n] t).name = t.name := by
  rw [Tag.indented_iterate]

theorem Written.indented_iterate_quoted (n : Nat) (value : List Char) :
    Written.indented^[n] (.quoted value) = .quoted (indent^[n] value) := by
  induction n with
  | zero => rfl
  | succ n ih =>
    rw [Function.iterate_succ_apply', ih, Written.indented, Function.iterate_succ_apply']

/-- A value as it stands in a tag at a depth: read back, it has two more blanks behind every line
feed for each element around. -/
def Written.Shows (n : Nat) (w : Written) (original : String) : Prop :=
  ∃ value, w = .quoted value ∧ decode value = indentBy (2 * n) original.toList

theorem Written.shows_of_text {a : Attribute} {s : String} (ha : a.2 = .text s) (n : Nat) :
    (Written.indented^[n] (a.written mode)).Shows n s := by
  obtain ⟨name, value⟩ := a
  obtain rfl : value = .text s := ha
  refine ⟨_, indented_iterate_quoted n _, ?_⟩
  rw [decode_indent_escapeAttribute, indent_iterate_eq]

/-- The attributes of a tag at a depth are those of the element. -/
theorem exists_of_mem_attributes {n : Nat} {key : List Char} {w : Written}
    (h : (key, w) ∈ (Tag.indented^[n] (tagOf mode tag attributes)).attributes) :
    ∃ a ∈ attributes, a.1.toList = key ∧ Written.indented^[n] (a.written mode) = w := by
  rw [Tag.indented_iterate] at h
  simpa [tagOf] using h

/-! ## Start tags -/

/-- The start of an element, on a line of its own. -/
def startTag (mode : Mode) (tag : String) (attributes : List Attribute) (isSelfClosing : Bool) :
    List Char :=
  "\n<".toList ++ tag.toList ++ renderAttributes mode attributes ++
    if isSelfClosing then " />".toList else ['>']

/-- A start tag as it is read. -/
def startToken (isSelfClosing : Bool) (t : Tag) : Token :=
  if isSelfClosing then .single t else .opening t

theorem IsSoundTag.reads_startTag (h : IsSoundTag mode tag attributes) (isSelfClosing : Bool) :
    Reads mode .text (startTag mode tag attributes isSelfClosing)
      [.char '\n', startToken isSelfClosing (tagOf mode tag attributes)] .text := by
  obtain ⟨q, hreads, hq⟩ := h.exists_reads
  cases isSelfClosing with
  | false => exact hreads.append hq.reads_end
  | true => exact hreads.append hq.reads_selfClosing

theorem indentTokens_startTag (n : Nat) (isSelfClosing : Bool) (t : Tag) :
    indentTokens^[n] [.char '\n', startToken isSelfClosing t] =
      lineTokens n ++ [startToken isSelfClosing (Tag.indented^[n] t)] := by
  rw [indentTokens_iterate_line, indentTokens_iterate_eq, List.flatMap_singleton]
  cases isSelfClosing <;> rfl

variable {σ : Type}

/-- The start of the element that markup is, unless it is a comment. -/
def head? : Markup σ → Option (Head σ)
  | .comment _ => none
  | .leaf head _ | .parent head _ => some head

theorem exists_render_eq_startTag {m : Markup Classes} {head : Head Classes}
    (h : m.head? = some head) (mode : Mode) :
    ∃ isSelfClosing rest, m.render mode =
      startTag mode head.tag (head.attributes mode) isSelfClosing ++ rest := by
  have hopening (rest : List Char) :
      "\n<".toList ++ head.tag.toList ++ renderAttributes mode (head.attributes mode) ++
          '>' :: rest =
        startTag mode head.tag (head.attributes mode) false ++ rest := by
    simp [startTag]
  cases m with
  | comment text => cases h
  | parent head children =>
    obtain rfl := Option.some.inj h
    exact ⟨false, _, hopening _⟩
  | leaf head content =>
    obtain rfl := Option.some.inj h
    cases content with
    | empty =>
      by_cases hself : isSelfClosing mode head.tag = true
      · refine ⟨true, [], ?_⟩
        rw [render, Content.body, renderElement, renderBody, if_pos hself, List.append_nil]
        rfl
      · refine ⟨false, endTag head.tag, ?_⟩
        rw [render, Content.body, renderElement, renderBody, if_neg hself]
        exact hopening _
    | spans parts => exact ⟨false, _, hopening _⟩
    | block text => exact ⟨false, _, hopening _⟩

/-- **What a reader finds where an element begins.** -/
theorem Context.exists_reads_startTag (f : σ → Classes) (c : Context σ) {m : Markup σ}
    {head : Head σ} (hhead : m.head? = some head)
    (hsound : IsSoundTag mode head.tag ((head.map f).attributes mode)) :
    ∃ before written after isSelfClosing,
      renderAll mode (mapAll f (c.fill m)) = before ++ written ++ after ∧
        Reads mode .text written (lineTokens c.depth ++ [startToken isSelfClosing
          (Tag.indented^[c.depth] (tagOf mode head.tag ((head.map f).attributes mode)))]) .text ∧
        ((∀ n ∈ mapAll f (c.fill m), n.IsSound mode) → ∃ ts, Reads mode .text before ts .text) := by
  have hmapped : (m.map f).head? = some (head.map f) := by
    cases m with
    | comment text => cases hhead
    | leaf | parent =>
      obtain rfl := Option.some.inj hhead
      rfl
  obtain ⟨before, after, htext, hread⟩ := c.exists_renderAll_fill mode f
  obtain ⟨isSelfClosing, rest, hrender⟩ := exists_render_eq_startTag hmapped mode
  refine ⟨before, _, indent^[c.depth] rest ++ after, isSelfClosing, ?_,
    indentTokens_startTag .. ▸ (hsound.reads_startTag isSelfClosing).indented_iterate c.depth,
    hread m⟩
  rw [htext, hrender, indent_iterate_append]
  simp only [List.append_assoc, Head.map]

end Artboard.Markup
