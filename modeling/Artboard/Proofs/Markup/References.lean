import Artboard.Proofs.Markup.Indentation

/-!
# Character references

What is written as a character reference is read back as the character (`decode`): a name between
an ampersand and a semicolon, or a number in decimal digits behind a `#`. An ampersand without such
a reference behind it stands for itself.

Escaping loses nothing: attribute values (`decode_escapeAttribute`) and texts (`decode_lineChars`)
are read back as they were. Indentation is not undone by this. It adds blanks behind line feeds,
which are not escaped in attribute values, so an indented value is read back as the indented text
(`decode_indent_escapeAttribute`).
-/

namespace Artboard.Markup

variable {mode : Mode}

/-! ## Reading references -/

/-- Whether a character may stand between the ampersand and the semicolon of a reference. -/
def isReferenceChar (c : Char) : Bool := c.isAlphanum || c == '#'

/-- The character that a reference stands for. -/
def referenced? : List Char → Option Char
  | ['a', 'm', 'p'] => some '&'
  | ['l', 't'] => some '<'
  | ['g', 't'] => some '>'
  | ['q', 'u', 'o', 't'] => some '"'
  | '#' :: d :: digits =>
    if (d :: digits).all Char.isDigit then
      some (Char.ofNat ((d :: digits).foldl (fun n d => 10 * n + (d.toNat - '0'.toNat)) 0))
    else none
  | _ => none

/-- What some characters stand for; behind an ampersand, `seen` came since. -/
def decodeAfter : Option (List Char) → List Char → List Char
  | none, [] => []
  | some seen, [] => '&' :: seen
  | none, c :: rest => if c = '&' then decodeAfter (some []) rest else c :: decodeAfter none rest
  | some seen, c :: rest =>
    if c = ';' then
      match referenced? seen with
      | some d => d :: decodeAfter none rest
      | none => '&' :: seen ++ ';' :: decodeAfter none rest
    else if c = '&' then '&' :: seen ++ decodeAfter (some []) rest
    else if isReferenceChar c then decodeAfter (some (seen ++ [c])) rest
    else '&' :: seen ++ c :: decodeAfter none rest

/-- What some characters stand for. -/
def decode (text : List Char) : List Char := decodeAfter none text

example : decode "a &lt; b &amp;lt; &#65;&nbsp; & c".toList = "a < b &lt; A&nbsp; & c".toList := by
  decide

theorem decode_cons {c : Char} (hc : c ≠ '&') (rest : List Char) :
    decode (c :: rest) = c :: decode rest := by
  rw [decode, decodeAfter, if_neg hc, decode]

/-- Text whose characters are read back one by one is read back. -/
theorem decode_flatMap {f : Char → List Char}
    (h : ∀ c rest, decode (f c ++ rest) = c :: decode rest) (text : List Char) :
    decode (text.flatMap f) = text := by
  induction text with
  | nil => rfl
  | cons c text ih => rw [List.flatMap_cons, h, ih]

/-! ## Attribute values -/

theorem decode_attributeChar (c : Char) (rest : List Char) :
    decode (attributeChar c ++ rest) = c :: decode rest := by
  unfold attributeChar
  split
  case h_6 hamp _ _ _ _ => exact decode_cons hamp rest
  all_goals rfl

/-- **Escaped values are read back.** -/
theorem decode_escapeAttribute (text : List Char) : decode (escapeAttribute text) = text :=
  decode_flatMap decode_attributeChar text

/-! ## Texts -/

/-- A character of escaped text with line breaks read as line feeds. -/
def lineChar (mode : Mode) (c : Char) : List Char := if c = '\n' then [c] else textChar mode c

theorem decode_lineChar (mode : Mode) (c : Char) (rest : List Char) :
    decode (lineChar mode c ++ rest) = c :: decode rest := by
  unfold lineChar
  split_ifs with hline
  · subst hline
    rfl
  · unfold textChar
    split
    case h_4 => exact absurd rfl hline
    case h_7 hamp _ _ _ _ _ => exact decode_cons hamp rest
    all_goals first | rfl | (cases mode <;> rfl)

/-- **Escaped texts are read back.** -/
theorem decode_lineChars (mode : Mode) (text : List Char) :
    decode (text.flatMap (lineChar mode)) = text :=
  decode_flatMap (decode_lineChar mode) text

/-! ## Indentation -/

theorem indent_attributeChar (c : Char) :
    indent (attributeChar c) = (indentChar c).flatMap attributeChar := by
  by_cases hc : c = '\n'
  · subst hc
    rfl
  · rw [indentChar, if_neg hc, List.flatMap_singleton]
    unfold attributeChar
    split
    case h_6 => simp [indent, indentChar, hc]
    all_goals rfl

/-- Indenting an escaped value gives the escaped value of the indented text. -/
theorem indent_escapeAttribute (text : List Char) :
    indent (escapeAttribute text) = escapeAttribute (indent text) := by
  rw [escapeAttribute, escapeAttribute, indent, indent, List.flatMap_assoc, List.flatMap_assoc]
  exact List.flatMap_congr fun c _ => indent_attributeChar c

theorem indent_iterate_escapeAttribute (n : Nat) (text : List Char) :
    indent^[n] (escapeAttribute text) = escapeAttribute (indent^[n] text) :=
  (Function.Commute.iterate_left indent_escapeAttribute n) text

/-- **Indented values are read back as indented texts.** -/
theorem decode_indent_escapeAttribute (n : Nat) (text : List Char) :
    decode (indent^[n] (escapeAttribute text)) = indent^[n] text := by
  rw [indent_iterate_escapeAttribute, decode_escapeAttribute]

/-- Text with blanks behind every line feed. -/
def indentBy (blanks : Nat) (text : List Char) : List Char :=
  text.flatMap fun c => if c = '\n' then c :: List.replicate blanks ' ' else [c]

/-- Each level of indentation is two blanks. -/
theorem indent_iterate_eq (n : Nat) (text : List Char) :
    indent^[n] text = indentBy (2 * n) text := by
  induction n with
  | zero => simp [indentBy]
  | succ n ih =>
    rw [Function.iterate_succ_apply', ih, indent, indentBy, indentBy, List.flatMap_assoc]
    refine List.flatMap_congr fun c _ => ?_
    split_ifs with hc
    · have hblanks :
          List.replicate (2 * (n + 1)) ' ' = [' ', ' '] ++ List.replicate (2 * n) ' ' := by
        rw [Nat.mul_succ, Nat.add_comm, ← List.replicate_append_replicate]
        rfl
      simp [hc, hblanks, indentChar, List.flatMap_replicate]
    · simp [hc, indentChar]

/-- Text without line feeds is all that stays the same. -/
theorem indentBy_eq_self_iff {blanks : Nat} {text : List Char} :
    indentBy blanks text = text ↔ blanks = 0 ∨ '\n' ∉ text := by
  have hlength : (indentBy blanks text).length = text.length + blanks * text.count '\n' := by
    induction text with
    | nil => rfl
    | cons c text ih =>
      rw [indentBy, List.flatMap_cons, List.length_append, ← indentBy, ih]
      by_cases hc : c = '\n'
      · simp [hc]
        ring
      · simp [hc]
        omega
  constructor
  · intro h
    rw [h, left_eq_add, mul_eq_zero, List.count_eq_zero] at hlength
    exact hlength
  · rintro (rfl | h)
    · simp [indentBy]
    · refine (List.flatMap_congr fun c hc => if_neg (ne_of_mem_of_not_mem hc h)).trans ?_
      exact List.flatMap_singleton' text

end Artboard.Markup
