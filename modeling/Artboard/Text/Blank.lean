/-!
# Blank characters

What counts as blank space in layer names, colours and settings is the Unicode property
`White_Space`: the no-break space, the ideographic space and the next-line control belong to it,
the zero-width space and the byte-order mark do not.

**Trimming** (`trim`) removes blanks at both ends. **Words** (`words`) are the longest runs
without a blank. **Pieces** (`pieces`) are what stands between the characters of a class, empty
pieces included.

Main results: `trim_blank_free` (a text without blanks is its own trim) and `flatten_pieces`
(no character outside the class is lost by splitting).
-/

namespace Artboard.Text

/-- The characters with the Unicode property `White_Space`. -/
def isBlank (c : Char) : Bool :=
  let n := c.toNat
  (9 ≤ n && n ≤ 13) || n == 0x20 || n == 0x85 || n == 0xA0 || n == 0x1680 ||
    (0x2000 ≤ n && n ≤ 0x200A) || n == 0x2028 || n == 0x2029 || n == 0x202F || n == 0x205F ||
    n == 0x3000

/-! ## Trimming -/

def trimStart (cs : List Char) : List Char := cs.dropWhile isBlank

def trimEnd (cs : List Char) : List Char := (cs.reverse.dropWhile isBlank).reverse

/-- The text without the blanks at either end. -/
def trim (cs : List Char) : List Char := trimEnd (trimStart cs)

/-- Whether nothing but blanks is left. -/
def allBlank (cs : List Char) : Bool := cs.all isBlank

/-- `trim` on strings. -/
def trimmed (s : String) : String := String.ofList (trim s.toList)

/-! ## Splitting -/

/-- What stands between the characters of the class `p`; a text with `n` of them has `n + 1`
pieces. -/
def pieces (p : Char → Bool) : List Char → List (List Char)
  | [] => [[]]
  | c :: cs =>
    if p c then [] :: pieces p cs
    else match pieces p cs with
      | [] => [[c]]
      | piece :: rest => (c :: piece) :: rest

/-- The longest runs without a character of the class `p`. -/
def fieldsOf (p : Char → Bool) (cs : List Char) : List (List Char) :=
  (pieces p cs).filter fun piece => !piece.isEmpty

/-- The longest runs without a blank. -/
def words (cs : List Char) : List (List Char) := fieldsOf isBlank cs

/-- The pieces, with `sep` between neighbours. -/
def joinWith (sep : List Char) : List (List Char) → List Char
  | [] => []
  | [piece] => piece
  | piece :: rest => piece ++ sep ++ joinWith sep rest

/-- Whether `word` stands somewhere in the text. -/
def occurs (word : List Char) : List Char → Bool
  | [] => word.isEmpty
  | c :: cs => word.isPrefixOf (c :: cs) || occurs word cs

/-! ## Lines -/

/-- The line without the carriage return that ends it. -/
def dropReturn (line : List Char) : List Char :=
  if line.getLast? = some '\r' then line.dropLast else line

/-- The lines of a text. A line ends with a line feed, which may follow a carriage return; the
last line needs no ending, and nothing follows the last ending. -/
def lines (cs : List Char) : List (List Char) :=
  let all := pieces (· == '\n') cs
  let ended := all.dropLast.map dropReturn
  match all.getLast? with
  | some [] | none => ended
  | some last => ended ++ [last]

/-! ## Laws -/

theorem pieces_ne_nil (p : Char → Bool) (cs : List Char) : pieces p cs ≠ [] := by
  cases cs with
  | nil => simp [pieces]
  | cons c cs =>
    unfold pieces
    split
    · simp
    · split <;> simp

/-- **Splitting loses only the characters it splits at.** -/
theorem flatten_pieces (p : Char → Bool) (cs : List Char) :
    (pieces p cs).flatten = cs.filter fun c => !p c := by
  induction cs with
  | nil => rfl
  | cons c cs ih =>
    by_cases h : p c
    · simp [pieces, h, ih]
    · rcases hs : pieces p cs with _ | ⟨piece, rest⟩
      · exact absurd hs (pieces_ne_nil p cs)
      · simp [pieces, h, hs, ← ih]

/-- What was split is put together again. -/
theorem joinWith_pieces (sep : Char) (cs : List Char) :
    joinWith [sep] (pieces (· == sep) cs) = cs := by
  induction cs with
  | nil => rfl
  | cons c cs ih =>
    obtain ⟨piece, rest, hpieces⟩ := List.exists_cons_of_ne_nil (pieces_ne_nil (· == sep) cs)
    rw [hpieces] at ih
    by_cases hc : c = sep
    · simp [pieces, hc, hpieces, joinWith, ih]
    · cases rest with
      | nil => simpa [pieces, hc, hpieces, joinWith] using ih
      | cons next rest => simpa [pieces, hc, hpieces, joinWith] using ih

/-- What stands around a character of the class is split apart. -/
theorem pieces_append_cons {p : Char → Bool} {c : Char} (hc : p c = true) (cs rest : List Char) :
    pieces p (cs ++ c :: rest) = pieces p cs ++ pieces p rest := by
  induction cs with
  | nil => simp [pieces, hc]
  | cons d cs ih =>
    obtain ⟨piece, others, hpieces⟩ := List.exists_cons_of_ne_nil (pieces_ne_nil p cs)
    rw [hpieces] at ih
    by_cases hd : p d = true <;> simp [pieces, hd, hpieces, ih]

/-- Without a character of the class there is one piece. -/
theorem pieces_of_free {p : Char → Bool} {cs : List Char} (h : ∀ c ∈ cs, p c = false) :
    pieces p cs = [cs] := by
  induction cs with
  | nil => rfl
  | cons c cs ih =>
    obtain ⟨hc, hrest⟩ := List.forall_mem_cons.1 h
    simp [pieces, hc, ih hrest]

theorem trimStart_blank_free {cs : List Char} (h : ∀ c ∈ cs, isBlank c = false) :
    trimStart cs = cs := by
  cases cs with
  | nil => rfl
  | cons c cs => simp [trimStart, List.dropWhile, h c (by simp)]

/-- **A text without blanks is its own trim.** -/
theorem trim_blank_free {cs : List Char} (h : ∀ c ∈ cs, isBlank c = false) : trim cs = cs := by
  have hr : trimStart cs.reverse = cs.reverse := trimStart_blank_free (by simpa using h)
  rw [trim, trimStart_blank_free h, trimEnd, ← trimStart, hr, List.reverse_reverse]

end Artboard.Text
