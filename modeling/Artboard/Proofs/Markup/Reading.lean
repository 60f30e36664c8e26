import Artboard.Markup.Reader
import Artboard.Markup.Tree
import Mathlib.Tactic

/-!
# What is read back

What the parts of generated markup are read as: text without tags of its own, names, attributes,
start and end tags, and comments.

**Representation.** `Reads mode p cs ts q` says that a reader at `p` gets over the characters `cs`
to `q`, and reads the tokens `ts` on the way. Readings in a row make one reading (`Reads.append`).

**Attributes.** Behind the name of a tag, behind a value and behind a flag a reader is in different
places, but goes on in the same way: `Ready mode p t`.
-/

namespace Artboard.Markup

variable {mode : Mode} {p q r : Position} {c : Char} {cs ds : List Char} {ts us : List Token}

/-! ## Readings -/

def Reads (mode : Mode) (p : Position) (cs : List Char) (ts : List Token) (q : Position) : Prop :=
  p.run mode cs = some (ts, q)

namespace Reads

theorem nil : Reads mode p [] [] p := rfl

theorem cons (h : p.step mode c = some (ts, q)) (hrest : Reads mode q cs us r) :
    Reads mode p (c :: cs) (ts ++ us) r := by
  rw [Reads, Position.run, h]
  show (q.run mode cs >>= _) = _
  rw [hrest]
  rfl

theorem one (h : p.step mode c = some (ts, q)) : Reads mode p [c] ts q := by
  simpa using cons h nil

theorem cons_iff : Reads mode p (c :: cs) ts r ↔
    ∃ us q us', p.step mode c = some (us, q) ∧ Reads mode q cs us' r ∧ ts = us ++ us' := by
  constructor
  · intro h
    rw [Reads, Position.run] at h
    obtain ⟨⟨us, q⟩, hstep, h⟩ := Option.bind_eq_some_iff.1 h
    obtain ⟨⟨us', r'⟩, hrest, h⟩ := Option.bind_eq_some_iff.1 h
    obtain ⟨rfl, rfl⟩ := Prod.mk.inj (Option.some.inj h)
    exact ⟨us, q, us', hstep, hrest, rfl⟩
  · rintro ⟨us, q, us', hstep, hrest, rfl⟩
    exact cons hstep hrest

theorem append (h : Reads mode p cs ts q) (hrest : Reads mode q ds us r) :
    Reads mode p (cs ++ ds) (ts ++ us) r := by
  induction cs generalizing p ts with
  | nil =>
    obtain ⟨rfl, rfl⟩ := Prod.mk.inj (Option.some.inj h)
    exact hrest
  | cons c cs ih =>
    obtain ⟨vs, q', vs', hstep, hmiddle, rfl⟩ := cons_iff.1 h
    rw [List.append_assoc]
    exact cons hstep (ih hmiddle)

end Reads

/-- Characters of a class that a reader only collects. -/
theorem Reads.collect {f : List Char → Position} {P : Char → Prop}
    (hstep : ∀ seen c, P c → (f seen).step mode c = some ([], f (seen ++ [c]))) {seen : List Char}
    (h : ∀ c ∈ cs, P c) : Reads mode (f seen) cs [] (f (seen ++ cs)) := by
  induction cs generalizing seen with
  | nil => simpa using Reads.nil
  | cons c cs ih =>
    rw [List.forall_mem_cons] at h
    simpa using Reads.cons (hstep seen c h.1) (ih h.2)

/-! ## Text -/

/-- A clean character is read as itself. -/
theorem reads_char (h : (Token.char c).isClean mode = true) :
    Reads mode .text [c] [.char c] .text := by
  refine .one ?_
  rw [Position.step, if_neg]
  cases mode <;> simp_all [Token.isClean, Mode.isJsx]

theorem reads_chars (h : ∀ c ∈ cs, (Token.char c).isClean mode = true) :
    Reads mode .text cs (cs.map .char) .text := by
  induction cs with
  | nil => exact .nil
  | cons c cs ih =>
    rw [List.forall_mem_cons] at h
    exact (reads_char h.1).append (ih h.2)

theorem reads_line (mode : Mode) : Reads mode .text ['\n'] [.char '\n'] .text := by
  cases mode <;> rfl

/-- The tokens of a character of escaped text: a line feed becomes a tag. -/
def charTokens (mode : Mode) (c : Char) : List Token :=
  if c = '\n' then [.single { name := "br".toList }] else (textChar mode c).map .char

def textTokens (mode : Mode) (text : List Char) : List Token := text.flatMap (charTokens mode)

theorem isClean_textChar (hc : c ≠ '\n') :
    ∀ d ∈ textChar mode c, (Token.char d).isClean mode = true := by
  have hall : (textChar mode c).all (fun d => (Token.char d).isClean mode) = true := by
    unfold textChar
    split
    all_goals first | (cases mode <;> decide) | skip
    · exact absurd rfl hc
    · cases mode <;> simp_all [Token.isClean, Mode.isJsx]
  exact List.all_eq_true.1 hall

theorem reads_textChar (mode : Mode) (c : Char) :
    Reads mode .text (textChar mode c) (charTokens mode c) .text := by
  rw [charTokens]
  split_ifs with hc
  · subst hc
    cases mode <;> rfl
  · exact reads_chars (isClean_textChar hc)

theorem reads_escapeText (mode : Mode) (text : List Char) :
    Reads mode .text (escapeText mode text) (textTokens mode text) .text := by
  induction text with
  | nil => exact .nil
  | cons c text ih => exact (reads_textChar mode c).append ih

/-! ## Names -/

/-- Whether some characters are a name. -/
def isName : List Char → Bool
  | [] => false
  | c :: rest => c.isAlpha && rest.all isNameChar

theorem isNameChar_of_isAlpha (h : c.isAlpha = true) : isNameChar c = true := by
  simp [isNameChar, Char.isAlphanum, h]

theorem isName_cons :
    isName (c :: cs) = true ↔ c.isAlpha = true ∧ ∀ c ∈ cs, isNameChar c = true := by
  rw [isName, Bool.and_eq_true, List.all_eq_true]

theorem isNameChar_of_isName (h : isName cs = true) : ∀ c ∈ cs, isNameChar c = true := by
  cases cs with
  | nil => nofun
  | cons c cs =>
    obtain ⟨hc, hcs⟩ := isName_cons.1 h
    exact List.forall_mem_cons.2 ⟨isNameChar_of_isAlpha hc, hcs⟩

theorem reads_start (mode : Mode) : Reads mode .text ['<'] [] (.start ['<']) := by
  cases mode <;> rfl

theorem reads_inName {t : Tag} (h : ∀ c ∈ cs, isNameChar c = true) :
    Reads mode (.tag t .inName) cs [] (.tag { t with name := t.name ++ cs } .inName) := by
  refine Reads.collect (f := fun seen => .tag { t with name := seen } .inName)
    (fun seen c hc => ?_) h
  simp [Position.step, Place.step, hc]

theorem reads_tagName (h : isName cs = true) :
    Reads mode .text ('<' :: cs) [] (.tag { name := cs } .inName) := by
  cases cs with
  | nil => cases h
  | cons c cs =>
    rw [isName_cons] at h
    have hstep : (Position.start ['<']).step mode c = some ([], .tag { name := [c] } .inName) := by
      have hbang : c ≠ '!' := by rintro rfl; exact absurd h.1 (by decide)
      have hslash : c ≠ '/' := by rintro rfl; exact absurd h.1 (by decide)
      cases mode <;>
        simp [Position.step, commentStart, h.1, hbang, hslash]
    exact (reads_start mode).append (.cons hstep (reads_inName h.2))

theorem reads_ending {name : List Char} (h : ∀ c ∈ cs, isNameChar c = true) :
    Reads mode (.ending name) cs [] (.ending (name ++ cs)) := by
  refine Reads.collect (f := .ending) (fun seen c hc => ?_) h
  simp [Position.step, hc]

theorem reads_endTag {tag : String} (h : isName tag.toList = true) :
    Reads mode .text (endTag tag) [.closing tag.toList] .text := by
  have hslash : Reads mode .text "</".toList [] (.ending []) := by cases mode <;> rfl
  have hclose : Reads mode (.ending tag.toList) ['>'] [.closing tag.toList] .text := by
    cases mode <;> rfl
  exact (hslash.append (reads_ending (isNameChar_of_isName h))).append hclose

/-! ## Attributes -/

/-- A reader that goes on as behind the name and the attributes of a tag. -/
def Ready (mode : Mode) (p : Position) (t : Tag) : Prop :=
  ∀ c, isNameChar c = false → c ≠ '=' → p.step mode c = boundary t c

theorem ready_inName (mode : Mode) (t : Tag) : Ready mode (.tag t .inName) t := by
  intro c hname _
  simp [Position.step, Place.step, hname]

theorem ready_behind (mode : Mode) (t : Tag) : Ready mode (.tag t .behind) t := fun _ _ _ => rfl

theorem ready_inKey (mode : Mode) (t : Tag) (key : List Char) :
    Ready mode (.tag t (.inKey key)) (t.add key .bare) := by
  intro c hname hequals
  simp [Position.step, Place.step, hname, hequals]

theorem Ready.reads_blank {t : Tag} (h : Ready mode p t) :
    Reads mode p [' '] [] (.tag t .between) :=
  .one ((h ' ' (by decide) (by decide)).trans (by rfl))

theorem Ready.reads_end {t : Tag} (h : Ready mode p t) :
    Reads mode p ['>'] [.opening t] .text :=
  .one ((h '>' (by decide) (by decide)).trans (by rfl))

theorem Ready.reads_selfClosing {t : Tag} (h : Ready mode p t) :
    Reads mode p " />".toList [.single t] .text :=
  h.reads_blank.append (by cases mode <;> rfl)

theorem reads_inKey {t : Tag} {key : List Char} (h : ∀ c ∈ cs, isNameChar c = true) :
    Reads mode (.tag t (.inKey key)) cs [] (.tag t (.inKey (key ++ cs))) := by
  refine Reads.collect (f := fun seen => .tag t (.inKey seen)) (fun seen c hc => ?_) h
  simp [Position.step, Place.step, hc]

theorem Ready.reads_key {t : Tag} {key : List Char} (h : Ready mode p t)
    (hkey : isName key = true) : Reads mode p (' ' :: key) [] (.tag t (.inKey key)) := by
  cases key with
  | nil => cases hkey
  | cons c key =>
    rw [isName_cons] at hkey
    have hstep : (Position.tag t .between).step mode c = some ([], .tag t (.inKey [c])) := by
      simp [Position.step, Place.step, hkey.1]
    exact h.reads_blank.append (.cons hstep (reads_inKey hkey.2))

theorem reads_quoted {t : Tag} {key value : List Char} (h : '"' ∉ cs) :
    Reads mode (.tag t (.quoted key value)) cs [] (.tag t (.quoted key (value ++ cs))) := by
  refine Reads.collect (f := fun seen => .tag t (.quoted key seen)) (P := (· ≠ '"'))
    (fun seen c hc => ?_) fun c hc => ne_of_mem_of_not_mem hc h
  simp [Position.step, Place.step, hc]

/-! ### Escaped values -/

theorem isClean_attributeChar (c : Char) : (Written.quoted (attributeChar c)).isClean = true := by
  unfold attributeChar
  split
  all_goals first | decide | skip
  simp_all [Written.isClean]

theorem isClean_escapeAttribute (text : List Char) :
    (Written.quoted (escapeAttribute text)).isClean = true := by
  simp only [Written.isClean, List.all_eq_true, escapeAttribute, List.mem_flatMap]
  rintro d ⟨c, -, hd⟩
  exact List.all_eq_true.1 (isClean_attributeChar c) d hd

theorem quote_not_mem_escapeAttribute (text : List Char) : '"' ∉ escapeAttribute text := by
  intro h
  have hclean := List.all_eq_true.1 (isClean_escapeAttribute text) _ h
  exact absurd hclean (by decide)

/-! ### Expressions -/

/-- Whether some characters are an expression: no brace of it ends what stands around it, and
everything that it opens it ends. -/
def IsExpression (cs : List Char) : Prop :=
  ∀ depth, cs.foldlM Nesting.step { depth } = some { depth }

theorem Nesting.step_of_ne {n : Nesting} (hquote : c ≠ '"') (hopen : c ≠ '\x7b')
    (hclose : c ≠ '\x7d') : n.step c = some n := by
  obtain ⟨depth, inString⟩ := n
  cases inString <;> simp [step, hquote, hopen, hclose]

theorem reads_braced {t : Tag} {key expression : List Char} {n n' : Nesting}
    (h : cs.foldlM Nesting.step n = some n') :
    Reads mode (.tag t (.braced key expression n)) cs []
      (.tag t (.braced key (expression ++ cs) n')) := by
  induction cs generalizing n expression with
  | nil =>
    obtain rfl : n = n' := Option.some.inj h
    simpa using Reads.nil
  | cons c cs ih =>
    rw [List.foldlM_cons] at h
    obtain ⟨k, hk, h⟩ := Option.bind_eq_some_iff.1 h
    have hstep : (Position.tag t (.braced key expression n)).step mode c =
        some ([], .tag t (.braced key (expression ++ [c]) k)) := by
      simp [Position.step, Place.step, hk]
    simpa using Reads.cons hstep (ih h)

/-! ### Generated attributes -/

/-- How an attribute stands in a tag. -/
def Attribute.written (mode : Mode) (a : Attribute) : Written :=
  match a.2, mode with
  | .text s, _ | .expr s, .html => .quoted (escapeAttribute s.toList)
  | .expr s, .jsx => .braced s.toList
  | .flag, _ => .bare

/-- An attribute that is read back: its name is one, and between braces there is an expression. -/
structure Attribute.IsSound (mode : Mode) (a : Attribute) : Prop where
  name : isName a.1.toList = true
  expression : ∀ s, a.2 = .expr s → mode.isJsx = true → IsExpression s.toList

theorem Ready.reads_quoted {t : Tag} {name : String} (h : Ready mode p t)
    (hname : isName name.toList = true) (value : String) :
    Reads mode p (quoted name value) []
      (.tag (t.add name.toList (.quoted (escapeAttribute value.toList))) .behind) := by
  have hequals : Reads mode (.tag t (.inKey name.toList)) "=\"".toList []
      (.tag t (.quoted name.toList [])) := by cases mode <;> rfl
  have hclose : Reads mode (.tag t (.quoted name.toList (escapeAttribute value.toList))) ['"'] []
      (.tag (t.add name.toList (.quoted (escapeAttribute value.toList))) .behind) := by
    cases mode <;> rfl
  exact (((h.reads_key hname).append hequals).append
    (Markup.reads_quoted (quote_not_mem_escapeAttribute _))).append hclose

theorem Ready.reads_expression {t : Tag} {name value : String} (h : Ready .jsx p t)
    (hname : isName name.toList = true) (hvalue : IsExpression value.toList) :
    Reads .jsx p (renderAttribute .jsx (name, .expr value)) []
      (.tag (t.add name.toList (.braced value.toList)) .behind) := by
  have hequals : Reads .jsx (.tag t (.inKey name.toList)) "=\x7b".toList []
      (.tag t (.braced name.toList [] {})) := rfl
  have hclose : Reads .jsx (.tag t (.braced name.toList value.toList {})) ['\x7d'] []
      (.tag (t.add name.toList (.braced value.toList)) .behind) := rfl
  exact (((h.reads_key hname).append hequals).append (reads_braced (hvalue 0))).append hclose

theorem Ready.exists_reads_attribute {t : Tag} {a : Attribute} (h : Ready mode p t)
    (ha : a.IsSound mode) :
    ∃ q, Reads mode p (renderAttribute mode a) [] q ∧
      Ready mode q (t.add a.1.toList (a.written mode)) := by
  obtain ⟨name, value⟩ := a
  cases value with
  | text s => exact ⟨_, h.reads_quoted ha.name s, ready_behind _ _⟩
  | flag => exact ⟨_, h.reads_key ha.name, ready_inKey _ _ _⟩
  | expr s =>
    cases mode with
    | html => exact ⟨_, h.reads_quoted ha.name s, ready_behind _ _⟩
    | jsx => exact ⟨_, h.reads_expression ha.name (ha.expression s rfl rfl), ready_behind _ _⟩

/-- A tag as it is read back. -/
def tagOf (mode : Mode) (tag : String) (attributes : List Attribute) : Tag :=
  ⟨tag.toList, attributes.map fun a => (a.1.toList, a.written mode)⟩

theorem Ready.exists_reads_attributes {t : Tag} {attributes : List Attribute} (h : Ready mode p t)
    (hsound : ∀ a ∈ attributes, a.IsSound mode) :
    ∃ q, Reads mode p (renderAttributes mode attributes) [] q ∧
      Ready mode q { t with attributes :=
        t.attributes ++ attributes.map fun a => (a.1.toList, a.written mode) } := by
  induction attributes generalizing p t with
  | nil => exact ⟨p, .nil, by simpa using h⟩
  | cons a rest ih =>
    rw [List.forall_mem_cons] at hsound
    obtain ⟨q, hfirst, hq⟩ := h.exists_reads_attribute hsound.1
    obtain ⟨r, hrest, hr⟩ := ih hq hsound.2
    exact ⟨r, hfirst.append hrest, by simpa [Tag.add] using hr⟩

/-- The name of a tag and its attributes leave a reader in front of the end of the tag. -/
theorem exists_reads_tag {tag : String} {attributes : List Attribute}
    (htag : isName tag.toList = true) (hsound : ∀ a ∈ attributes, a.IsSound mode) :
    ∃ q, Reads mode .text ('<' :: tag.toList ++ renderAttributes mode attributes) [] q ∧
      Ready mode q (tagOf mode tag attributes) := by
  obtain ⟨q, hreads, hq⟩ := (ready_inName mode _).exists_reads_attributes hsound
  exact ⟨q, (reads_tagName htag).append hreads, by simpa [tagOf] using hq⟩

theorem isClean_written (mode : Mode) (a : Attribute) : (a.written mode).isClean = true := by
  unfold Attribute.written
  split
  · exact isClean_escapeAttribute _
  · exact isClean_escapeAttribute _
  · rfl
  · rfl

end Artboard.Markup
