import Artboard.Scene.LayerTag
import Artboard.Proofs.Text.Trimming
import Mathlib

/-!
# The grammar of layer names

A tagged name is a keyword in any capital and small letters, further words, and arguments behind
colons, with blanks around all of them (`LayerTag.Tagged`). An instruction is what follows its
keyword behind colons and blanks. The reader of layer names inverts this grammar
(`LayerTag.ofName_eq_iff`): a name has a tag iff the tag is written in it (`LayerTag.IsWritten`),
and it is at fault iff its keyword belongs to no tag.

The proof goes by the keyword: a name whose trim starts with `#` has exactly one
(`LayerTag.Headed`), the rest of the name begins with a blank or a colon, and blanks at the end of
the rest do not count.
-/

namespace Artboard

/-! ## Letters -/

namespace Text

/-- Some characters are those of a word, but for capital letters. -/
def Spells (word : String) (cs : List Char) : Prop := cs.map Char.toLower = word.toList

variable {word : String} {cs : List Char}

theorem Spells.ofList_eq (h : Spells word cs) : String.ofList (cs.map Char.toLower) = word := by
  rw [h, String.ofList_toList]

theorem spells_toLower (cs : List Char) : Spells (String.ofList (cs.map Char.toLower)) cs :=
  (String.toList_ofList).symm

theorem Spells.asciiSmall_eq {s : String} (h : Spells word s.toList) : asciiSmall s = word :=
  h.ofList_eq

/-- What is no letter is spelled in one way. -/
theorem eq_of_toLower_eq {c d : Char} (h : c.toLower = d) (hd : d.isLower = false) : c = d := by
  rw [← h, Char.isLower_toLower_eq_isAlpha, Char.isAlpha, Bool.or_eq_false_iff] at hd
  rw [← h, Char.toLower_eq_of_not_isUpper (Bool.eq_false_iff.1 hd.1)]

theorem toLower_of_isBlank {c : Char} (h : isBlank c = true) : c.toLower = c := by
  refine Char.toLower_eq_of_not_isUpper fun hupper => ?_
  have hrange : 65 ≤ c.toNat ∧ c.toNat ≤ 90 := by
    simp only [Char.isUpper, decide_eq_true_eq] at hupper
    exact hupper
  simp [isBlank] at h
  omega

theorem ne_colon_of_isBlank {c : Char} (h : isBlank c = true) : c ≠ ':' := by
  rintro rfl
  cases h

/-- A word without colons and blanks is spelled without them. -/
theorem Spells.forall (h : Spells word cs)
    (hword : ∀ d ∈ word.toList, d ≠ ':' ∧ isBlank d = false) :
    ∀ c ∈ cs, c ≠ ':' ∧ isBlank c = false := by
  intro c hc
  have hlower : c.toLower ∈ word.toList := by
    rw [← h]
    exact List.mem_map_of_mem hc
  obtain ⟨hcolon, hblank⟩ := hword _ hlower
  constructor
  · rintro rfl
    exact hcolon rfl
  · rw [Bool.eq_false_iff]
    intro hc
    rw [toLower_of_isBlank hc, hc] at hblank
    cases hblank

theorem Spells.head? (h : Spells word cs) {d : Char} (hword : word.toList.head? = some d)
    (hd : d.isLower = false) : cs.head? = some d := by
  rw [← h, List.head?_map] at hword
  obtain ⟨c, hc, heq⟩ := Option.map_eq_some_iff.1 hword
  rw [hc, eq_of_toLower_eq heq hd]

end Text

/-! ## Kinds of slots -/

namespace SlotKind

open Text (Spells)

/-- The subtypes of a kind. -/
def words : SlotKind → List String
  | .image => ["img", "image"]
  | .text => ["text"]
  | .video => ["video"]
  | .lottie => ["lottie"]
  | .svga => ["svga"]
  | .unity => ["unity"]
  | .color => ["color"]
  | .generic => []

/-- The kind that a subtype stands for, in any capital and small letters. All subtypes that stand
for no other kind are generic. -/
inductive Fits (subtype : String) : SlotKind → Prop
  | known {kind : SlotKind} {word : String} (hword : word ∈ kind.words)
      (h : Spells word subtype.toList) : Fits subtype kind
  | generic (h : ∀ kind : SlotKind, ∀ word ∈ kind.words, ¬Spells word subtype.toList) :
      Fits subtype .generic

theorem ofWord_of_mem {kind : SlotKind} {word : String} (h : word ∈ kind.words) :
    ofWord word = kind := by
  have hall : ∀ word ∈ kind.words, ofWord word = kind := by cases kind <;> decide
  exact hall word h

theorem mem_words_ofWord {word : String} (h : ofWord word ≠ .generic) :
    word ∈ (ofWord word).words := by
  unfold ofWord at h ⊢
  split at h <;> first | decide | exact absurd rfl h

theorem ofSubtype_eq_iff {subtype : String} {kind : SlotKind} :
    ofSubtype subtype = kind ↔ Fits subtype kind := by
  constructor
  · rintro rfl
    by_cases hgeneric : ofSubtype subtype = .generic
    · rw [hgeneric]
      refine .generic fun kind word hword h => ?_
      rw [ofSubtype, h.asciiSmall_eq, ofWord_of_mem hword] at hgeneric
      rw [hgeneric] at hword
      exact List.not_mem_nil hword
    · exact .known (mem_words_ofWord hgeneric) (Text.spells_toLower _)
  · intro h
    cases h with
    | known hword h => rw [ofSubtype, h.asciiSmall_eq, ofWord_of_mem hword]
    | generic h =>
      by_contra hne
      exact h _ _ (mem_words_ofWord hne) (Text.spells_toLower _)

end SlotKind

namespace LayerTag

open Text (Blanks Trimmed Spells isBlank trimEnd)

/-! ## The grammar -/

/-- Arguments as they are written, each behind a colon and with blanks around it. -/
inductive Arguments : List String → List Char → Prop
  | nil : Arguments [] []
  | cons {before arg after body : List Char} {args : List String} (hbefore : Blanks before)
      (harg : Trimmed arg) (hcolon : ':' ∉ arg) (hafter : Blanks after) (h : Arguments args body) :
      Arguments (String.ofList arg :: args) (':' :: (before ++ arg ++ after) ++ body)

/-- Further words behind a keyword. -/
def Aside (cs : List Char) : Prop := (∀ c ∈ cs.head?, isBlank c = true) ∧ ':' ∉ cs

/-- A name with the keyword of a tag and some arguments. -/
inductive Tagged (word : String) : List String → List Char → Prop
  | mk {before keyword aside body : List Char} {args : List String} (hbefore : Blanks before)
      (hkeyword : Spells word keyword) (haside : Aside aside) (hbody : Arguments args body) :
      Tagged word args (before ++ keyword ++ aside ++ body)

/-- The names of a tag. Missing arguments are empty, and surplus ones do not count. -/
inductive IsWritten : LayerTag → List Char → Prop
  | none {name : List Char} (h : (Text.trim name).head? ≠ some '#') : IsWritten .none name
  | ignore {name : List Char} {args : List String} (h : Tagged "#ignore" args name) :
      IsWritten .ignore name
  | static {name : List Char} {args : List String} (h : Tagged "#static" args name) :
      IsWritten .static name
  | slot {name : List Char} {args : List String} {kind : SlotKind} (h : Tagged "#slot" args name)
      (hkind : kind.Fits (args.getD 0 "")) :
      IsWritten (.slot kind (args.getD 0 "") (args.getD 1 "")) name
  | list {name : List Char} {args : List String} (h : Tagged "#list" args name) :
      IsWritten (.list (args.getD 0 "")) name
  | canvas {name : List Char} {args : List String} (h : Tagged "#canvas" args name) :
      IsWritten (.canvas (args.getD 0 "")) name
  | prompt {before keyword colons gap text after : List Char} (hbefore : Blanks before)
      (hkeyword : Spells "#prompt" keyword) (hcolons : ∀ c ∈ colons, c = ':') (hgap : Blanks gap)
      (htext : Trimmed text) (hafter : Blanks after)
      (happart : text ≠ [] → colons ++ gap ≠ [])
      (hcolon : gap = [] → text.head? ≠ some ':') :
      IsWritten (.prompt (String.ofList text)) (before ++ keyword ++ colons ++ gap ++ text ++ after)

/-- The keywords of all tags. -/
def keywords : List String := ["#ignore", "#static", "#prompt", "#slot", "#list", "#canvas"]

/-- The keyword of a name that starts with `#`: the first word of what stands before the first
colon. -/
structure Headed (keyword rest name : List Char) : Prop where
  split : ∃ before, Blanks before ∧ name = before ++ (keyword ++ rest)
  mark : keyword.head? = some '#'
  word : ∀ c ∈ keyword, c ≠ ':' ∧ isBlank c = false
  stop : ∀ c ∈ rest.head?, c = ':' ∨ isBlank c = true

/-! ## Arguments -/

section

variable {args : List String} {body head piece : List Char}

theorem Arguments.head_eq (h : Arguments args body) : ∀ c ∈ body.head?, c = ':' := by
  cases h with
  | nil => exact fun c hc => nomatch hc
  | cons => exact fun c hc => (Option.some_inj.1 hc).symm

theorem colon_not_mem_of_blanks {cs : List Char} (h : Blanks cs) : ':' ∉ cs :=
  fun hmem => Text.ne_colon_of_isBlank (h _ hmem) rfl

theorem Arguments.cons_piece (hcolon : ':' ∉ piece) (h : Arguments args body) :
    Arguments (String.ofList (Text.trim piece) :: args) (':' :: piece ++ body) := by
  obtain ⟨before, after, hbefore, hafter, hpiece⟩ := Text.exists_trim piece
  have harg : ':' ∉ Text.trim piece := fun hmem => by
    rw [hpiece] at hcolon
    exact hcolon (List.mem_append_left _ (List.mem_append_right _ hmem))
  have hcons := Arguments.cons hbefore (Text.trimmed_trim piece) harg hafter h
  rwa [← hpiece] at hcons

theorem exists_arguments_of_colon (cs : List Char) :
    ∀ piece, ':' ∉ piece → ∃ args, Arguments args (':' :: piece ++ cs) := by
  induction cs with
  | nil => exact fun piece hpiece => ⟨_, .cons_piece hpiece .nil⟩
  | cons c cs ih =>
    intro piece hpiece
    by_cases hc : c = ':'
    · obtain ⟨args, hargs⟩ := ih [] List.not_mem_nil
      subst hc
      exact ⟨_, .cons_piece hpiece hargs⟩
    · obtain ⟨args, hargs⟩ := ih (piece ++ [c]) (by simp [hpiece, Ne.symm hc])
      exact ⟨args, by simpa using hargs⟩

/-- Whatever begins with a colon is some arguments. -/
theorem exists_arguments (h : ∀ c ∈ body.head?, c = ':') : ∃ args, Arguments args body := by
  cases body with
  | nil => exact ⟨[], .nil⟩
  | cons c cs =>
    obtain rfl := h c rfl
    exact exists_arguments_of_colon cs [] List.not_mem_nil

theorem Arguments.exists_pieces (h : Arguments args body) (hhead : ':' ∉ head) :
    ∃ segments, Text.pieces (· == ':') (head ++ body) = head :: segments ∧
      segments.map (fun s => String.ofList (Text.trim s)) = args := by
  have hfree {cs : List Char} (hcs : ':' ∉ cs) : ∀ c ∈ cs, (c == ':') = false := by
    rintro c hc
    exact beq_false_of_ne fun heq => hcs (heq ▸ hc)
  induction h generalizing head with
  | nil =>
    rw [List.append_nil]
    exact ⟨[], Text.pieces_of_free (hfree hhead), rfl⟩
  | @cons before arg after body args hbefore harg hcolon hafter h ih =>
    have hpiece : ':' ∉ before ++ arg ++ after := by
      simp [hcolon, colon_not_mem_of_blanks hbefore, colon_not_mem_of_blanks hafter]
    obtain ⟨segments, hpieces, hsegments⟩ := ih hpiece
    refine ⟨(before ++ arg ++ after) :: segments, ?_, ?_⟩
    · rw [List.cons_append, Text.pieces_append_cons rfl, Text.pieces_of_free (hfree hhead), hpieces]
      rfl
    · rw [List.map_cons, Text.trim_between hbefore harg hafter, hsegments]

/-- Arguments are read as they are written. -/
theorem Arguments.arguments_eq (h : Arguments args body) (hhead : ':' ∉ head) :
    arguments (head ++ body) = args := by
  obtain ⟨segments, hpieces, hsegments⟩ := h.exists_pieces hhead
  rw [arguments, hpieces, List.tail_cons, hsegments]

/-- Blanks at the end of a name are in no argument. -/
theorem arguments_append {name after : List Char} (hafter : Blanks after) :
    arguments (name ++ after) = arguments name := by
  have hpieces := hafter.map_trim_pieces_append (p := (· == ':'))
    (fun c hc => beq_false_of_ne (Text.ne_colon_of_isBlank hc)) name
  have htail := congrArg (fun ps => ps.tail.map String.ofList) hpieces
  simpa only [arguments, ← List.map_tail, List.map_map, Function.comp_def] using htail

end

/-! ## Keywords -/

section

variable {keyword rest name : List Char} {word : String}

/-- The reader's keyword of a name without blanks in front. -/
theorem keyword_eq (h : ∀ c ∈ name.head?, isBlank c = false) :
    LayerTag.keyword name = (name.takeWhile (· != ':')).takeWhile fun c => !isBlank c := by
  refine Text.headD_words fun c hc => h c ?_
  rw [List.head?_takeWhile] at hc
  exact (Option.filter_eq_some_iff.1 hc).1

theorem keyword_prefix (h : ∀ c ∈ name.head?, isBlank c = false) :
    LayerTag.keyword name <+: name := by
  rw [keyword_eq h]
  exact (List.takeWhile_prefix _).trans (List.takeWhile_prefix _)

/-- The tag of a keyword in small letters with some arguments or an instruction. -/
def ofParts? (word : String) (args : List String) (text : String) : Option LayerTag :=
  match word with
  | "#ignore" => some .ignore
  | "#static" => some .static
  | "#prompt" => some (.prompt text)
  | "#slot" => some (.slot (.ofSubtype (args.getD 0 "")) (args.getD 0 "") (args.getD 1 ""))
  | "#list" => some (.list (args.getD 0 ""))
  | "#canvas" => some (.canvas (args.getD 0 ""))
  | _ => Option.none

theorem ofParts?_eq_none_iff {args : List String} {text : String} :
    ofParts? word args text = Option.none ↔ word ∉ keywords := by
  unfold ofParts?
  split <;> simp_all [keywords]

/-- A name is tagged iff its trim starts with the mark. -/
theorem ofChars_of_head? (h : (Text.trim name).head? = some '#') :
    ofChars name = ofTagged (Text.trim name) := by
  unfold ofChars
  split
  case h_1 hname => rw [hname]
  case h_2 hother =>
    obtain ⟨rest, hrest⟩ := List.head?_eq_some_iff.1 h
    exact absurd hrest (hother rest)

theorem ofChars_of_head?_ne (h : (Text.trim name).head? ≠ some '#') : ofChars name = .ok .none := by
  unfold ofChars
  split
  case h_1 hname =>
    rw [hname] at h
    exact absurd rfl h
  case h_2 => rfl

namespace Headed

theorem blank_free (h : Headed keyword rest name) (cs : List Char) :
    ∀ c ∈ (keyword ++ cs).head?, isBlank c = false := by
  intro c hc
  rw [List.head?_append, h.mark] at hc
  obtain rfl := Option.some_inj.1 hc
  rfl

theorem trim_eq (h : Headed keyword rest name) : Text.trim name = keyword ++ trimEnd rest := by
  obtain ⟨before, hbefore, hname⟩ := h.split
  obtain ⟨after, hafter, hrest⟩ := Text.exists_trimEnd rest
  have htrimmed : Trimmed (keyword ++ trimEnd rest) := by
    refine Text.trimmed_iff.2 ⟨h.blank_free _, fun c hc => ?_⟩
    rw [List.getLast?_append] at hc
    rcases Option.or_eq_some_iff.1 hc with hc | ⟨-, hc⟩
    · exact Text.isBlank_getLast_trimEnd c hc
    · exact (h.word c (List.mem_of_getLast? hc)).2
  have hbetween := Text.trim_between hbefore htrimmed hafter
  rwa [List.append_assoc, List.append_assoc, ← hrest, ← hname] at hbetween

theorem keyword_eq (h : Headed keyword rest name) :
    LayerTag.keyword (Text.trim name) = keyword := by
  rw [h.trim_eq, LayerTag.keyword_eq (h.blank_free _),
    List.takeWhile_append_of_pos fun c hc => bne_iff_ne.2 (h.word c hc).1,
    List.takeWhile_append_of_pos fun c hc => by rw [(h.word c hc).2]; rfl]
  -- the rest begins with a colon or a blank, and so does what is left of it without its end
  cases hrest : trimEnd rest with
  | nil => simp
  | cons c cs =>
    have hc : c ∈ rest.head? := by
      obtain ⟨after, hafter⟩ := Text.trimEnd_prefix rest
      rw [← hafter, hrest]
      rfl
    rcases h.stop c hc with rfl | hblank
    · simp
    · simp [hblank, Text.ne_colon_of_isBlank hblank]

theorem arguments_eq (h : Headed keyword rest name) :
    arguments (Text.trim name) = arguments (keyword ++ rest) := by
  obtain ⟨after, hafter, hrest⟩ := Text.exists_trimEnd rest
  rw [h.trim_eq, ← arguments_append hafter, List.append_assoc, ← hrest]

theorem instruction_eq (h : Headed keyword rest name) :
    instruction keyword (Text.trim name) =
      String.ofList (Text.trim (rest.dropWhile (· == ':'))) := by
  obtain ⟨after, hafter, hrest⟩ := Text.exists_trimEnd rest
  have hcolons : after.dropWhile (· == ':') = after :=
    List.dropWhile_beq_eq_self_of_head?_ne fun hhead =>
      Text.ne_colon_of_isBlank (hafter _ (List.mem_of_head? hhead)) rfl
  have hdrop : Text.trim (((trimEnd rest) ++ after).dropWhile (· == ':')) =
      Text.trim ((trimEnd rest).dropWhile (· == ':')) := by
    rw [List.dropWhile_append]
    split_ifs with hempty
    · rw [List.isEmpty_iff.1 hempty, hcolons, ← List.nil_append after, hafter.trim_append_right]
    · exact hafter.trim_append_right
  rw [h.trim_eq, instruction, List.drop_left, ← hdrop, ← hrest]

/-- A name is read by its keyword in small letters. -/
theorem ofChars_eq (h : Headed keyword rest name) (hword : Spells word keyword) :
    ofChars name =
      (ofParts? word (arguments (keyword ++ rest))
        (String.ofList (Text.trim (rest.dropWhile (· == ':'))))).elim
          (.error ⟨String.ofList keyword⟩) .ok := by
  have hmark : (Text.trim name).head? = some '#' := by
    rw [h.trim_eq, List.head?_append, h.mark]
    rfl
  rw [ofChars_of_head? hmark, ofTagged]
  simp only [h.keyword_eq, h.arguments_eq, h.instruction_eq, hword.ofList_eq]
  unfold ofParts?
  split <;> simp_all

end Headed

/-- A name that starts with `#` has a keyword. -/
theorem exists_headed (h : (Text.trim name).head? = some '#') :
    ∃ keyword rest, Headed keyword rest name := by
  obtain ⟨before, after, hbefore, hafter, hname⟩ := Text.exists_trim name
  let inside (c : Char) : Bool := c != ':' && !isBlank c
  refine ⟨(Text.trim name).takeWhile inside, (Text.trim name).dropWhile inside ++ after,
    ?_, ?_, ?_, ?_⟩
  · refine ⟨before, hbefore, ?_⟩
    rwa [← List.append_assoc (List.takeWhile _ _), List.takeWhile_append_dropWhile,
      ← List.append_assoc]
  · rw [List.head?_takeWhile, h]
    rfl
  · intro c hc
    have hinside := List.mem_takeWhile_imp hc
    simpa [inside] using hinside
  · intro c hc
    rw [List.head?_append] at hc
    rcases Option.or_eq_some_iff.1 hc with hc | ⟨-, hc⟩
    · have houtside := Text.head_dropWhile_eq_false inside _ c hc
      simpa [inside, Classical.or_iff_not_imp_left] using houtside
    · exact .inr (hafter c (List.mem_of_head? hc))

end

/-! ## Reading -/

section

variable {keyword rest name : List Char} {word : String} {args : List String} {tag : LayerTag}

theorem free_of_mem_keywords (hword : word ∈ keywords) :
    word.toList.head? = some '#' ∧ ∀ d ∈ word.toList, d ≠ ':' ∧ isBlank d = false := by
  have hall : keywords.all (fun word => word.toList.head? == some '#' &&
      word.toList.all fun d => d != ':' && !isBlank d) = true := by decide
  simpa using List.all_eq_true.1 hall word hword

theorem headed_of_spells (hword : word ∈ keywords) (hkeyword : Spells word keyword)
    {before : List Char} (hbefore : Blanks before)
    (hstop : ∀ c ∈ rest.head?, c = ':' ∨ isBlank c = true) :
    Headed keyword rest (before ++ (keyword ++ rest)) := by
  obtain ⟨hmark, hfree⟩ := free_of_mem_keywords hword
  exact ⟨⟨before, hbefore, rfl⟩, hkeyword.head? hmark rfl, hkeyword.forall hfree, hstop⟩

/-- A name with arguments has its keyword, and the arguments are what is read behind it. -/
theorem Tagged.exists_headed (h : Tagged word args name) (hword : word ∈ keywords) :
    ∃ keyword rest, Headed keyword rest name ∧ Spells word keyword ∧
      arguments (keyword ++ rest) = args := by
  cases h with
  | @mk before keyword aside body args hbefore hkeyword haside hbody =>
    have hstop : ∀ c ∈ (aside ++ body).head?, c = ':' ∨ isBlank c = true := by
      intro c hc
      rw [List.head?_append] at hc
      rcases Option.or_eq_some_iff.1 hc with hc | ⟨-, hc⟩
      · exact .inr (haside.1 c hc)
      · exact .inl (hbody.head_eq c hc)
    have hheaded := headed_of_spells hword hkeyword hbefore hstop
    have hcolon : ':' ∉ keyword ++ aside := by
      rw [List.mem_append, not_or]
      exact ⟨fun hmem => (hheaded.word _ hmem).1 rfl, haside.2⟩
    refine ⟨keyword, aside ++ body, by simpa using hheaded, hkeyword, ?_⟩
    rw [← List.append_assoc, hbody.arguments_eq hcolon]

/-- Conversely, whatever follows a keyword is further words and arguments. -/
theorem Headed.tagged (h : Headed keyword rest name) (hword : Spells word keyword) :
    Tagged word (arguments (keyword ++ rest)) name := by
  obtain ⟨before, hbefore, hname⟩ := h.split
  let aside := rest.takeWhile (· != ':')
  let body := rest.dropWhile (· != ':')
  have hrest : aside ++ body = rest := List.takeWhile_append_dropWhile
  have haside : Aside aside := by
    refine ⟨fun c hc => ?_, fun hmem => ?_⟩
    · rw [List.head?_takeWhile] at hc
      obtain ⟨hc, hcolon⟩ := Option.filter_eq_some_iff.1 hc
      exact (h.stop c hc).resolve_left (bne_iff_ne.1 hcolon)
    · exact absurd (List.mem_takeWhile_imp hmem) (by decide)
  have hcolon : ':' ∉ keyword ++ aside := by
    rw [List.mem_append, not_or]
    exact ⟨fun hmem => (h.word _ hmem).1 rfl, haside.2⟩
  have hbody : ∀ c ∈ body.head?, c = ':' := fun c hc => by
    simpa using Text.head_dropWhile_eq_false (· != ':') rest c hc
  obtain ⟨args, hargs⟩ := exists_arguments hbody
  have hread := hargs.arguments_eq hcolon
  rw [List.append_assoc, hrest] at hread
  rw [hread, hname, ← hrest, ← List.append_assoc, ← List.append_assoc]
  exact .mk hbefore hword haside hargs

/-- An instruction is read behind all colons and blanks that follow its keyword. -/
theorem exists_headed_of_prompt {before keyword colons gap text after : List Char}
    (hbefore : Blanks before) (hkeyword : Spells "#prompt" keyword)
    (hcolons : ∀ c ∈ colons, c = ':') (hgap : Blanks gap) (htext : Trimmed text)
    (hafter : Blanks after) (happart : text ≠ [] → colons ++ gap ≠ [])
    (hcolon : gap = [] → text.head? ≠ some ':') :
    ∃ rest, Headed keyword rest (before ++ keyword ++ colons ++ gap ++ text ++ after) ∧
      Text.trim (rest.dropWhile (· == ':')) = text := by
  refine ⟨colons ++ (gap ++ text ++ after), ?_, ?_⟩
  · have hstop : ∀ c ∈ (colons ++ (gap ++ text ++ after)).head?, c = ':' ∨ isBlank c = true := by
      intro c hc
      rcases colons with _ | ⟨d, colons⟩
      · rcases gap with _ | ⟨d, gap⟩
        · have hempty : text = [] := by
            by_contra hne
            exact happart hne rfl
          subst hempty
          exact .inr (hafter c (List.mem_of_head? hc))
        · exact .inr (hgap c (Option.some_inj.1 hc ▸ List.mem_cons_self))
      · exact .inl (hcolons c (Option.some_inj.1 hc ▸ List.mem_cons_self))
    simpa using headed_of_spells (by decide) hkeyword hbefore hstop
  · rw [List.dropWhile_append_of_pos fun c hc => beq_iff_eq.2 (hcolons c hc),
      List.dropWhile_beq_eq_self_of_head?_ne, Text.trim_between hgap htext hafter]
    intro hhead
    rcases gap with _ | ⟨d, gap⟩
    · rcases text with _ | ⟨d, text⟩
      · exact Text.ne_colon_of_isBlank (hafter _ (List.mem_of_head? hhead)) rfl
      · exact hcolon rfl hhead
    · exact Text.ne_colon_of_isBlank (hgap d List.mem_cons_self) (Option.some_inj.1 hhead)

/-- Conversely, whatever follows the keyword of an instruction is written so. -/
theorem Headed.isWritten_prompt (h : Headed keyword rest name) (hword : Spells "#prompt" keyword) :
    IsWritten (.prompt (String.ofList (Text.trim (rest.dropWhile (· == ':'))))) name := by
  obtain ⟨before, hbefore, hname⟩ := h.split
  obtain ⟨gap, after, hgap, hafter, htail⟩ := Text.exists_trim (rest.dropWhile (· == ':'))
  have hrest : rest = rest.takeWhile (· == ':') ++
      (gap ++ Text.trim (rest.dropWhile (· == ':')) ++ after) := by
    rw [← htail, List.takeWhile_append_dropWhile]
  have hcolons : ∀ c ∈ rest.takeWhile (· == ':'), c = ':' := fun c hc => by
    simpa using List.mem_takeWhile_imp hc
  have hhead : ∀ c ∈ (rest.dropWhile (· == ':')).head?, c ≠ ':' := fun c hc => by
    simpa using Text.head_dropWhile_eq_false (· == ':') rest c hc
  have htrimmed := Text.trimmed_trim (rest.dropWhile (· == ':'))
  rw [htail] at hhead
  generalize Text.trim (rest.dropWhile (· == ':')) = text at hrest hhead htrimmed ⊢
  generalize rest.takeWhile (· == ':') = colons at hrest hcolons
  have hcolon : gap = [] → text.head? ≠ some ':' := by
    rintro rfl htext
    refine hhead ':' ?_ rfl
    rw [List.nil_append, List.head?_append, htext]
    rfl
  have happart : text ≠ [] → colons ++ gap ≠ [] := by
    intro hne hempty
    obtain ⟨rfl, rfl⟩ := List.append_eq_nil_iff.1 hempty
    obtain ⟨c, text, rfl⟩ := List.exists_cons_of_ne_nil hne
    have hc : c ∈ rest.head? := by
      rw [hrest]
      rfl
    rcases h.stop c hc with rfl | hblank
    · exact hcolon rfl rfl
    · have hfree := (Text.trimmed_iff.1 htrimmed).1 c rfl
      rw [hblank] at hfree
      cases hfree
  have hwritten := IsWritten.prompt hbefore hword hcolons hgap htrimmed hafter happart hcolon
  rw [hname, hrest]
  simpa using hwritten

theorem Headed.isWritten (h : Headed keyword rest name) (hword : Spells word keyword)
    (htag : ofParts? word (arguments (keyword ++ rest))
      (String.ofList (Text.trim (rest.dropWhile (· == ':')))) = some tag) :
    tag.IsWritten name := by
  have htagged := h.tagged hword
  unfold ofParts? at htag
  split at htag <;> cases htag
  case h_1 => exact .ignore htagged
  case h_2 => exact .static htagged
  case h_3 => exact h.isWritten_prompt hword
  case h_4 => exact .slot htagged (SlotKind.ofSubtype_eq_iff.1 rfl)
  case h_5 => exact .list htagged
  case h_6 => exact .canvas htagged

theorem Tagged.ofChars_eq (h : Tagged word args name) (hword : word ∈ keywords)
    (htag : ∀ text, ofParts? word args text = some tag) : ofChars name = .ok tag := by
  obtain ⟨keyword, rest, hheaded, hkeyword, rfl⟩ := h.exists_headed hword
  rw [hheaded.ofChars_eq hkeyword, htag]
  rfl

theorem IsWritten.ofChars_eq (h : tag.IsWritten name) : ofChars name = .ok tag := by
  cases h with
  | none h => exact ofChars_of_head?_ne h
  | ignore h => exact h.ofChars_eq (by decide) fun _ => rfl
  | static h => exact h.ofChars_eq (by decide) fun _ => rfl
  | slot h hkind =>
    rw [← SlotKind.ofSubtype_eq_iff] at hkind
    subst hkind
    exact h.ofChars_eq (by decide) fun _ => rfl
  | list h => exact h.ofChars_eq (by decide) fun _ => rfl
  | canvas h => exact h.ofChars_eq (by decide) fun _ => rfl
  | prompt hbefore hkeyword hcolons hgap htext hafter happart hcolon =>
    obtain ⟨rest, hheaded, hrest⟩ :=
      exists_headed_of_prompt hbefore hkeyword hcolons hgap htext hafter happart hcolon
    rw [hheaded.ofChars_eq hkeyword, hrest]
    rfl

/-- A name with a keyword has the tag of it, or there is none and the keyword is the fault. -/
theorem Headed.ofChars_cases (h : Headed keyword rest name) :
    (∃ tag : LayerTag, tag.IsWritten name) ∨
      (∀ word ∈ keywords, ¬Spells word keyword) ∧
        ofChars name = .error ⟨String.ofList keyword⟩ := by
  have hspells := Text.spells_toLower keyword
  have hread := h.ofChars_eq hspells
  generalize htag : ofParts? _ _ _ = read at hread
  cases read with
  | some tag => exact .inl ⟨tag, h.isWritten hspells htag⟩
  | none =>
    refine .inr ⟨fun word hword hkeyword => ?_, hread⟩
    rw [hkeyword.ofList_eq, ofParts?_eq_none_iff] at htag
    exact htag hword

theorem ofChars_eq_ok_iff : ofChars name = .ok tag ↔ tag.IsWritten name := by
  refine ⟨fun h => ?_, IsWritten.ofChars_eq⟩
  by_cases hmark : (Text.trim name).head? = some '#'
  · obtain ⟨keyword, rest, hheaded⟩ := exists_headed hmark
    rcases hheaded.ofChars_cases with ⟨written, hwritten⟩ | ⟨-, hfault⟩
    · obtain rfl := Except.ok.inj (h.symm.trans hwritten.ofChars_eq)
      exact hwritten
    · cases h.symm.trans hfault
  · obtain rfl := Except.ok.inj (h.symm.trans (ofChars_of_head?_ne hmark))
    exact .none hmark

theorem ofChars_eq_error_iff {unknown : UnknownTag} :
    ofChars name = .error unknown ↔
      (∃ rest, Headed unknown.keyword.toList rest name) ∧
        ∀ word ∈ keywords, ¬Spells word unknown.keyword.toList := by
  constructor
  · intro h
    by_cases hmark : (Text.trim name).head? = some '#'
    · obtain ⟨keyword, rest, hheaded⟩ := exists_headed hmark
      rcases hheaded.ofChars_cases with ⟨written, hwritten⟩ | ⟨hnone, hfault⟩
      · cases h.symm.trans hwritten.ofChars_eq
      · obtain rfl := Except.error.inj (h.symm.trans hfault)
        rw [String.toList_ofList]
        exact ⟨⟨rest, hheaded⟩, hnone⟩
    · cases h.symm.trans (ofChars_of_head?_ne hmark)
  · rintro ⟨⟨rest, hheaded⟩, hnone⟩
    have hspells := Text.spells_toLower unknown.keyword.toList
    rw [hheaded.ofChars_eq hspells,
      ofParts?_eq_none_iff.2 fun hmem => hnone _ hmem hspells, String.ofList_toList]
    rfl

/-- The keyword of a trimmed name is the beginning of it. -/
theorem trimmed_eq_append (name : String) :
    Text.trimmed name = String.ofList (LayerTag.keyword (Text.trim name.toList)) ++
      String.ofList ((Text.trim name.toList).drop
        (LayerTag.keyword (Text.trim name.toList)).length) := by
  have hprefix := keyword_prefix (Text.trimmed_iff.1 (Text.trimmed_trim name.toList)).1
  rw [Text.trimmed, ← String.ofList_append, List.prefix_iff_eq_append.1 hprefix]

/-- **The reader of layer names inverts their grammar.** A name has a tag iff the tag is written in
it. A name is at fault iff it has a keyword that belongs to no tag, and the fault is that keyword as
it was written. The text behind a keyword begins at a position within the trimmed name, between two
characters. -/
theorem ofName_eq_iff :
    (∀ (name : String) (tag : LayerTag), ofName name = .ok tag ↔ tag.IsWritten name.toList) ∧
    (∀ (name : String) (unknown : UnknownTag), ofName name = .error unknown ↔
      (∃ rest, Headed unknown.keyword.toList rest name.toList) ∧
        ∀ word ∈ keywords, ¬Spells word unknown.keyword.toList) ∧
    ∀ name : String,
      let keyword := LayerTag.keyword (Text.trim name.toList)
      (String.ofList keyword).rawEndPos.IsValid (Text.trimmed name) ∧
        Text.trimmed name =
          String.ofList keyword ++ String.ofList ((Text.trim name.toList).drop keyword.length) := by
  refine ⟨fun _ _ => ofChars_eq_ok_iff, fun _ _ => ofChars_eq_error_iff, fun name => ?_⟩
  have hsplit := trimmed_eq_append name
  exact ⟨String.Pos.Raw.isValid_iff_exists_append.2 ⟨_, _, hsplit, rfl⟩, hsplit⟩

example : ofName " #SLOT of a card : Img :hero:more " = .ok (.slot .image "Img" "hero") := by decide

end

end LayerTag

end Artboard
