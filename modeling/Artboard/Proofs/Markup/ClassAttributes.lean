import Artboard.Proofs.Markup.Places
import Artboard.Proofs.Style.Tokens

/-!
# Class attributes in text

What a reader finds of class lists in written markup. The text of a tree consists of the start tags
of its elements, in order, with other text in between (`Tagged`), where preformatted text is left
aside, since it may hold any tags.

**Theorem (`enlists_document`).** If no class has a blank, each start tag gives exactly the class
list of its element, however deep inside others it stands: class lists hold no line feed, so
indentation leaves them alone.

**Theorem (`Enlists.exists_read`).** Without preformatted text, a reader of the whole text finds
these class lists and no others.
-/

namespace Artboard.Markup

variable {mode : Mode} {inlined : String → Prop} {tag : String} {attributes : List Attribute}
  {cs : List Char}

/-! ## Class lists in tags -/

/-- The classes that a value stands for: it is decoded and split at blanks. -/
def Written.classList : Written → List String
  | .quoted value => (Text.pieces Text.isBlank (decode value)).map String.ofList
  | .braced _ | .bare => []

/-- The class lists that the class attributes of a tag give. -/
def Tag.classLists (mode : Mode) (t : Tag) : List (List String) :=
  t.attributes.filterMap fun (key, value) =>
    if key = (className mode).toList then some value.classList else none

def Token.classLists (mode : Mode) : Token → List (List String)
  | .opening t | .single t => t.classLists mode
  | .char _ | .comment _ | .closing _ => []

/-- A class list has an attribute if there is something in it. -/
def listed (classes : List String) : List (List String) :=
  if classes.isEmpty then [] else [classes]

/-- The tag is that of the start of an element and gives its class list, at whatever depth. -/
structure Tag.Shows (mode : Mode) (t : Tag) (h : Head Classes) : Prop where
  name : t.name = h.tag.toList
  classLists : ∀ depth, (Tag.indented^[depth] t).classLists mode = listed h.style.classes

theorem Tag.Shows.indented {t : Tag} {h : Head Classes} (hshows : t.Shows mode h) :
    t.indented.Shows mode h :=
  ⟨hshows.name, fun depth => hshows.classLists (depth + 1)⟩

/-- Classes without blanks are read back from their attribute, at any depth. -/
theorem classList_words {words : List String} (hne : words ≠ [])
    (h : ∀ word ∈ words, Text.BlankFree word) (key : String) (depth : Nat) :
    (Written.indented^[depth] (Attribute.written mode
      (key, AttrValue.text (" ".intercalate words)))).classList = words := by
  have hline : '\n' ∉ (" ".intercalate words).toList := fun hmem =>
    absurd (Text.onlySpaces_words h _ hmem rfl) (by decide)
  show (Written.indented^[depth] (.quoted (escapeAttribute _))).classList = words
  rw [Written.indented_iterate_quoted, Written.classList, decode_indent_escapeAttribute,
    indent_iterate_eq, indentBy_eq_self_iff.2 (.inr hline), Text.pieces_words hne h, List.map_map]
  simp [Function.comp_def]

example : (Written.quoted "flex p-[a&quot;b]".toList).classList = ["flex", "p-[a\"b]"] := by decide

/-- What an attribute gives where its tag stands at a depth. -/
def Attribute.classList? (mode : Mode) (depth : Nat) (a : Attribute) : Option (List String) :=
  if a.1 = className mode then some (Written.indented^[depth] (Attribute.written mode a)).classList
  else none

theorem classLists_tagOf (depth : Nat) :
    (Tag.indented^[depth] (tagOf mode tag attributes)).classLists mode =
      attributes.filterMap (Attribute.classList? mode depth) := by
  rw [Tag.indented_iterate, Tag.classLists, tagOf, List.filterMap_map, List.filterMap_map]
  refine List.filterMap_congr fun a _ => ?_
  simp [Attribute.classList?, String.toList_inj]

theorem classLists_styleAttributes {c : Classes} (h : ∀ word ∈ c.classes, Text.BlankFree word)
    (depth : Nat) :
    (styleAttributes mode c.classes c.declarations).filterMap (Attribute.classList? mode depth) =
      listed c.classes := by
  have hstyle : "style" ≠ className mode := by cases mode <;> decide
  have hdeclared (value : AttrValue) : Attribute.classList? mode depth ("style", value) = none :=
    if_neg hstyle
  have hclasses : Attribute.classList? mode depth
      (className mode, .text (" ".intercalate c.classes)) =
        some (Written.indented^[depth] (Attribute.written mode
          (className mode, .text (" ".intercalate c.classes)))).classList := if_pos rfl
  unfold styleAttributes listed
  by_cases hempty : c.classes.isEmpty = true
  · rw [if_pos hempty, if_pos hempty]
    split_ifs <;> simp [hdeclared]
  · rw [if_neg hempty, if_neg hempty]
    rw [classList_words (by simpa using hempty) h] at hclasses
    split_ifs <;> simp [hclasses, hdeclared]

/-- The start of an element that is read back, with classes that are. -/
structure Head.IsListed (mode : Mode) (h : Head Classes) : Prop where
  sound : IsSoundTag mode h.tag (h.attributes mode)
  own : ∀ a ∈ h.before ++ h.after, a.1 ≠ className mode
  classes : ∀ c ∈ h.style.classes, Text.BlankFree c

/-- **The start tag of an element gives its class list.** -/
theorem Head.IsListed.shows {h : Head Classes} (hlisted : h.IsListed mode) :
    (tagOf mode h.tag (h.attributes mode)).Shows mode h := by
  refine ⟨rfl, fun depth => ?_⟩
  obtain ⟨hbefore, hafter⟩ := List.forall_mem_append.1 hlisted.own
  have hother {others : List Attribute} (hothers : ∀ a ∈ others, a.1 ≠ className mode) :
      others.filterMap (Attribute.classList? mode depth) = [] :=
    List.filterMap_eq_nil_iff.2 fun a ha => if_neg (hothers a ha)
  rw [classLists_tagOf, Head.attributes, List.filterMap_append, List.filterMap_append,
    hother hbefore, hother hafter, classLists_styleAttributes hlisted.classes, List.append_nil]
  rfl

/-! ## Starts of elements -/

section Starts

variable {σ τ : Type}

/-- The start of the element around a span, which is drawn for the same node as the whole text. -/
def Span.starts (outer : Head σ) (s : Span σ) : List (Head σ) :=
  match s.wrapper with
  | some (tag, style) => [{ source := outer.source, tag, style }]
  | none => []

def Content.starts (outer : Head σ) : Content σ → List (Head σ)
  | .spans parts => parts.flatMap (Span.starts outer)
  | .empty | .block _ => []

mutual

/-- The starts of all elements in the order of the text, those around spans among them. -/
def starts : Markup σ → List (Head σ)
  | .comment _ => []
  | .leaf head content => head :: content.starts head
  | .parent head children => head :: startsOfAll children

def startsOfAll : List (Markup σ) → List (Head σ)
  | [] => []
  | m :: rest => m.starts ++ startsOfAll rest

end

mutual

/-- The preformatted texts. -/
def blocks : Markup σ → List String
  | .leaf _ (.block text) => [text]
  | .comment _ | .leaf _ _ => []
  | .parent _ children => blocksOfAll children

def blocksOfAll : List (Markup σ) → List String
  | [] => []
  | m :: rest => m.blocks ++ blocksOfAll rest

end

end Starts

/-! ## Text with start tags -/

/-- Whether a token is anything but a tag with attributes. -/
def Token.isBare : Token → Bool
  | .opening t | .single t => t.attributes.isEmpty
  | .char _ | .comment _ | .closing _ => true

theorem Token.isBare_indented {u : Token} (h : u.isBare = true) :
    ∀ v ∈ u.indented, v.isBare = true := by
  cases u with
  | char c => exact List.forall_mem_map.2 fun _ _ => rfl
  | comment | closing => exact List.forall_mem_singleton.2 rfl
  | opening t | single t =>
    refine List.forall_mem_singleton.2 ?_
    simpa [isBare, Tag.indented] using h

/-- Text that consists of start tags, in order, and of other text without attributes. Preformatted
text may stand in between, and is not read. -/
inductive Tagged (mode : Mode) (inlined : String → Prop) : List Char → List Tag → Prop
  | tag {cs : List Char} {isSelfClosing : Bool} {t : Tag}
      (hreads : Reads mode .text cs [startToken isSelfClosing t] .text) : Tagged mode inlined cs [t]
  | other {cs : List Char} {us : List Token} (hreads : Reads mode .text cs us .text)
      (hbare : ∀ u ∈ us, u.isBare = true) : Tagged mode inlined cs []
  | block {text : String} (depth : Nat) (hinlined : inlined text) :
      Tagged mode inlined (indent^[depth] (blockLines text.toList)) []
  | append {cs ds : List Char} {ts us : List Tag} (hfirst : Tagged mode inlined cs ts)
      (hrest : Tagged mode inlined ds us) : Tagged mode inlined (cs ++ ds) (ts ++ us)

namespace Tagged

theorem nil : Tagged mode inlined [] [] := .other .nil (List.forall_mem_nil _)

theorem line : Tagged mode inlined ['\n'] [] := .other (reads_line mode) (by decide)

theorem indented {ts : List Tag} (h : Tagged mode inlined cs ts) :
    Tagged mode inlined (indent cs) (ts.map Tag.indented) := by
  induction h with
  | @tag cs isSelfClosing t hreads =>
    have htoken : indentTokens [startToken isSelfClosing t] =
        [startToken isSelfClosing t.indented] := by
      cases isSelfClosing <;> rfl
    exact .tag (htoken ▸ hreads.indented)
  | other hreads hbare =>
    refine .other hreads.indented fun u hu => ?_
    obtain ⟨v, hv, hu⟩ := List.mem_flatMap.1 hu
    exact Token.isBare_indented (hbare v hv) u hu
  | block depth hinlined =>
    rw [← Function.iterate_succ_apply' indent]
    exact .block (depth + 1) hinlined
  | append _ _ ihfirst ihrest =>
    rw [indent_append, List.map_append]
    exact ihfirst.append ihrest

/-- **Without preformatted text, the class lists in a text are those of its start tags.** -/
theorem exists_reads {ts : List Tag} (h : Tagged mode inlined cs ts)
    (hnone : ∀ text, ¬inlined text) :
    ∃ us, Reads mode .text cs us .text ∧
      us.flatMap (Token.classLists mode) = ts.flatMap (Tag.classLists mode) := by
  induction h with
  | @tag cs isSelfClosing t hreads =>
    exact ⟨_, hreads, by cases isSelfClosing <;> rfl⟩
  | @other cs us hreads hbare =>
    refine ⟨us, hreads, List.flatMap_eq_nil_iff.2 fun u hu => ?_⟩
    have hu := hbare u hu
    cases u with
    | char | comment | closing => rfl
    | opening t | single t =>
      rw [Token.isBare, List.isEmpty_iff] at hu
      rw [Token.classLists, Tag.classLists, hu]
      rfl
  | block depth hinlined => exact absurd hinlined (hnone _)
  | append _ _ ihfirst ihrest =>
    obtain ⟨us, hus, heq⟩ := ihfirst
    obtain ⟨vs, hvs, heq'⟩ := ihrest
    exact ⟨us ++ vs, hus.append hvs, by rw [List.flatMap_append, List.flatMap_append, heq, heq']⟩

end Tagged

theorem tagged_endTag (h : isName tag.toList = true) : Tagged mode inlined (endTag tag) [] :=
  .other (reads_endTag h) (by simp [Token.isBare])

theorem tagged_escapeText (text : List Char) : Tagged mode inlined (escapeText mode text) [] := by
  refine .other (reads_escapeText mode text) fun u hu => ?_
  obtain ⟨c, -, hu⟩ := List.mem_flatMap.1 hu
  unfold charTokens at hu
  split_ifs at hu
  · obtain rfl := List.mem_singleton.1 hu
    rfl
  · obtain ⟨d, -, rfl⟩ := List.mem_map.1 hu
    rfl

/-! ## The text of a tree -/

/-- Text whose start tags show these starts of elements, in order. -/
def Enlists (mode : Mode) (inlined : String → Prop) (cs : List Char) (heads : List (Head Classes)) :
    Prop :=
  ∃ ts, Tagged mode inlined cs ts ∧ List.Forall₂ (Tag.Shows mode) ts heads

namespace Enlists

variable {ds : List Char} {heads others : List (Head Classes)}

theorem of_tagged (h : Tagged mode inlined cs []) : Enlists mode inlined cs [] := ⟨[], h, .nil⟩

theorem append (h : Enlists mode inlined cs heads) (hrest : Enlists mode inlined ds others) :
    Enlists mode inlined (cs ++ ds) (heads ++ others) := by
  obtain ⟨ts, htagged, hts⟩ := h
  obtain ⟨us, htagged', hus⟩ := hrest
  exact ⟨ts ++ us, htagged.append htagged', List.rel_append hts hus⟩

theorem indented (h : Enlists mode inlined cs heads) :
    Enlists mode inlined (indent cs) heads := by
  obtain ⟨ts, htagged, hts⟩ := h
  exact ⟨_, htagged.indented, List.forall₂_map_left_iff.2 (hts.imp fun _ _ => Tag.Shows.indented)⟩

/-- The start of an element without the line feed in front. -/
theorem start {h : Head Classes} (hlisted : h.IsListed mode) (isSelfClosing : Bool) :
    Enlists mode inlined (startTag mode h.tag (h.attributes mode) isSelfClosing).tail [h] :=
  ⟨_, .tag (hlisted.sound.reads_startTag isSelfClosing).of_line, .cons hlisted.shows .nil⟩

/-- An element is its start, what is inside, and its end tag. -/
theorem element {h : Head Classes} (hlisted : h.IsListed mode) {inside : List Char}
    (hinside : Enlists mode inlined inside heads) :
    Enlists mode inlined
      ((startTag mode h.tag (h.attributes mode) false).tail ++ (inside ++ endTag h.tag))
      (h :: heads) := by
  have hrest := hinside.append (of_tagged (tagged_endTag hlisted.sound.name))
  rw [List.append_nil] at hrest
  exact (start hlisted false).append hrest

theorem line : Enlists mode inlined ['\n'] [] := of_tagged .line

end Enlists

/-- An element that does not close itself is a line feed and what stands on its lines. -/
theorem renderElement_eq {body : Body} {inside : List Char}
    (h : renderBody mode tag body = '>' :: (inside ++ endTag tag)) :
    renderElement mode tag attributes body =
      '\n' :: ((startTag mode tag attributes false).tail ++ (inside ++ endTag tag)) := by
  rw [renderElement, h]
  simp [startTag]

theorem enlists_renderElement {head : Head Classes} {heads : List (Head Classes)} {body : Body}
    {inside : List Char} (hhead : head.IsListed mode) (hinside : Enlists mode inlined inside heads)
    (hbody : renderBody mode head.tag body = '>' :: (inside ++ endTag head.tag)) :
    Enlists mode inlined (renderElement mode head.tag (head.attributes mode) body)
      (head :: heads) := by
  rw [renderElement_eq hbody]
  exact Enlists.line.append (.element hhead hinside)

variable {outer : Head Classes}

theorem Span.enlists {s : Span Classes} (h : ∀ head ∈ s.starts outer, head.IsListed mode) :
    Enlists mode inlined (s.render mode) (s.starts outer) := by
  obtain ⟨wrapper, text⟩ := s
  have htext : Enlists mode inlined (escapeText mode text.toList) [] :=
    .of_tagged (tagged_escapeText text.toList)
  cases wrapper with
  | none => exact htext
  | some wrapper =>
    obtain ⟨tag, style⟩ := wrapper
    have helement := Enlists.element (List.forall_mem_singleton.1 h) htext
    have hattributes : ({ source := outer.source, tag, style } : Head Classes).attributes mode =
        styleAttributes mode style.classes style.declarations := List.append_nil _
    rw [hattributes] at helement
    show Enlists mode inlined (renderElement mode tag _ (.inline _)).tail _
    rw [renderElement_eq rfl]
    exact helement

theorem Span.enlists_flatMap {parts : List (Span Classes)}
    (h : ∀ head ∈ parts.flatMap (Span.starts outer), head.IsListed mode) :
    Enlists mode inlined (parts.flatMap (Span.render mode))
      (parts.flatMap (Span.starts outer)) := by
  induction parts with
  | nil => exact .of_tagged .nil
  | cons s rest ih =>
    rw [List.flatMap_cons, List.forall_mem_append] at h
    exact (Span.enlists h.1).append (ih h.2)

/-- The lines of an element. -/
theorem Content.enlists {head : Head Classes} {content : Content Classes}
    (hhead : head.IsListed mode) (h : ∀ h ∈ content.starts head, h.IsListed mode)
    (hinlined : ∀ text, content = .block text → inlined text) :
    Enlists mode inlined
      (renderElement mode head.tag (head.attributes mode) (content.body mode))
      (head :: content.starts head) := by
  cases content with
  | empty =>
    by_cases hself : isSelfClosing mode head.tag = true
    · have hstart : renderElement mode head.tag (head.attributes mode) .empty =
          '\n' :: (startTag mode head.tag (head.attributes mode) true).tail := by
        rw [renderElement, renderBody, if_pos hself]
        rfl
      rw [body, hstart]
      exact Enlists.line.append (.start hhead true)
    · refine enlists_renderElement hhead (.of_tagged .nil) ?_
      rw [body, renderBody, if_neg hself, List.nil_append]
  | spans parts => exact enlists_renderElement hhead (Span.enlists_flatMap h) rfl
  | block text =>
    have hblock : Enlists mode inlined (indent (blockLines text.toList)) [] :=
      .of_tagged (.block 1 (hinlined text rfl))
    refine enlists_renderElement hhead (hblock.append .line) ?_
    rw [body, renderBody]
    simp

mutual

/-- **The start tags in the text of a tree show its class lists.** -/
theorem enlists_render (m : Markup Classes) (h : ∀ head ∈ m.starts, head.IsListed mode)
    (hinlined : ∀ text ∈ m.blocks, inlined text) :
    Enlists mode inlined (m.render mode) m.starts := by
  match m with
  | .comment text => exact .of_tagged (.other (reads_renderComment mode text.toList) (by
      simp [Token.isBare]))
  | .leaf head content =>
    obtain ⟨hhead, hcontent⟩ := List.forall_mem_cons.1 h
    refine content.enlists hhead hcontent fun text htext => hinlined text ?_
    rw [htext]
    exact List.mem_cons_self
  | .parent head children =>
    obtain ⟨hhead, hchildren⟩ := List.forall_mem_cons.1 h
    have hinside := (enlists_renderAll children hchildren hinlined).indented.append Enlists.line
    rw [List.append_nil] at hinside
    refine enlists_renderElement hhead hinside ?_
    rw [renderBody]
    simp

theorem enlists_renderAll (markup : List (Markup Classes))
    (h : ∀ head ∈ startsOfAll markup, head.IsListed mode)
    (hinlined : ∀ text ∈ blocksOfAll markup, inlined text) :
    Enlists mode inlined (renderAll mode markup) (startsOfAll markup) := by
  match markup with
  | [] => exact .of_tagged .nil
  | m :: rest =>
    rw [startsOfAll, List.forall_mem_append] at h
    rw [blocksOfAll, List.forall_mem_append] at hinlined
    exact (enlists_render m h.1 hinlined.1).append (enlists_renderAll rest h.2 hinlined.2)

end

/-! ## Documents -/

theorem enlists_document {markup : List (Markup Classes)}
    (h : ∀ head ∈ startsOfAll markup, head.IsListed mode)
    (hinlined : ∀ text ∈ blocksOfAll markup, inlined text) :
    Enlists mode inlined ('\n' :: (document mode markup).toList) (startsOfAll markup) := by
  cases markup with
  | nil => exact .line
  | cons m rest =>
    obtain ⟨c, cs, -, hrender, hdocument⟩ := exists_renderAll_eq mode (List.cons_ne_nil m rest)
    rw [hdocument, String.toList_ofList, ← hrender]
    exact enlists_renderAll _ h hinlined

/-- **Without preformatted text, a reader of the whole text finds the class lists of its elements
and no others.** -/
theorem Enlists.exists_read {heads : List (Head Classes)}
    (h : Enlists mode inlined ('\n' :: cs) heads) (hnone : ∀ text, ¬inlined text) :
    ∃ tokens, read? mode cs = some tokens ∧
      tokens.flatMap (Token.classLists mode) = heads.flatMap fun h => listed h.style.classes := by
  obtain ⟨ts, htagged, hts⟩ := h
  obtain ⟨us, hreads, hlists⟩ := htagged.exists_reads hnone
  obtain ⟨first, p, rest, hstep, hrest, rfl⟩ := Reads.cons_iff.1 hreads
  obtain ⟨rfl, rfl⟩ : [.char '\n'] = first ∧ .text = p := by
    cases mode <;> exact Prod.mk.inj (Option.some.inj hstep)
  refine ⟨rest, by rw [read?, hrest], hlists.trans ?_⟩
  clear htagged hreads hlists hstep hrest
  induction hts with
  | nil => rfl
  | cons hshows _ ih => rw [List.flatMap_cons, List.flatMap_cons, ih, ← hshows.classLists 0]; rfl

/-! ## Changing the styles -/

section Map

variable {σ τ : Type} (f : σ → τ)

theorem Span.starts_map (outer : Head σ) (s : Span σ) :
    (s.map f).starts (outer.map f) = (s.starts outer).map (Head.map f) := by
  obtain ⟨_ | _, _⟩ := s <;> rfl

theorem Content.starts_map (outer : Head σ) (content : Content σ) :
    (content.map f).starts (outer.map f) = (content.starts outer).map (Head.map f) := by
  cases content with
  | empty | block text => rfl
  | spans parts =>
    rw [map, starts, starts, List.flatMap_map, List.map_flatMap]
    exact List.flatMap_congr fun s _ => s.starts_map f outer

mutual

theorem starts_map (m : Markup σ) : (m.map f).starts = m.starts.map (Head.map f) := by
  match m with
  | .comment text => rfl
  | .leaf head content => rw [map, starts, starts, Content.starts_map, List.map_cons]
  | .parent head children => rw [map, starts, starts, startsOfAll_mapAll children, List.map_cons]

theorem startsOfAll_mapAll (markup : List (Markup σ)) :
    startsOfAll (mapAll f markup) = (startsOfAll markup).map (Head.map f) := by
  match markup with
  | [] => rfl
  | m :: rest =>
    rw [mapAll, startsOfAll, startsOfAll, starts_map m, startsOfAll_mapAll rest, List.map_append]

end

mutual

theorem blocks_map (m : Markup σ) : (m.map f).blocks = m.blocks := by
  match m with
  | .comment text => rfl
  | .leaf head content => cases content <;> rfl
  | .parent head children => rw [map, blocks, blocks, blocksOfAll_mapAll children]

theorem blocksOfAll_mapAll (markup : List (Markup σ)) :
    blocksOfAll (mapAll f markup) = blocksOfAll markup := by
  match markup with
  | [] => rfl
  | m :: rest => rw [mapAll, blocksOfAll, blocksOfAll, blocks_map m, blocksOfAll_mapAll rest]

end

end Map

end Artboard.Markup
