import Artboard.Proofs.Conversion.Drawings

/-!
# Instructions are the comments of the code

An instruction is reached from a root through visible layers whose tag or kind lets the layers
inside them be drawn; it need not be visible itself. Of the instructions that are reached, each
leaves one comment in the code, in document order, and there are no other comments
(`Services.Shows.comments_code`). The preview has no comments (`Services.Shows.comments_preview`).

Comments are what a reader takes for comments, so those quoted in values do not count. What stands
in a comment is the text of the instruction with its terminators broken up, and with two blanks
behind every line feed for each element around it (`Markup.IsRemark`).
-/

namespace Artboard

/-! ## Comments of a text -/

namespace Markup

variable {σ τ : Type} {mode : Mode}

/-- The comments among some tokens. -/
def commentsIn (tokens : List Token) : List (List Char) :=
  tokens.filterMap fun
    | .comment text => some text
    | _ => none

@[simp] theorem commentsIn_append (tokens others : List Token) :
    commentsIn (tokens ++ others) = commentsIn tokens ++ commentsIn others :=
  List.filterMap_append

theorem commentsIn_indentTokens (tokens : List Token) :
    commentsIn (indentTokens tokens) = (commentsIn tokens).map indent := by
  induction tokens with
  | nil => rfl
  | cons token rest ih =>
    have hone : commentsIn token.indented = (commentsIn [token]).map indent := by
      cases token with
      | char c =>
        rw [Token.indented, indentChar]
        split_ifs <;> rfl
      | comment | opening | single | closing => rfl
    rw [indentTokens, List.flatMap_cons, commentsIn_append, hone, ← indentTokens, ih,
      ← List.singleton_append (l := rest), commentsIn_append, List.map_append]

theorem commentsIn_chars (cs : List Char) : commentsIn (cs.map .char) = [] := by
  induction cs with
  | nil => rfl
  | cons c cs ih => exact ih

theorem commentsIn_flatMap {α : Type} {f : α → List Token} (h : ∀ a, commentsIn (f a) = [])
    (items : List α) : commentsIn (items.flatMap f) = [] := by
  induction items with
  | nil => rfl
  | cons a rest ih => rw [List.flatMap_cons, commentsIn_append, h, ih, List.append_nil]

/-! ## Comments of a tree -/

mutual

/-- The comments of a tree, in order. -/
def comments : Markup σ → List String
  | .comment text => [text]
  | .leaf _ _ => []
  | .parent _ children => commentsOfAll children

def commentsOfAll : List (Markup σ) → List String
  | [] => []
  | m :: rest => m.comments ++ commentsOfAll rest

end

@[simp] theorem commentsOfAll_append (markup others : List (Markup σ)) :
    commentsOfAll (markup ++ others) = commentsOfAll markup ++ commentsOfAll others := by
  induction markup with
  | nil => rfl
  | cons m rest ih => rw [List.cons_append, commentsOfAll, commentsOfAll, ih, List.append_assoc]

theorem comments_wrap (head : Head σ) (inside : List (Markup σ)) :
    (wrap head inside).comments = commentsOfAll inside := by
  cases inside <;> rfl

mutual

theorem comments_map (f : σ → τ) (m : Markup σ) : (m.map f).comments = m.comments := by
  match m with
  | .comment text => rfl
  | .leaf head content => rfl
  | .parent head children => exact commentsOfAll_mapAll f children

theorem commentsOfAll_mapAll (f : σ → τ) (markup : List (Markup σ)) :
    commentsOfAll (mapAll f markup) = commentsOfAll markup := by
  match markup with
  | [] => rfl
  | m :: rest =>
    rw [mapAll, commentsOfAll, commentsOfAll, comments_map f m, commentsOfAll_mapAll f rest]

end

/-- Whether a comment of a text is one with the text of a comment of the tree, indented any number
of times. -/
def IsRemark (mode : Mode) (written : List Char) (text : String) : Prop :=
  ∃ levels, written = indent^[levels] (commentText mode text.toList)

theorem IsRemark.indent {written : List Char} {text : String} (h : IsRemark mode written text) :
    IsRemark mode (Markup.indent written) text := by
  obtain ⟨levels, rfl⟩ := h
  exact ⟨levels + 1, (Function.iterate_succ_apply' _ _ _).symm⟩

/-- Text is read without comments. -/
theorem commentsIn_textTokens (mode : Mode) (text : List Char) :
    commentsIn (textTokens mode text) = [] := by
  refine commentsIn_flatMap (fun c => ?_) text
  unfold charTokens
  split_ifs
  · rfl
  · exact commentsIn_chars _

theorem commentsIn_span (mode : Mode) (s : Span Classes) : commentsIn (s.tokens mode) = [] := by
  obtain ⟨wrapper, text⟩ := s
  cases wrapper with
  | none => exact commentsIn_textTokens mode _
  | some wrapper =>
    show commentsIn (textTokens mode text.toList ++ [.closing wrapper.1.toList]) = []
    rw [commentsIn_append, commentsIn_textTokens]
    rfl

theorem commentsIn_content (mode : Mode) (head : Head Classes) (content : Content Classes) :
    commentsIn (content.tokens mode head) = [] := by
  cases content with
  | empty =>
    rw [Content.tokens]
    split_ifs <;> rfl
  | spans parts =>
    show commentsIn (parts.flatMap (Span.tokens mode) ++ [.closing head.tag.toList]) = []
    rw [commentsIn_append, commentsIn_flatMap (commentsIn_span mode)]
    rfl
  | block text => rfl

mutual

/-- **A tree is read with its comments,** and with no others. -/
theorem remarks_tokens (mode : Mode) (m : Markup Classes) :
    List.Forall₂ (IsRemark mode) (commentsIn (m.tokens mode)) m.comments := by
  match m with
  | .comment text => exact .cons ⟨0, rfl⟩ .nil
  | .leaf head content =>
    have hnone : commentsIn ((Markup.leaf head content).tokens mode) = [] :=
      commentsIn_content mode head content
    rw [hnone, comments]
    exact .nil
  | .parent head children =>
    have hinside : commentsIn ((Markup.parent head children).tokens mode) =
        (commentsIn (tokensAll mode children)).map indent := by
      show commentsIn (indentTokens (tokensAll mode children) ++
        [.char '\n', .closing head.tag.toList]) = _
      rw [commentsIn_append, commentsIn_indentTokens]
      exact List.append_nil _
    rw [hinside, comments, List.forall₂_map_left_iff]
    exact (remarks_tokensAll mode children).imp fun _ _ => IsRemark.indent

theorem remarks_tokensAll (mode : Mode) (markup : List (Markup Classes)) :
    List.Forall₂ (IsRemark mode) (commentsIn (tokensAll mode markup)) (commentsOfAll markup) := by
  match markup with
  | [] => exact .nil
  | m :: rest =>
    rw [tokensAll, commentsIn_append, commentsOfAll]
    exact List.rel_append (remarks_tokens mode m) (remarks_tokensAll mode rest)

end

/-- A document is read with the comments of its trees. -/
theorem exists_read?_document {markup : List (Markup Classes)}
    (h : ∀ m ∈ markup, m.IsSound mode) :
    ∃ tokens, read? mode (document mode markup).toList = some tokens ∧
      List.Forall₂ (IsRemark mode) (commentsIn tokens) (commentsOfAll markup) := by
  have hremarks := remarks_tokensAll mode markup
  refine ⟨(tokensAll mode markup).tail, by rw [read?, reads_document h], ?_⟩
  cases markup with
  | nil => exact .nil
  | cons m rest =>
    obtain ⟨ts, htokens⟩ := exists_tokens_eq mode m
    rw [tokensAll, htokens] at hremarks ⊢
    exact hremarks

end Markup

/-! ## Instructions of nodes -/

namespace Node

open Markup

mutual

/-- The instructions that are reached in a tree, in order. -/
def instructions : Node → List String
  | .node item children =>
    match item.tag with
    | .prompt instruction => [instruction]
    | _ => if item.isOpen then instructionsOfAll children else []

def instructionsOfAll : List Node → List String
  | [] => []
  | n :: rest => n.instructions ++ instructionsOfAll rest

end

theorem instructionsOfAll_append (nodes others : List Node) :
    instructionsOfAll (nodes ++ others) = instructionsOfAll nodes ++ instructionsOfAll others := by
  induction nodes with
  | nil => rfl
  | cons n rest ih =>
    rw [List.cons_append, instructionsOfAll, instructionsOfAll, ih, List.append_assoc]

theorem instructions_of_not_isPrompt {item : Item} (h : item.tag.isPrompt = false)
    (children : List Node) : (Node.node item children).instructions =
      if item.isOpen then instructionsOfAll children else [] := by
  rw [instructions]
  split
  case h_1 htag => rw [htag] at h; cases h
  case h_2 => rfl

theorem not_isPrompt_of_isOpen {item : Item} (h : item.isOpen = true) :
    item.tag.isPrompt = false := by
  unfold Item.isOpen at h
  split at h
  case h_1 htag => rw [htag]; rfl
  case h_2 htag => rw [htag]; rfl
  case h_3 => cases h

mutual

/-- What is drawn for a node has its instructions as comments. -/
theorem Draws.comments {parent : ParentContext} (n : Node) {markup : List (Markup Style)}
    (h : Draws parent n markup) :
    commentsOfAll markup = n.instructions.map ("AI: " ++ ·) := by
  match n with
  | .node item children =>
    cases h with
    | nothing hopen hprompt => rw [instructions_of_not_isPrompt hprompt, hopen]; rfl
    | comment htag => rw [instructions, htag]; rfl
    | leaf hopen hprompt => rw [instructions_of_not_isPrompt hprompt, hopen]; rfl
    | bare hopen _ hinside =>
      rw [instructions_of_not_isPrompt (not_isPrompt_of_isOpen hopen), hopen]
      exact hinside.comments children
    | around hopen _ _ _ hinside =>
      rw [instructions_of_not_isPrompt (not_isPrompt_of_isOpen hopen), hopen, commentsOfAll,
        comments_wrap, commentsOfAll, List.append_nil]
      exact hinside.comments children

theorem DrawAll.comments {parent : ParentContext} (nodes : List Node)
    {markup : List (Markup Style)} (h : DrawAll parent nodes markup) :
    commentsOfAll markup = (instructionsOfAll nodes).map ("AI: " ++ ·) := by
  match nodes with
  | [] =>
    cases h
    rfl
  | n :: rest =>
    cases h with
    | cons hfirst hrest =>
      rw [commentsOfAll_append, hfirst.comments n, hrest.comments rest, instructionsOfAll,
        List.map_append]

end

/-- Without its instructions a tree has none. -/
theorem instructionsOfAll_dropPrompts (nodes : List Node) :
    instructionsOfAll (dropPrompts nodes) = [] := by
  match nodes with
  | [] => rfl
  | .node item children :: rest =>
    rw [dropPrompts]
    split_ifs with hprompt
    · exact instructionsOfAll_dropPrompts rest
    · have hother : item.tag.isPrompt = false := Bool.eq_false_iff.2 hprompt
      rw [instructionsOfAll, withoutPrompts, instructions_of_not_isPrompt hother,
        instructionsOfAll_dropPrompts children, instructionsOfAll_dropPrompts rest]
      split_ifs <;> rfl

end Node

/-! ## Instructions of layers -/

/-- Whether the layers inside a layer are drawn, if it is not drawn as a vector. -/
def Layer.isOpen (l : Layer) : Bool :=
  let kind := NodeKind.ofType l.type
  l.visible &&
    match l.tag.value with
    | .list _ => !kind.isLeaf
    | .none => kind.isContainer
    | _ => false

namespace Scene

mutual

/-- The instructions that are reached from a layer, in document order. -/
def instructions : Scene → List String
  | .node l children =>
    match l.tag.value with
    | .prompt fromName => [instruction (.node l children) fromName]
    | _ => if l.isOpen then instructionsOf children else []

def instructionsOf : List Scene → List String
  | [] => []
  | s :: rest => s.instructions ++ instructionsOf rest

end

theorem instructions_of_not_isPrompt {l : Layer} (h : l.tag.value.isPrompt = false)
    (children : List Scene) : (Scene.node l children).instructions =
      if l.isOpen then instructionsOf children else [] := by
  rw [instructions]
  split
  case h_1 htag => rw [htag] at h; cases h
  case h_2 => rfl

end Scene

theorem LayerTag.exists_of_isPrompt {tag : LayerTag} (h : tag.isPrompt = true) :
    ∃ instruction, tag = .prompt instruction := by
  cases tag <;> first | exact ⟨_, rfl⟩ | cases h

/-- What is not looked into is not open. -/
theorem Layer.isOpen_eq_false {l : Layer}
    (h : (l.tag.value.isSuppressed || (NodeKind.ofType l.type).isLeaf) = true) :
    l.isOpen = false := by
  unfold isOpen
  revert h
  cases l.tag.value <;> cases NodeKind.ofType l.type <;>
    simp [LayerTag.isSuppressed, NodeKind.isLeaf, NodeKind.isContainer]

namespace NormalizeContext

open Node

variable {cx : NormalizeContext}

theorem isOpen_item (cx : NormalizeContext) (s : Scene) (address : Address) (origin : Origin) :
    s.layer.isOpen = (s.layer.visible && !(NodeKind.ofType s.layer.type).isLeaf &&
      (cx.item s address origin).value.isOpen) := by
  have hleaf (kind : NodeKind) : kind.isContainer = true → kind.isLeaf = false := by
    cases kind <;> simp [NodeKind.isContainer, NodeKind.isLeaf]
  have hkind : (cx.item s address origin).value.kind.isContainer =
      (NodeKind.ofType s.layer.type).isContainer :=
    apply_kind_item NodeKind.isContainer (fun _ _ => rfl) cx s address origin
  rw [Layer.isOpen, Bool.and_assoc, Item.isOpen, hkind]
  congr 1
  simp only [item]
  cases s.layer.tag.value with
  | none => simpa using hleaf _
  | _ => simp

/-- A node that is no instruction has the instructions inside it if it is open. -/
theorem instructions_item (s : Scene) {address : Address} {origin : Origin} {inside : List Node}
    (hprompt : s.layer.tag.value.isPrompt = false) (hkept : s.layer.isKept = true)
    (hleaf : (NodeKind.ofType s.layer.type).isLeaf = true → inside = []) :
    (Node.node (cx.item s address origin).value inside).instructions =
      if s.layer.isOpen then instructionsOfAll inside else [] := by
  have htag : (cx.item s address origin).value.tag.isPrompt = false := by
    simp only [item]
    cases htag : s.layer.tag.value <;> first | rfl | (rw [htag] at hprompt; exact hprompt)
  have hvisible : s.layer.visible = true := by simpa [Layer.isKept, hprompt] using hkept
  rw [instructions_of_not_isPrompt htag, isOpen_item cx s address origin, hvisible]
  cases hkind : (NodeKind.ofType s.layer.type).isLeaf with
  | true =>
    rw [hleaf hkind]
    split_ifs <;> rfl
  | false => rfl

theorem instructions_of_prompt (s : Scene) {address : Address} {origin : Origin}
    {inside : List Node} {fromName : String} (htag : s.layer.tag.value = .prompt fromName) :
    (Node.node (cx.item s address origin).value inside).instructions =
      [s.instruction fromName] := by
  have hitem : (cx.item s address origin).value.tag = .prompt (s.instruction fromName) := by
    simp only [item, htag]
  rw [Node.instructions, hitem]

mutual

/-- A node has the instructions of its layer. -/
theorem Becomes.instructions {depth : Nat} {origin : Origin} {address : Address} (s : Scene)
    {n? : Option Node} (h : cx.Becomes depth origin address s n?)
    (hvectors : cx.settings.embedVectors = false) :
    instructionsOfAll n?.toList = s.instructions := by
  match s with
  | .node l children =>
    cases hprompt : l.tag.value.isPrompt with
    | true =>
      obtain ⟨fromName, htag⟩ := LayerTag.exists_of_isPrompt hprompt
      rw [Scene.instructions, htag]
      cases h with
      | hidden hfault hkept => simp [Layer.isKept, hprompt] at hkept
      | alone hfault hkept hitem halone =>
        subst hitem
        rw [Option.toList, instructionsOfAll, instructionsOfAll, List.append_nil]
        exact instructions_of_prompt (.node l children) htag
      | vector artifact _ _ _ _ hflattens =>
        exact absurd hflattens (not_flattens hvectors)
      | around hfault hkept hitem hinside hchildren =>
        subst hitem
        rw [isSuppressed_item, Scene.layer, LayerTag.isSuppressed_of_isPrompt hprompt] at hinside
        cases hinside
    | false =>
      rw [Scene.instructions_of_not_isPrompt hprompt]
      cases h with
      | hidden hfault hkept =>
        rw [Layer.isKept, Bool.or_eq_false_iff] at hkept
        rw [Layer.isOpen, hkept.1]
        rfl
      | alone hfault hkept hitem halone =>
        subst hitem
        rw [isSuppressed_item, isLeaf_item, Scene.layer] at halone
        rw [Option.toList, instructionsOfAll, instructionsOfAll, List.append_nil,
          instructions_item (.node l children) hprompt hkept fun _ => rfl, Scene.layer,
          Layer.isOpen_eq_false halone, if_neg Bool.false_ne_true, if_neg Bool.false_ne_true]
      | vector artifact _ _ _ _ hflattens =>
        exact absurd hflattens (not_flattens hvectors)
      | around hfault hkept hitem hinside hchildren =>
        subst hitem
        rw [isSuppressed_item, isLeaf_item, Bool.or_eq_false_iff] at hinside
        rw [Option.toList, instructionsOfAll, instructionsOfAll, List.append_nil,
          instructions_item (.node l children) hprompt hkept
            fun h => absurd h (Bool.eq_false_iff.1 hinside.2),
          hchildren.instructions children hvectors, Scene.layer]

theorem AllBecome.instructions {depth : Nat} {origin : Origin} {around : Address} {position : Nat}
    (scenes : List Scene) {nodes : List Node}
    (h : cx.AllBecome depth origin around position scenes nodes)
    (hvectors : cx.settings.embedVectors = false) :
    instructionsOfAll nodes = Scene.instructionsOf scenes := by
  match scenes with
  | [] =>
    cases h
    rfl
  | s :: rest =>
    cases h with
    | cons hfirst hrest =>
      rw [instructionsOfAll_append, hfirst.instructions s hvectors,
        hrest.instructions rest hvectors, Scene.instructionsOf]

end

theorem AllBecome.inlines_nothing {selection : Selection} {nodes : List Node}
    (h : cx.AllBecome 0 {} [] 0 selection nodes) (hvectors : cx.settings.embedVectors = false) :
    ∀ item ∈ itemsOfAll nodes, ¬item.isInlined := by
  intro item hitem hinlined
  obtain ⟨i, path, s, -, -, hof⟩ := h.exists_of_mem item hitem
  have hartifact : item.artifact ≠ none := by
    intro hnone
    rw [Item.isInlined, hnone] at hinlined
    cases hinlined
  rw [(hof.of_artifact hartifact).1] at hvectors
  cases hvectors

end NormalizeContext

/-! ## Conversions -/

namespace Markup

/-- The text of a comment, its terminators broken up. -/
def neutralized : Mode → List Char → List Char
  | .html => breakDashes
  | .jsx => breakStars

/-- Whether a comment of a text is that of an instruction, indented any number of times. -/
def IsInstruction (mode : Mode) (written : List Char) (instruction : String) : Prop :=
  ∃ levels,
    written = indent^[levels] (" AI: ".toList ++ neutralized mode instruction.toList ++ [' '])

theorem isInstruction_of_isRemark {mode : Mode} {written : List Char} {instruction : String}
    (h : IsRemark mode written ("AI: " ++ instruction)) :
    IsInstruction mode written instruction := by
  obtain ⟨levels, rfl⟩ := h
  refine ⟨levels, ?_⟩
  rw [String.toList_append]
  cases mode <;> rfl

/-- What is drawn for nodes is read with their instructions as comments. -/
theorem exists_read?_write {cx : EmitContext} {roots : List Node} {fragment : Fragment}
    (h : Pass.CanGive (cx.emitRoots roots) fragment)
    (hinlined : ∀ item ∈ Node.itemsOfAll roots, ¬item.isInlined) :
    ∃ tokens, read? cx.settings.mode (cx.write fragment.markup).toList = some tokens ∧
      List.Forall₂ (IsInstruction cx.settings.mode) (commentsIn tokens)
        (Node.instructionsOfAll roots) := by
  have hsound := (cx.emitAll_gives .root roots hinlined).of_canGive h
  have hsound_all : ∀ m ∈ mapAll (Style.resolve cx.settings) fragment.markup,
      m.IsSound cx.settings.mode := by
    rw [mapAll_eq_map]
    exact List.forall_mem_map.2 hsound
  obtain ⟨tokens, hread, hremarks⟩ := exists_read?_document hsound_all
  refine ⟨tokens, hread, ?_⟩
  rw [commentsOfAll_mapAll,
    ((cx.emitRoots_draws roots).of_canGive h).comments, List.forall₂_map_right_iff] at hremarks
  exact hremarks.imp fun _ _ => isInstruction_of_isRemark

end Markup

namespace Services.Shows

open Markup Node

variable {services : Services} {settings : Settings} {options : ConversionOptions}
  {selection : Selection} {conversion : Conversion} {nodes : List Node} {code preview : Fragment}

/-- **The comments of the code are the instructions of the selection,** each once, in document
order. -/
theorem comments_code (h : services.Shows settings options conversion nodes code preview)
    (hnodes : (services.normalizing settings).AllBecome 0 {} [] 0 selection nodes)
    (hvectors : settings.embedVectors = false) :
    ∃ tokens, read? settings.mode conversion.code.toList = some tokens ∧
      List.Forall₂ (IsInstruction settings.mode) (commentsIn tokens)
        (Scene.instructionsOf selection) := by
  rw [h.code_eq, ← hnodes.instructions selection hvectors]
  exact exists_read?_write h.code_given (hnodes.inlines_nothing hvectors)

/-- **The preview has no comments.** -/
theorem comments_preview (h : services.Shows settings options conversion nodes code preview)
    (hnodes : (services.normalizing settings).AllBecome 0 {} [] 0 selection nodes)
    (hvectors : settings.embedVectors = false) :
    ∃ tokens, read? .html conversion.preview.content.toList = some tokens ∧
      commentsIn tokens = [] := by
  have hinlined : ∀ item ∈ itemsOfAll (dropPrompts nodes), ¬item.isInlined := fun item hitem =>
    hnodes.inlines_nothing hvectors item ((itemsOfAll_dropPrompts_sublist nodes).subset hitem)
  obtain ⟨tokens, hread, hcomments⟩ := exists_read?_write h.preview_given hinlined
  rw [instructionsOfAll_dropPrompts, List.forall₂_nil_right_iff] at hcomments
  rw [h.preview_eq]
  exact ⟨tokens, hread, hcomments⟩

end Services.Shows

end Artboard
