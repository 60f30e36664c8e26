import Artboard.Conversion.Compile
import Artboard.Proofs.Conversion.Results
import Mathlib.Tactic

/-!
# Where an instruction takes its text from

The text of an instruction is the first text in document order that is not blank, from the layer
itself on, and the name of the layer is looked at only if there is none. Tags do not count here, so
an ignored layer gives its text to an instruction around it like any other
(`Services.compile_note_of_ignored_text`).

Changing a layer inside an instruction leaves the instruction alone, whatever the change is, exactly
if a text stands before the layer (`NormalizeContext.normalize_instruction`).
-/

namespace Artboard

open Text (allBlank trimmed)

/-- The text of a layer, unless it is blank. -/
def Layer.ownTexts (l : Layer) : List String :=
  l.characters.toList.filter fun text => !allBlank text.toList

theorem Layer.ownTexts_eq_singleton {l : Layer} {text : String} (h : l.characters = some text)
    (hblank : allBlank text.toList = false) : l.ownTexts = [text] := by
  simp [ownTexts, h, hblank]

namespace Scene

/-! ## Texts in document order -/

mutual

/-- The texts of a layer and the layers inside it that are not blank, in document order. -/
def texts : Scene → List String
  | .node l children => l.ownTexts ++ textsOf children

def textsOf : List Scene → List String
  | [] => []
  | s :: rest => s.texts ++ textsOf rest

end

theorem textsOf_eq_flatMap (scenes : List Scene) : textsOf scenes = scenes.flatMap texts := by
  induction scenes with
  | nil => rfl
  | cons s rest ih => rw [textsOf, ih, List.flatMap_cons]

mutual

theorem firstText_eq_head? (s : Scene) : s.firstText = s.texts.head? := by
  match s with
  | .node l children =>
    rw [firstText, texts, Layer.ownTexts]
    cases l.characters with
    | none => exact firstTextOf_eq_head? children
    | some text =>
      cases hblank : allBlank text.toList with
      | true => simpa [hblank] using firstTextOf_eq_head? children
      | false => simp [hblank]

theorem firstTextOf_eq_head? (scenes : List Scene) :
    firstTextOf scenes = (textsOf scenes).head? := by
  match scenes with
  | [] => rfl
  | s :: rest =>
    rw [firstTextOf, textsOf, List.head?_append, firstText_eq_head? s, firstTextOf_eq_head? rest]
    cases s.texts.head? <;> rfl

end

theorem instruction_eq (s : Scene) (fromName : String) :
    s.instruction fromName = (s.texts.head?.map trimmed).getD fromName := by
  rw [instruction, firstText_eq_head?]
  cases s.texts.head? <;> rfl

/-! ## Changing a layer -/

/-- The layer with other characters and with other layers inside it. -/
def rewritten (characters : Option String) (inside : List Scene) : Scene → Scene
  | .node l _ => .node { l with characters } inside

/-- The scene with the layer at an address changed. -/
def modifyAt (f : Scene → Scene) : Address → Scene → Scene
  | [], s => f s
  | i :: path, .node l children => .node l (children.modify i (modifyAt f path))

/-- The texts before a layer in document order: those of the layers around it, and those of all
layers in front of it or of a layer around it. -/
def textsBefore : Address → Scene → List String
  | [], _ => []
  | i :: path, .node l children =>
    l.ownTexts ++ textsOf (children.take i) ++ (children[i]?.map (textsBefore path)).getD []

/-- A change of a layer shows in the texts between those before it and those behind it. -/
theorem exists_texts_modifyAt {path : Address} {s d : Scene} (h : s.at? path = some d) :
    ∃ behind, s.texts = s.textsBefore path ++ d.texts ++ behind ∧
      ∀ f, (s.modifyAt f path).texts = s.textsBefore path ++ (f d).texts ++ behind := by
  induction path generalizing s with
  | nil =>
    obtain rfl := Option.some.inj h
    exact ⟨[], (List.append_nil _).symm, fun f => (List.append_nil _).symm⟩
  | cons i path ih =>
    obtain ⟨l, children⟩ := s
    obtain ⟨child, hchild, hd⟩ := Option.bind_eq_some_iff.1 h
    obtain ⟨behind, hself, hchanged⟩ := ih hd
    have hsplit (g : Scene → Scene) : children.modify i g =
        children.take i ++ g child :: children.drop (i + 1) := by
      obtain ⟨hi, rfl⟩ := List.getElem?_eq_some_iff.1 hchild
      exact List.modify_eq_take_cons_drop hi
    have htexts (g : Scene → Scene) : (Scene.node l (children.modify i g)).texts =
        l.ownTexts ++ textsOf (children.take i) ++ (g child).texts ++
          textsOf (children.drop (i + 1)) := by
      rw [texts, hsplit, textsOf_eq_flatMap, textsOf_eq_flatMap, textsOf_eq_flatMap,
        List.flatMap_append, List.flatMap_cons, List.append_assoc, List.append_assoc]
    refine ⟨behind ++ textsOf (children.drop (i + 1)), ?_, fun f => ?_⟩
    · have hid : children.modify i id = children := List.modify_id ..
      rw [textsBefore, hchild, ← hid, htexts, hid]
      simp [hself]
    · rw [modifyAt, htexts, hchanged, textsBefore, hchild]
      simp

/-- A change of a layer may change the text of an instruction around it, unless a text stands
before the layer. -/
theorem instruction_modifyAt_iff {path : Address} {s d : Scene} (h : s.at? path = some d)
    (fromName : String) :
    (∀ characters inside, (s.modifyAt (rewritten characters inside) path).instruction fromName =
      s.instruction fromName) ↔ s.textsBefore path ≠ [] := by
  obtain ⟨behind, hself, hchanged⟩ := exists_texts_modifyAt h
  constructor
  · intro hkept hbefore
    -- The instruction has one text, which cannot be that of two different changes.
    have hshown (text : String) (hblank : allBlank text.toList = false) :
        s.instruction fromName = trimmed text := by
      rw [← hkept (some text) [], instruction_eq, hchanged, hbefore]
      obtain ⟨l, children⟩ := d
      rw [rewritten, texts, Layer.ownTexts_eq_singleton rfl hblank]
      rfl
    exact absurd ((hshown "a" (by decide)).symm.trans (hshown "b" (by decide))) (by decide)
  · intro hbefore characters inside
    obtain ⟨text, rest, hrest⟩ := List.exists_cons_of_ne_nil hbefore
    rw [instruction_eq, instruction_eq, hself, hchanged, hrest]
    rfl

/-! ## Addresses -/

theorem at?_modifyAt_append {address path : Address} {s d : Scene} (f : Scene → Scene)
    (h : s.at? address = some d) :
    (s.modifyAt f (address ++ path)).at? address = some (d.modifyAt f path) := by
  induction address generalizing s with
  | nil =>
    obtain rfl := Option.some.inj h
    rfl
  | cons i address ih =>
    obtain ⟨l, children⟩ := s
    obtain ⟨child, hchild, hd⟩ := Option.bind_eq_some_iff.1 h
    rw [List.cons_append, modifyAt, at?, List.getElem?_modify_eq, hchild]
    exact ih hd

/-- A layer keeps its name when it or a layer inside it is rewritten. -/
theorem name_modifyAt_rewritten (characters : Option String) (inside : List Scene)
    (path : Address) (s : Scene) :
    (s.modifyAt (rewritten characters inside) path).layer.name = s.layer.name := by
  obtain ⟨l, children⟩ := s
  cases path <;> rfl

end Scene

namespace Selection

def modifyAt (f : Scene → Scene) : Address → Selection → Selection
  | [], selection => selection
  | i :: path, selection => selection.modify i (Scene.modifyAt f path)

theorem at?_modifyAt_append {address path : Address} {selection : Selection} {s : Scene}
    (f : Scene → Scene) (h : selection.at? address = some s) :
    (selection.modifyAt f (address ++ path)).at? address = some (s.modifyAt f path) := by
  cases address with
  | nil => cases h
  | cons i address =>
    obtain ⟨root, hroot, hs⟩ := Option.bind_eq_some_iff.1 h
    rw [List.cons_append, modifyAt, at?, List.getElem?_modify_eq, hroot]
    exact Scene.at?_modifyAt_append f hs

end Selection

namespace NormalizeContext

open Pass

variable (cx : NormalizeContext)

/-- In every normalization of the selection, the instruction at an address has the text. -/
def Instructs (selection : Selection) (address : Address) (text : String) : Prop :=
  Gives (cx.normalize selection) fun result => ∀ nodes, result = .ok nodes →
    ∀ item ∈ Node.itemsOfAll nodes.value, item.address = address → item.tag = .prompt text

theorem instructs_instruction {selection : Selection} {address : Address} {s : Scene}
    {fromName : String} (hs : selection.at? address = some s)
    (htag : s.layer.tag.value = .prompt fromName) :
    cx.Instructs selection address (s.instruction fromName) := by
  refine (cx.normalize_exists_of_mem selection).mono fun result hitems nodes hnodes => ?_
  intro item hitem haddress
  obtain ⟨s', hs', -, hof⟩ := hitems nodes hnodes item hitem
  rw [haddress] at hs' hof
  obtain rfl := Option.some.inj (hs.symm.trans hs')
  cases hof <;> simp [NormalizeContext.item, htag]

/-- **What is inside an instruction can become its text, be it ignored or not.** Give a layer inside
an instruction other characters and other layers inside it. In every normalization the instruction
gets the first text that is then in it, or what its name says. So it stays the same whatever the
change is exactly if a text stands before the layer. -/
theorem normalize_instruction {selection : Selection} {address path : Address} {s d : Scene}
    {fromName : String} (hs : selection.at? address = some s)
    (htag : s.layer.tag.value = .prompt fromName) (hd : s.at? path = some d) :
    cx.Instructs selection address (s.instruction fromName) ∧
      (∀ characters inside,
        cx.Instructs (selection.modifyAt (.rewritten characters inside) (address ++ path)) address
          ((s.modifyAt (.rewritten characters inside) path).instruction fromName)) ∧
      ((∀ characters inside, (s.modifyAt (.rewritten characters inside) path).instruction fromName =
        s.instruction fromName) ↔ s.textsBefore path ≠ []) := by
  refine ⟨cx.instructs_instruction hs htag, fun characters inside => ?_,
    Scene.instruction_modifyAt_iff hd fromName⟩
  refine cx.instructs_instruction (Selection.at?_modifyAt_append _ hs) ?_
  rw [Layer.tag, Scene.name_modifyAt_rewritten]
  exact htag

/-- A note with a text in front of an ignored draft. -/
theorem normalize_instruction_note :
    let draft : Scene := .node { id := "draft", name := "#ignore", type := "GROUP" }
      [.node { id := "old", name := "Old", type := "TEXT", characters := "as a carousel" } []]
    let text : Scene := .node
      { id := "text", name := "Text", type := "TEXT", characters := " as a table " } []
    let note : Scene := .node { id := "note", name := "#prompt: summarize", type := "FRAME" }
      [text, draft]
    let card : Selection := [.node { id := "card", name := "Card", type := "FRAME" } [note]]
    let cx : NormalizeContext := ⟨{}, ⟨fun _ => none, fun _ _ => .failed⟩, fun _ _ _ => pure none⟩
    card.at? [0, 0] = some note ∧ note.layer.tag.value = .prompt "summarize" ∧
      note.at? [1] = some draft ∧ draft.layer.tag.value = .ignore ∧
      ∀ characters inside,
        cx.Instructs (card.modifyAt (.rewritten characters inside) [0, 0, 1]) [0, 0]
          "as a table" := by
  intro draft text note card cx
  have hnote : card.at? [0, 0] = some note := rfl
  have htag : note.layer.tag.value = .prompt "summarize" := by decide
  obtain ⟨-, hchanged, hsame⟩ :=
    cx.normalize_instruction hnote htag (show note.at? [1] = some draft from rfl)
  refine ⟨hnote, htag, rfl, by decide, fun characters inside => ?_⟩
  have htext : note.instruction "summarize" = "as a table" := by decide
  rw [← htext, ← hsame.2 (by decide) characters inside]
  exact hchanged characters inside

end NormalizeContext

/-- **An ignored text becomes an instruction.** The instruction says what the ignored layer inside
it says, and only if that layer has no text, what its own name says. -/
theorem Services.compile_note_of_ignored_text :
    let note (characters : Option String) : Scene := .node
      { id := "note", name := "#prompt: summarize", type := "FRAME", width := 10, height := 10 }
      [.node
        { id := "draft", name := "#ignore", type := "TEXT", width := 10, height := 10, characters }
        []]
    let services := uploading ⟨fun _ => none, fun _ _ => .failed⟩ fun _ _ => .failed
    let outcome (code : String) : Outcome := .converted {
      code
      preview := ⟨10, 10, ""⟩
      warnings := []
      colors := []
      textStyles := []
      trigger := none }
    (services.compile {} {} [note (some "secret")] {}).1 =
        .ok (outcome "\x7b/* AI: secret */\x7d") ∧
      (services.compile {} {} [note none] {}).1 =
        .ok (outcome "\x7b/* AI: summarize */\x7d") := by
  decide +kernel

end Artboard
