import Artboard.Proofs.Conversion.Instructions
import Artboard.Proofs.Conversion.Renaming
import Artboard.Proofs.Conversion.Suppression

/-!
# Selections without instructions

Deleting all instructions from a selection, with whatever is inside them, changes nothing in the
preview (`Services.compile_instructions`).

**Nodes.** What remains becomes the nodes of the whole selection without the instructions among
them, at other addresses (`AllBecome.dropPrompts`). No address occurs twice, so the old and the new
ones correspond one to one.

**Worlds.** Instructions ask for nothing when they are drawn
(`EmitContext.emitAll_lockstep_dropPrompts`). So the code, although it differs, leaves worlds that
differ in addresses only, and the preview gets the same replies in both.
-/

namespace Artboard

open Pass Node

/-! ## Scenes -/

namespace Scene

def isPrompt (s : Scene) : Bool := s.layer.tag.value.isPrompt

mutual

/-- The layer without the instructions inside it. -/
def withoutPrompts : Scene → Scene
  | .node layer children => .node layer (dropPrompts children)

/-- The layers that are not instructions, without the instructions inside them. -/
def dropPrompts : List Scene → List Scene
  | [] => []
  | s :: rest => if s.isPrompt then dropPrompts rest else s.withoutPrompts :: dropPrompts rest

end

end Scene

/-! ## Nodes -/

namespace Node

theorem dropPrompts_append (nodes others : List Node) :
    dropPrompts (nodes ++ others) = dropPrompts nodes ++ dropPrompts others := by
  induction nodes with
  | nil => rfl
  | cons n rest ih =>
    rw [List.cons_append, dropPrompts, dropPrompts, ih]
    by_cases hprompt : n.isPrompt = true
    · simp only [hprompt, if_true]
    · simp only [hprompt, if_false, List.cons_append, Bool.false_eq_true]

/-- Nodes like some without instructions have no instructions. -/
theorem AlikeAll.dropPrompts_eq {ρ : Address → Address → Prop} (nodes : List Node)
    {nodes' : List Node} (h : AlikeAll ρ (dropPrompts nodes) nodes') :
    dropPrompts nodes' = nodes' := by
  match nodes with
  | [] =>
    cases h
    rfl
  | .node item children :: rest =>
    rw [dropPrompts] at h
    split_ifs at h with hprompt
    · exact h.dropPrompts_eq rest
    · cases h with
      | cons hfirst hrest =>
        cases hfirst with
        | @node _ address' _ children' _ hchildren =>
          have hother : ¬(Node.node (item.readdressed address') children').isPrompt = true :=
            hprompt
          rw [dropPrompts, if_neg hother, withoutPrompts, hchildren.dropPrompts_eq children,
            hrest.dropPrompts_eq rest]

end Node

namespace NormalizeContext

variable {cx : NormalizeContext}

/-! ## Addresses -/

mutual

/-- No address occurs twice in the tree of a scene: those of the layers inside are longer. -/
theorem Becomes.nodup_addresses {depth : Nat} {origin : Origin} {address : Address} (s : Scene)
    {n? : Option Node} (h : cx.Becomes depth origin address s n?) :
    (addressesOfAll n?.toList).Nodup := by
  match s with
  | .node l children =>
    cases h with
    | hidden => exact List.nodup_nil
    | alone => exact List.nodup_singleton _
    | vector => exact List.nodup_singleton _
    | @around _ _ _ _ _ item inside _ _ hitem _ hchildren =>
      have hinside := hchildren.nodup_addresses children
      have hown : item.address ∉ addressesOfAll inside := by
        intro hmem
        obtain ⟨inner, hinner, haddress⟩ := List.mem_map.1 hmem
        obtain ⟨i, path, d, -, -, hof⟩ := hchildren.exists_of_mem inner hinner
        have hlength := congrArg List.length (hof.address_eq.symm.trans haddress)
        subst hitem
        simp [NormalizeContext.item] at hlength
      rw [Option.toList, addressesOfAll_cons]
      simpa [addressesOfAll, itemsOfAll] using And.intro hown hinside

/-- Nor in the trees of siblings: their addresses begin with different positions. -/
theorem AllBecome.nodup_addresses {depth : Nat} {origin : Origin} {parent : Address}
    {position : Nat} (scenes : List Scene) {nodes : List Node}
    (h : cx.AllBecome depth origin parent position scenes nodes) :
    (addressesOfAll nodes).Nodup := by
  match scenes with
  | [] =>
    cases h
    exact List.nodup_nil
  | s :: rest =>
    cases h with
    | @cons _ _ _ _ _ _ n? others hfirst hrest =>
      have happend : addressesOfAll (n?.toList ++ others) =
          addressesOfAll n?.toList ++ addressesOfAll others := by
        simp [addressesOfAll, itemsOfAll_append]
      rw [happend]
      refine (hfirst.nodup_addresses s).append (hrest.nodup_addresses rest) ?_
      intro address hleft hright
      obtain ⟨item, hitem, rfl⟩ := List.mem_map.1 hleft
      obtain ⟨other, hother, haddress⟩ := List.mem_map.1 hright
      obtain ⟨path, d, -, -, hof⟩ := hfirst.exists_of_mem item hitem
      obtain ⟨i, path', d', -, -, hof'⟩ := hrest.exists_of_mem other hother
      rw [hof.address_eq, hof'.address_eq] at haddress
      simp at haddress
      omega

end

/-! ## What remains of a selection -/

theorem isPrompt_item (cx : NormalizeContext) (s : Scene) (address : Address) (origin : Origin) :
    (cx.item s address origin).value.tag.isPrompt = s.isPrompt := by
  simp only [item, Scene.isPrompt]
  cases s.layer.tag.value <;> rfl

theorem Becomes.isPrompt_eq {depth : Nat} {origin : Origin} {address : Address} {s : Scene}
    {n : Node} (h : cx.Becomes depth origin address s (some n)) : n.isPrompt = s.isPrompt := by
  cases h with
  | alone _ _ hitem => exact hitem ▸ cx.isPrompt_item _ address origin
  | vector artifact _ _ hitem => exact hitem ▸ cx.isPrompt_item _ address origin
  | around _ _ hitem => exact hitem ▸ cx.isPrompt_item _ address origin

/-- An instruction leaves nothing but the node that is dropped. -/
theorem Becomes.dropPrompts_of_isPrompt {depth : Nat} {origin : Origin} {address : Address}
    {s : Scene} {n? : Option Node} (h : cx.Becomes depth origin address s n?)
    (hprompt : s.isPrompt = true) : Node.dropPrompts n?.toList = [] := by
  cases n? with
  | none => rfl
  | some n =>
    rw [Option.toList, Node.dropPrompts, h.isPrompt_eq, if_pos hprompt]
    rfl

mutual

/-- A scene that is no instruction becomes the same node without the instructions inside it. -/
theorem Becomes.withoutPrompts {depth : Nat} {origin : Origin} {address : Address} (s : Scene)
    {n? : Option Node} (h : cx.Becomes depth origin address s n?)
    (hvectors : cx.settings.embedVectors = false) (hprompt : s.isPrompt = false)
    (address' : Address) :
    ∃ n?', cx.Becomes depth origin address' s.withoutPrompts n?' ∧
      AlikeAll (fun _ _ => True) (Node.dropPrompts n?.toList) n?'.toList := by
  match s with
  | .node l children =>
    have hitems : (cx.item (.node l (Scene.dropPrompts children)) address' origin).value =
        (cx.item (.node l children) address origin).value.readdressed address' := by
      rw [item_congr (l := l) hprompt _ children]
      rfl
    have hkeeps {item : Item} {inside : List Node}
        (hitem : (cx.item (.node l children) address origin).value = item) :
        Node.dropPrompts [.node item inside] = [.node item (Node.dropPrompts inside)] := by
      have hother : (Node.node item inside).isPrompt = false := by
        rw [← hprompt, ← cx.isPrompt_item _ address origin, hitem]
        rfl
      rw [Node.dropPrompts, if_neg (Bool.eq_false_iff.1 hother), Node.withoutPrompts]
      rfl
    cases h with
    | hidden hfault hkept => exact ⟨none, .hidden hfault hkept, .nil⟩
    | alone hfault hkept hitem halone =>
      subst hitem
      refine ⟨_, .alone hfault hkept hitems halone, ?_⟩
      rw [Option.toList, hkeeps rfl]
      exact .cons (.node True.intro .nil) .nil
    | vector artifact _ _ _ _ hflattens =>
      exact absurd hflattens (not_flattens hvectors)
    | around hfault hkept hitem hinside hchildren =>
      subst hitem
      obtain ⟨inside', hinside', halike⟩ := hchildren.dropPrompts children hvectors address' 0
      refine ⟨_, .around hfault hkept hitems hinside hinside', ?_⟩
      rw [Option.toList, hkeeps rfl]
      exact .cons (.node True.intro halike) .nil

/-- **Without instructions, scenes become the same nodes without instructions,** at other
addresses. -/
theorem AllBecome.dropPrompts {depth : Nat} {origin : Origin} {parent : Address} {position : Nat}
    (scenes : List Scene) {nodes : List Node}
    (h : cx.AllBecome depth origin parent position scenes nodes)
    (hvectors : cx.settings.embedVectors = false) (parent' : Address) (position' : Nat) :
    ∃ nodes', cx.AllBecome depth origin parent' position' (Scene.dropPrompts scenes) nodes' ∧
      AlikeAll (fun _ _ => True) (Node.dropPrompts nodes) nodes' := by
  match scenes with
  | [] =>
    cases h
    exact ⟨[], .nil, .nil⟩
  | s :: rest =>
    cases h with
    | cons hfirst hrest =>
      rw [Scene.dropPrompts, dropPrompts_append]
      cases hprompt : s.isPrompt with
      | true =>
        rw [hfirst.dropPrompts_of_isPrompt hprompt]
        exact hrest.dropPrompts rest hvectors parent' position'
      | false =>
        obtain ⟨n?', hn, halike⟩ :=
          hfirst.withoutPrompts s hvectors hprompt (parent' ++ [position'])
        obtain ⟨nodes', hnodes, halikes⟩ :=
          hrest.dropPrompts rest hvectors parent' (position' + 1)
        exact ⟨_, .cons hn hnodes, halike.append halikes⟩

end

/-! ## Normalization without vectors -/

mutual

/-- What a scene becomes is given in every world, which stays as it is. -/
theorem Becomes.runIn_convert {depth : Nat} {origin : Origin} {address : Address} (s : Scene)
    {n? : Option Node} (h : cx.Becomes depth origin address s n?)
    (hvectors : cx.settings.embedVectors = false) (w : World) :
    ∃ node? : Option (Warned Node), node?.map (·.value) = n? ∧
      (cx.convert depth origin address s).runIn w = (.ok (.ok node?), w) := by
  match s with
  | .node l children =>
    rw [convert_node]
    cases h with
    | hidden hfault hkept =>
      refine ⟨none, rfl, ?_⟩
      rw [hfault]
      dsimp only
      rw [if_pos (l.isKept_eq_false_iff.1 hkept), runIn_pure]
    | alone hfault hkept hitem halone =>
      subst hitem
      refine ⟨some ⟨_, (cx.item (.node l children) address origin).warnings⟩, rfl, ?_⟩
      rw [hfault]
      dsimp only
      rw [if_neg (l.isKept_iff.1 hkept), if_pos halone, runIn_pure]
    | vector artifact _ _ _ _ hflattens =>
      exact absurd hflattens (not_flattens hvectors)
    | around hfault hkept hitem hinside hchildren =>
      subst hitem
      obtain ⟨results, all, hrun, hall, rfl⟩ := hchildren.runIn_convertAll children hvectors w
      refine ⟨some ⟨_, (cx.item (.node l children) address origin).warnings ++ all.warnings⟩,
        rfl, ?_⟩
      rw [hfault]
      dsimp only
      rw [if_neg (l.isKept_iff.1 hkept), if_neg (Bool.eq_false_iff.1 hinside),
        flattened_of_not_embedding hvectors, pure_bind]
      dsimp only
      rw [runIn_bind, hrun]
      dsimp only
      rw [hall]
      rfl

theorem AllBecome.runIn_convertAll {depth : Nat} {origin : Origin} {parent : Address}
    {position : Nat} (scenes : List Scene) {nodes : List Node}
    (h : cx.AllBecome depth origin parent position scenes nodes)
    (hvectors : cx.settings.embedVectors = false) (w : World) :
    ∃ results all, (cx.convertAll depth origin parent position scenes).runIn w =
      (.ok results, w) ∧ gather results = .ok all ∧ all.value = nodes := by
  match scenes with
  | [] =>
    cases h
    exact ⟨[], ⟨[], []⟩, rfl, rfl, rfl⟩
  | s :: rest =>
    cases h with
    | cons hfirst hrest =>
      obtain ⟨node?, rfl, hrun⟩ := hfirst.runIn_convert s hvectors w
      obtain ⟨results, all, hruns, hall, rfl⟩ := hrest.runIn_convertAll rest hvectors w
      refine ⟨.ok node? :: results, ?_⟩
      have hconvert : (cx.convertAll depth origin parent position (s :: rest)).runIn w =
          (.ok (.ok node? :: results), w) := by
        rw [convertAll_cons, runIn_bind, hrun]
        dsimp only
        rw [runIn_bind, hruns]
        rfl
      cases node? with
      | none => exact ⟨all, hconvert, by rw [gather, hall]; rfl, rfl⟩
      | some node =>
        exact ⟨⟨node.value :: all.value, _⟩, hconvert, by rw [gather, hall]; rfl, rfl⟩

end

/-- **Without vectors, what a selection becomes is given in every world.** -/
theorem AllBecome.runIn_normalize {selection : Selection} {nodes : List Node}
    (h : cx.AllBecome 0 {} [] 0 selection nodes) (hvectors : cx.settings.embedVectors = false)
    (w : World) :
    ∃ all : Warned (List Node), all.value = nodes ∧
      (cx.normalize selection).runIn w = (.ok (.ok all), w) := by
  obtain ⟨results, all, hrun, hall, hvalue⟩ := h.runIn_convertAll selection hvectors w
  refine ⟨all, hvalue, ?_⟩
  rw [normalize_eq, runIn_bind, hrun]
  dsimp only
  rw [hall, runIn_pure]

end NormalizeContext

/-! ## Drawing without instructions -/

namespace EmitContext

section Worlds

variable (cx : EmitContext) (item : Item) (children children' : List Node)
  (parent parent' : ParentContext)

/-- The nodes inside a shape have no say in what it asks for. -/
theorem shape_leaves_same :
    Lockstep Eq (fun _ _ => True) (cx.shape item children parent)
      (cx.shape item children' parent') := by
  rw [shape_eq, shape_eq]
  split_ifs
  · exact .pure True.intro
  · exact (Lockstep.refl _).bind fun _ _ _ => .pure True.intro
  · exact .pure True.intro

theorem staticImage_leaves_same :
    Lockstep Eq (fun _ _ => True) (cx.staticImage item children parent)
      (cx.staticImage item children' parent') := by
  rw [staticImage_eq, staticImage_eq]
  exact (Lockstep.refl _).bind fun _ _ _ => .pure True.intro

/-- A container asks for its image, whether it is drawn or not. -/
theorem container_leaves_same (inside inside' : Fragment) :
    Lockstep Eq (fun _ _ => True) (cx.container item children parent inside)
      (cx.container item children' parent' inside') := by
  have hpure (c c' : Prop) [Decidable c] [Decidable c'] (a b a' b' : Fragment) :
      Lockstep Eq (fun _ _ => True) (if c then pure a else pure b : Pass Fragment)
        (if c' then pure a' else pure b') := by
    split_ifs <;> exact .pure True.intro
  rw [container_eq, container_eq]
  by_cases hskipped : isSkipped item = true
  · rw [if_pos hskipped, if_pos hskipped]
    exact .pure True.intro
  rw [if_neg hskipped, if_neg hskipped]
  by_cases himage : item.hasImageFill = true
  · simp only [himage, if_true]
    refine (Lockstep.refl _).bind ?_
    rintro image _ rfl
    exact hpure _ _ _ _ _ _
  · simp only [himage, if_false, Bool.false_eq_true]
    exact hpure _ _ _ _ _ _

end Worlds

mutual

theorem emit_lockstep_withoutPrompts (cx : EmitContext) (parent : ParentContext) (n : Node) :
    Lockstep Eq (fun _ _ => True) (cx.emit parent n) (cx.emit parent n.withoutPrompts) := by
  match n with
  | .node item children =>
    have hinside := emitAll_lockstep_dropPrompts cx (.inside item) children
    rw [withoutPrompts, emit_node, emit_node]
    cases item.tag with
    | ignore | prompt | slot | canvas => exact .pure True.intro
    | list id => exact hinside.bind fun _ _ _ => .pure True.intro
    | static => exact cx.staticImage_leaves_same item _ _ parent parent
    | none =>
      cases item.artifact with
      | some artifact => exact .pure True.intro
      | none =>
        cases item.kind with
        | rectangle | ellipse => exact cx.shape_leaves_same item _ _ parent parent
        | group | frame | «section» =>
          exact hinside.bind fun inside inside' _ =>
            cx.container_leaves_same item _ _ parent parent inside inside'
        | text | line | vector | unsupported => exact .pure True.intro

/-- **Instructions ask for nothing:** without them the world is left the same. -/
theorem emitAll_lockstep_dropPrompts (cx : EmitContext) (parent : ParentContext)
    (nodes : List Node) :
    Lockstep Eq (fun _ _ => True) (cx.emitAll parent nodes)
      (cx.emitAll parent (dropPrompts nodes)) := by
  match nodes with
  | [] => exact .pure True.intro
  | .node item children :: rest =>
    have hrest := emitAll_lockstep_dropPrompts cx parent rest
    rw [dropPrompts, emitAll_cons]
    by_cases hprompt : (Node.node item children).isPrompt = true
    · -- A comment is drawn without asking for anything, so the rest begins in the same world.
      obtain ⟨instruction, htag⟩ := LayerTag.exists_of_isPrompt hprompt
      have hcomment : cx.emit parent (.node item children) =
          pure (.ofMarkup (.comment ("AI: " ++ instruction))) := by
        rw [Node.item] at htag
        rw [emit_node, htag]
      rw [if_pos hprompt, hcomment, pure_bind, ← bind_pure (cx.emitAll parent (dropPrompts rest))]
      exact hrest.bind fun _ _ _ => .pure True.intro
    · rw [if_neg hprompt, emitAll_cons]
      refine (emit_lockstep_withoutPrompts cx parent (.node item children)).bind fun _ _ _ => ?_
      exact hrest.bind fun _ _ _ => .pure True.intro

end

end EmitContext

/-! ## Conversions -/

namespace Services

open Markup

variable {services : Services} {settings : Settings} {options : ConversionOptions}
  {selection : Selection} {conversion : Conversion} {w : World}

/-- Nodes that differ in instructions and addresses only have the same preview. -/
theorem draw_lockstep {ρ : Address → Address → Prop} (hρ : Relator.BiUnique ρ) (host : Host)
    (uploader : Uploader) (settings : Settings) (options : ConversionOptions)
    {nodes nodes' : Warned (List Node)}
    (h : AlikeAll ρ (dropPrompts nodes.value) nodes'.value) :
    Lockstep (World.SameBut ρ) (fun c c' => c'.preview.content = c.preview.content)
      ((uploading host uploader).draw settings options nodes)
      ((uploading host uploader).draw settings options nodes') := by
  have hrespects (settings : Settings) (images : ImageMode) :
      EmitContext.Respects ⟨settings, host, address uploader, images⟩ ρ :=
    ⟨hρ, fun uploads kind bytes => address_lockstep uploader uploads kind bytes⟩
  have hcode : Lockstep (World.SameBut ρ) (fun _ _ => True)
      (((uploading host uploader).emitting settings options).emitRoots nodes.value)
      (((uploading host uploader).emitting settings options).emitRoots nodes'.value) :=
    (EmitContext.emitAll_lockstep_dropPrompts _ .root nodes.value).after
      (EmitContext.emitAll_lockstep (hrespects _ _) .root _ h)
  have hpreview : Lockstep (World.SameBut ρ) (fun p p' => p'.content = p.content)
      (Preview.ofNodes settings host (address uploader) nodes.value)
      (Preview.ofNodes settings host (address uploader) nodes'.value) := by
    rw [Preview.ofNodes_eq, Preview.ofNodes_eq, h.dropPrompts_eq]
    refine (EmitContext.emitAll_lockstep (hrespects _ _) .root _ h).bind fun f f' hf => ?_
    have hwritten : (Preview.context settings host (address uploader)).write f'.markup =
        (Preview.context settings host (address uploader)).write f.markup :=
      EmitContext.write_of_sameBut _ hf.markup
    dsimp only
    cases Preview.bounds nodes.value <;> cases Preview.bounds nodes'.value <;>
      exact .pure hwritten
  exact hcode.bind fun _ _ _ => hpreview.bind fun _ _ hcontent => .pure hcontent

/-- A run draws what the selection is normalized to. -/
theorem runIn_run_iff {nodes : Warned (List Node)}
    (h : ((services.normalizing settings).normalize selection).runIn w = (.ok (.ok nodes), w)) :
    ((services.run settings options selection).runIn w).1 = .ok (.ok conversion) ↔
      ((services.draw settings options nodes).runIn w).1 = .ok conversion := by
  rw [run_eq, runIn_bind, h]
  dsimp only
  rw [runIn_bind]
  rcases (services.draw settings options nodes).runIn w with ⟨panic | conversion, v⟩ <;> simp

theorem compile_of_runIn_run (hselection : selection ≠ [])
    (h : ((services.run settings options selection).runIn { w with bitmaps := [] }).1 =
      .ok (.ok conversion)) :
    (services.compile settings options selection w).1 = .ok (.converted conversion) := by
  have hempty : ¬selection.isEmpty = true := by simpa using hselection
  rw [compile, if_neg hempty]
  rcases hrun : (services.run settings options selection).runIn { w with bitmaps := [] } with
    ⟨value, v⟩
  rw [hrun] at h
  obtain rfl : value = .ok (.ok conversion) := h
  rfl

/-- **The preview does not depend on instructions.** -/
theorem compile_dropPrompts {host : Host} {uploader : Uploader}
    (hvectors : settings.embedVectors = false)
    (h : ((uploading host uploader).compile settings options selection w).1 =
      .ok (.converted conversion))
    (hselection : Scene.dropPrompts selection ≠ []) :
    ∃ conversion',
      ((uploading host uploader).compile settings options (Scene.dropPrompts selection) w).1 =
        .ok (.converted conversion') ∧
      conversion'.preview.content = conversion.preview.content := by
  obtain ⟨nodes, -, -, hnodes, -⟩ := compile_shows h
  obtain ⟨nodes', hnodes', halike⟩ := hnodes.dropPrompts selection hvectors [] 0
  have hnodup : (addressesOfAll (dropPrompts nodes)).Nodup :=
    (hnodes.nodup_addresses selection).sublist ((itemsOfAll_dropPrompts_sublist nodes).map _)
  obtain ⟨ρ, hρ, halike⟩ :=
    halike.exists_biUnique hnodup (hnodes'.nodup_addresses (Scene.dropPrompts selection))
  -- Normalization leaves the world as it is, so both drawings begin in the same one.
  obtain ⟨all, rfl, hall⟩ := hnodes.runIn_normalize hvectors { w with bitmaps := [] }
  obtain ⟨all', rfl, hall'⟩ := hnodes'.runIn_normalize hvectors { w with bitmaps := [] }
  have hdraw := (runIn_run_iff hall).1 (runIn_run_of_compile h)
  obtain ⟨hmatching, -⟩ :=
    draw_lockstep hρ host uploader settings options halike
      { w with bitmaps := [] } { w with bitmaps := [] } ⟨rfl, rfl, rfl, .nil⟩
  rw [hdraw] at hmatching
  generalize hdraw' : (((uploading host uploader).draw settings options all').runIn
    { w with bitmaps := [] }).1 = result at hmatching
  cases hmatching with
  | @value _ conversion' hcontent =>
    exact ⟨conversion', compile_of_runIn_run hselection ((runIn_run_iff hall').2 hdraw'), hcontent⟩

/-- **Instructions are the comments of the code, and nothing to the preview.** Let vectors not be
embedded. Whatever the selection, the other settings, the design tool, the uploader and the world
are: if there is a conversion, then the comments of its code are the instructions that are reached
from the roots through visible containers, each once and in document order. Its preview has no
comments, and is that of the selection without instructions, unless nothing remains of it. -/
theorem compile_instructions (host : Host) (uploader : Uploader) (settings : Settings)
    (options : ConversionOptions) (selection : Selection) (w : World) (conversion : Conversion)
    (hvectors : settings.embedVectors = false)
    (h : ((uploading host uploader).compile settings options selection w).1 =
      .ok (.converted conversion)) :
    (∃ tokens, read? settings.mode conversion.code.toList = some tokens ∧
      List.Forall₂ (IsInstruction settings.mode) (commentsIn tokens)
        (Scene.instructionsOf selection)) ∧
    (∃ tokens, read? .html conversion.preview.content.toList = some tokens ∧
      commentsIn tokens = []) ∧
    (Scene.dropPrompts selection ≠ [] → ∃ conversion',
      ((uploading host uploader).compile settings options (Scene.dropPrompts selection) w).1 =
        .ok (.converted conversion') ∧
      conversion'.preview.content = conversion.preview.content) := by
  obtain ⟨nodes, code, preview, hnodes, hshows⟩ := compile_shows h
  refine ⟨?_, ?_, ?_⟩
  · exact hshows.comments_code hnodes hvectors
  · exact hshows.comments_preview hnodes hvectors
  · exact compile_dropPrompts hvectors h

/-- A hidden note beside a card, one inside a list, and one that is not reached. -/
theorem compile_card_with_notes :
    let note : Scene := .node { id := "1", name := "#prompt Keep it short", visible := false } []
    let advice : Scene := .node { id := "2", name := "#PROMPT: one row <!-- each -->" } []
    let photo : Scene := .node
      { id := "3", name := "Photo", type := "RECTANGLE", width := 40, height := 40,
        fills := [.image {}] } []
    let rows : Scene := .node
      { id := "4", name := "#list:rows", type := "FRAME", width := 90, height := 40 }
      [advice, photo]
    let aside : Scene := .node { id := "5", name := "#prompt Not drawn" } []
    let banner : Scene := .node
      { id := "6", name := "#static", type := "FRAME", width := 90, height := 10 } [aside]
    let card : Scene := .node
      { id := "0", name := "Card", type := "FRAME", width := 100, height := 50 } [rows, banner]
    let selection : Selection := [note, card]
    let services := uploading ⟨fun _ => none, fun _ _ => .done [1, 2, 3]⟩ fun _ _ => .failed
    let settings : Settings := { mode := .html }
    settings.embedVectors = false ∧
      Scene.instructionsOf selection = ["Keep it short", "one row <!-- each -->"] ∧
      Scene.dropPrompts selection ≠ [] ∧
      ∃ conversion, (services.compile settings {} selection {}).1 = .ok (.converted conversion) ∧
        (∃ tokens, read? .html conversion.code.toList = some tokens ∧
          List.Forall₂ (IsInstruction .html) (commentsIn tokens)
            (Scene.instructionsOf selection)) ∧
        (∃ tokens, read? .html conversion.preview.content.toList = some tokens ∧
          commentsIn tokens = []) ∧
        ∃ conversion', (services.compile settings {} (Scene.dropPrompts selection) {}).1 =
            .ok (.converted conversion') ∧
          conversion'.preview.content = conversion.preview.content := by
  intro note advice photo rows aside banner card selection services settings
  have hinstructions :
      Scene.instructionsOf selection = ["Keep it short", "one row <!-- each -->"] := by
    decide +kernel
  have hremains : Scene.dropPrompts selection ≠ [] := by
    have hlength : (Scene.dropPrompts selection).length = 1 := by decide +kernel
    intro hnone
    rw [hnone] at hlength
    cases hlength
  have hcode : (codeOf (services.compile settings {} selection {}).1).isSome = true := by
    decide +kernel
  obtain ⟨conversion, hconversion⟩ := exists_of_codeOf hcode
  obtain ⟨hcomments, hpreview, hsame⟩ :=
    compile_instructions _ _ settings {} selection {} conversion rfl hconversion
  exact ⟨rfl, hinstructions, hremains, conversion, hconversion, hcomments, hpreview, hsame hremains⟩

end Services

end Artboard
