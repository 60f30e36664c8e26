import Artboard.Proofs.Conversion.Pruning

/-!
# Hidden layers leave no trace

Deleting all hidden layers from a selection, with whatever is inside them, changes nothing in its
normalization (`NormalizeContext.normalize_dropHidden`). Instructions stay although they are hidden,
and so does what is inside them, for it may be their text.

**Thinning** (`Scene.Thinned`). A layer is thinned if some hidden layers inside it are left out. It
is flattened exactly if it was before, for flattening looks at visible layers only, and its item is
the same at any address.

**Following** (`NormalizeContext.Follow`). The layers that remain are read in lockstep with those of
the whole selection: a hidden layer asks for nothing. Their results follow those of the whole
selection. They need not be equal, for a hidden layer may be at fault.
-/

namespace Artboard

open Pass Node

/-! ## Scenes -/

namespace Scene

mutual

/-- The layer without the hidden layers inside it. An instruction stays as it is. -/
def withoutHidden : Scene → Scene
  | .node l children =>
    .node l (if l.tag.value.isPrompt then children else dropHidden children)

/-- The layers that are visible or instructions, without the hidden layers inside them. -/
def dropHidden : List Scene → List Scene
  | [] => []
  | s :: rest =>
    if s.layer.visible || s.layer.tag.value.isPrompt then s.withoutHidden :: dropHidden rest
    else dropHidden rest

end

mutual

/-- The same layer, with some hidden layers inside it left out unless it is an instruction. -/
inductive Thinned : Scene → Scene → Prop
  | node {l : Layer} {children children' : List Scene}
      (hprompt : l.tag.value.isPrompt = true → children' = children)
      (hchildren : AllThinned children children') :
      Thinned (.node l children) (.node l children')

inductive AllThinned : List Scene → List Scene → Prop
  | nil : AllThinned [] []
  | hidden {s : Scene} {rest rest' : List Scene} (hkept : s.layer.isKept = false)
      (hrest : AllThinned rest rest') : AllThinned (s :: rest) rest'
  | keep {s s' : Scene} {rest rest' : List Scene} (hfirst : Thinned s s')
      (hrest : AllThinned rest rest') : AllThinned (s :: rest) (s' :: rest')

end

mutual

theorem thinned_refl (s : Scene) : Thinned s s := by
  match s with
  | .node l children => exact .node (fun _ => rfl) (allThinned_refl children)

theorem allThinned_refl (scenes : List Scene) : AllThinned scenes scenes := by
  match scenes with
  | [] => exact .nil
  | s :: rest => exact .keep (thinned_refl s) (allThinned_refl rest)

end

mutual

theorem thinned_withoutHidden (s : Scene) : Thinned s s.withoutHidden := by
  match s with
  | .node l children =>
    rw [withoutHidden]
    split_ifs with hprompt
    · exact .node (fun _ => rfl) (allThinned_refl children)
    · exact .node (fun h => absurd h hprompt) (allThinned_dropHidden children)

theorem allThinned_dropHidden (scenes : List Scene) : AllThinned scenes (dropHidden scenes) := by
  match scenes with
  | [] => exact .nil
  | s :: rest =>
    rw [dropHidden]
    split_ifs with hkept
    · exact .keep (thinned_withoutHidden s) (allThinned_dropHidden rest)
    · exact .hidden (Bool.eq_false_iff.2 hkept) (allThinned_dropHidden rest)

end

theorem Thinned.layer_eq {s s' : Scene} (h : Thinned s s') : s'.layer = s.layer := by
  cases h
  rfl

theorem AllThinned.anyVisible_eq {scenes scenes' : List Scene} (h : AllThinned scenes scenes') :
    anyVisible scenes' = anyVisible scenes := by
  induction scenes generalizing scenes' with
  | nil =>
    cases h
    rfl
  | cons s rest ih =>
    cases h with
    | hidden hkept hrest =>
      rw [Layer.isKept, Bool.or_eq_false_iff] at hkept
      rw [anyVisible, ih hrest, hkept.1, Bool.false_or]
    | keep hfirst hrest => rw [anyVisible, anyVisible, ih hrest, hfirst.layer_eq]

mutual

theorem Thinned.isFlattenable_eq (s : Scene) {s' : Scene} (h : Thinned s s') :
    s'.isFlattenable = s.isFlattenable := by
  match s with
  | .node l children =>
    cases h with
    | node _ hchildren =>
      rw [isFlattenable, isFlattenable, hchildren.anyVisible_eq,
        hchildren.allFlattenable_eq children]

theorem AllThinned.allFlattenable_eq (scenes : List Scene) {scenes' : List Scene}
    (h : AllThinned scenes scenes') : allFlattenable scenes' = allFlattenable scenes := by
  match scenes with
  | [] =>
    cases h
    rfl
  | s :: rest =>
    cases h with
    | hidden hkept hrest =>
      rw [Layer.isKept, Bool.or_eq_false_iff] at hkept
      rw [allFlattenable, hrest.allFlattenable_eq rest, hkept.1]
      rfl
    | keep hfirst hrest =>
      rw [allFlattenable, allFlattenable, hrest.allFlattenable_eq rest,
        hfirst.isFlattenable_eq s, hfirst.layer_eq]

end

end Scene

open Scene (Thinned AllThinned thinned_refl allThinned_refl)

/-! ## Results in a row -/

/-- Values in a row, with their warnings in a row. -/
def Warned.append {α : Type} (a b : Warned (List α)) : Warned (List α) :=
  ⟨a.value ++ b.value, a.warnings ++ b.warnings⟩

namespace NormalizeContext

theorem gather_append (results others : List Converted) :
    gather (results ++ others) = (do
      let a ← gather results
      let b ← gather others
      pure (a.append b)) := by
  induction results with
  | nil =>
    rw [List.nil_append]
    cases gather others <;> rfl
  | cons first rest ih =>
    rcases first with error | node?
    · rfl
    rw [List.cons_append, gather, gather, ih]
    cases gather rest with
    | error error => rfl
    | ok a =>
      cases gather others with
      | error error => cases node? <;> rfl
      | ok b =>
        cases node? with
        | none => rfl
        | some node =>
          show Except.ok (⟨_, node.warnings ++ (a.warnings ++ b.warnings)⟩ : Warned (List Node)) =
            .ok ⟨_, node.warnings ++ a.warnings ++ b.warnings⟩
          rw [List.append_assoc]
          rfl

theorem gather_append_eq_ok_iff {results others : List Converted} {all : Warned (List Node)} :
    gather (results ++ others) = .ok all ↔
      ∃ a b, gather results = .ok a ∧ gather others = .ok b ∧ a.append b = all := by
  rw [gather_append]
  constructor
  · intro h
    cases ha : gather results with
    | error error =>
      rw [ha] at h
      cases h
    | ok a =>
      cases hb : gather others with
      | error error =>
        rw [ha, hb] at h
        cases h
      | ok b =>
        rw [ha, hb] at h
        exact ⟨a, b, rfl, rfl, Except.ok.inj h⟩
  · rintro ⟨a, b, ha, hb, rfl⟩
    rw [ha, hb]
    rfl

/-! ## Results that follow others -/

/-- Where some results are nodes, so are others: the same ones at other addresses, with the same
warnings. -/
def Follow (results results' : List Converted) : Prop :=
  ∀ all, gather results = .ok all → ∃ all', gather results' = .ok all' ∧
    all'.warnings = all.warnings ∧ AlikeAll (fun _ _ => True) all.value all'.value

namespace Follow

variable {results results' others others' : List Converted} {error : NormalizeError}

theorem fault : Follow [.error error] results := fun _ => nofun

theorem nil : Follow [] [] := fun _ h => ⟨_, rfl, by cases h; rfl, by cases h; exact .nil⟩

theorem hidden : Follow [.ok none] [] :=
  fun _ h => ⟨_, rfl, by cases h; rfl, by cases h; exact .nil⟩

theorem append (h : Follow results results') (hothers : Follow others others') :
    Follow (results ++ others) (results' ++ others') := by
  intro all hall
  obtain ⟨a, b, ha, hb, rfl⟩ := gather_append_eq_ok_iff.1 hall
  obtain ⟨a', ha', hwarnings, halike⟩ := h a ha
  obtain ⟨b', hb', hwarnings', halike'⟩ := hothers b hb
  refine ⟨a'.append b', gather_append_eq_ok_iff.2 ⟨a', b', ha', hb', rfl⟩, ?_,
    halike.append halike'⟩
  rw [Warned.append, Warned.append, hwarnings, hwarnings']

/-- A node around the nodes of the layers inside it. -/
theorem around (h : Follow results results') (item : Item) (address' : Address)
    (warnings : List String) :
    Follow
      [(gather results).map fun inside =>
        some ⟨.node item inside.value, warnings ++ inside.warnings⟩]
      [(gather results').map fun inside =>
        some ⟨.node (item.readdressed address') inside.value, warnings ++ inside.warnings⟩] := by
  intro all hall
  cases hinside : gather results with
  | error error =>
    rw [hinside] at hall
    cases hall
  | ok inside =>
    rw [hinside] at hall
    cases hall
    obtain ⟨inside', hinside', hwarnings, halike⟩ := h inside hinside
    rw [hinside']
    exact ⟨_, rfl, by simp [hwarnings], .cons (.node True.intro halike) .nil⟩

/-- A node with nothing inside it. -/
theorem alone (item : Item) (address' : Address) (warnings : List String) :
    Follow [.ok (some ⟨.node item [], warnings⟩)]
      [.ok (some ⟨.node (item.readdressed address') [], warnings⟩)] := by
  rintro _ ⟨⟩
  exact ⟨_, rfl, rfl, .cons (.node True.intro .nil) .nil⟩

end Follow

/-! ## Thinned layers -/

variable {cx : NormalizeContext}

/-- The item of a thinned layer is the same, wherever it stands. -/
theorem item_of_thinned {l : Layer} {children children' : List Scene}
    (h : Thinned (.node l children) (.node l children')) (address address' : Address)
    (origin : Origin) :
    cx.item (.node l children') address' origin =
      ⟨(cx.item (.node l children) address origin).value.readdressed address',
        (cx.item (.node l children) address origin).warnings⟩ := by
  cases h with
  | node hprompt _ =>
    cases hown : l.tag.value.isPrompt with
    | true =>
      rw [hprompt hown]
      rfl
    | false =>
      rw [item_congr hown children' children]
      rfl

theorem flattened_of_thinned {s s' : Scene} (h : Thinned s s') (item : Item) (address' : Address) :
    cx.flattened s' (item.readdressed address') = cx.flattened s item := by
  simp only [flattened_eq, flattens, h.isFlattenable_eq s]
  rfl

theorem convert_of_hidden (cx : NormalizeContext) {s : Scene} (h : s.layer.isKept = false)
    (depth : Nat) (origin : Origin) (address : Address) :
    ∃ result, cx.convert depth origin address s = pure result ∧ Follow [result] [] := by
  obtain ⟨l, children⟩ := s
  rw [convert_node]
  cases fault? l depth origin with
  | some fault => exact ⟨_, rfl, .fault⟩
  | none =>
    dsimp only
    rw [if_pos (l.isKept_eq_false_iff.1 h)]
    exact ⟨_, rfl, .hidden⟩

variable {R : World → World → Prop}

mutual

/-- The induction is that of the tree, and the cases are those of `convert`. -/
theorem convert_follow (hartifact : ∀ id, Lockstep R Eq (cx.artifact id) (cx.artifact id))
    (depth : Nat) (origin : Origin) (address address' : Address) (s : Scene) {s' : Scene}
    (h : Thinned s s') :
    Lockstep R (fun result result' => Follow [result] [result'])
      (cx.convert depth origin address s) (cx.convert depth origin address' s') := by
  match s with
  | .node l children =>
    cases h with
    | @node _ _ children' hprompt hchildren =>
      have hthin : Thinned (.node l children) (.node l children') := .node hprompt hchildren
      rw [convert_node, convert_node, item_of_thinned hthin address address' origin]
      generalize cx.item (.node l children) address origin = own
      cases fault? l depth origin with
      | some fault => exact .pure .fault
      | none =>
        simp only [Item.tag_readdressed, Item.kind_readdressed, flattened_of_thinned hthin]
        split_ifs
        · exact .pure (Follow.hidden.append .nil)
        · exact .pure (.alone own.value address' own.warnings)
        have hflattened : Lockstep R Eq (cx.flattened (.node l children) own.value)
            (cx.flattened (.node l children) own.value) := by
          rw [flattened_eq]
          split_ifs
          · exact hartifact own.value.id
          · exact .pure rfl
        refine hflattened.bind fun vector _ hvector => ?_
        subst hvector
        cases vector with
        | some vector =>
          exact .pure (.alone { own.value with artifact := some vector } address' own.warnings)
        | none =>
          refine (convertAll_follow hartifact (depth + 1) (originInside l own.value.kind) address
            address' 0 0 children hchildren).bind fun inside inside' hinside => ?_
          exact .pure (hinside.around own.value address' own.warnings)

theorem convertAll_follow (hartifact : ∀ id, Lockstep R Eq (cx.artifact id) (cx.artifact id))
    (depth : Nat) (origin : Origin) (parent parent' : Address) (position position' : Nat)
    (scenes : List Scene) {scenes' : List Scene} (h : AllThinned scenes scenes') :
    Lockstep R Follow (cx.convertAll depth origin parent position scenes)
      (cx.convertAll depth origin parent' position' scenes') := by
  match scenes with
  | [] =>
    cases h
    rw [convertAll_nil, convertAll_nil]
    exact .pure .nil
  | s :: rest =>
    rw [convertAll_cons]
    cases h with
    | hidden hkept hrest =>
      obtain ⟨result, hconvert, hfollow⟩ :=
        cx.convert_of_hidden hkept depth origin (parent ++ [position])
      rw [hconvert, pure_bind, ← bind_pure (cx.convertAll depth origin parent' position' scenes')]
      refine (convertAll_follow hartifact depth origin parent parent' _ _ rest hrest).bind
        fun _ _ hresults => .pure ?_
      exact hfollow.append hresults
    | keep hfirst hrest =>
      rw [convertAll_cons]
      refine (convert_follow hartifact depth origin _ _ s hfirst).bind fun _ _ hresult => ?_
      refine (convertAll_follow hartifact depth origin parent parent' _ _ rest hrest).bind
        fun _ _ hresults => .pure ?_
      exact hresult.append hresults

end

/-! ## Selections -/

/-- Normalization reads all layers before it looks at what came of them. -/
theorem runIn_normalize_eq_ok_iff {selection : Selection} {w w' : World}
    {result : Except NormalizeError (Warned (List Node))} :
    (cx.normalize selection).runIn w = (.ok result, w') ↔
      ∃ results, (cx.convertAll 0 {} [] 0 selection).runIn w = (.ok results, w') ∧
        gather results = result := by
  rw [normalize_eq, runIn_bind]
  rcases (cx.convertAll 0 {} [] 0 selection).runIn w with ⟨_ | results, v⟩ <;>
    simp [and_comm]

/-- **Hidden layers leave no trace.** Let a selection be normalized to some nodes, whatever the
settings, the design tool and the source of assets are. Without its hidden layers it is normalized
to the same nodes, at addresses that correspond one to one, with the same warnings in the same
order. The world afterwards is the same, with every export and every upload that was asked for. -/
theorem normalize_dropHidden (cx : NormalizeContext) (selection : Selection) (w w' : World)
    (nodes : Warned (List Node))
    (h : (cx.normalize selection).runIn w = (.ok (.ok nodes), w')) :
    ∃ nodes', (cx.normalize (Scene.dropHidden selection)).runIn w = (.ok (.ok nodes'), w') ∧
      nodes'.warnings = nodes.warnings ∧
      ∃ ρ, Relator.BiUnique ρ ∧ AlikeAll ρ nodes.value nodes'.value := by
  obtain ⟨results, hresults, hgather⟩ := runIn_normalize_eq_ok_iff.1 h
  have hartifact (id : String) : Lockstep Eq Eq (cx.artifact id) (cx.artifact id) := .refl _
  obtain ⟨hmatching, hworld⟩ :=
    convertAll_follow hartifact 0 {} [] [] 0 0 selection
      (Scene.allThinned_dropHidden selection) w w rfl
  rcases hresults' : (cx.convertAll 0 {} [] 0 (Scene.dropHidden selection)).runIn w with
    ⟨value', v⟩
  rw [hresults, hresults'] at hmatching hworld
  obtain rfl : w' = v := hworld
  cases hmatching with
  | @value _ results' hfollow =>
    obtain ⟨nodes', hgather', hwarnings, halike⟩ := hfollow nodes hgather
    have h' : (cx.normalize (Scene.dropHidden selection)).runIn w = (.ok (.ok nodes'), w') :=
      runIn_normalize_eq_ok_iff.2 ⟨results', hresults', hgather'⟩
    have hnodes := cx.normalize_become selection w _ (congrArg Prod.fst h) nodes rfl
    have hnodes' := cx.normalize_become _ w _ (congrArg Prod.fst h') nodes' rfl
    exact ⟨nodes', h', hwarnings, halike.exists_biUnique (hnodes.nodup_addresses selection)
      (hnodes'.nodup_addresses (Scene.dropHidden selection))⟩

/-- A card with an icon, of which one path is hidden, a note that is hidden like its text, and a
title. A hidden frame beside the card has a tag that is not known. -/
theorem normalize_dropHidden_card :
    let path : Scene := .node { id := "path", type := "VECTOR", visible := false } []
    let icon : Scene := .node { id := "icon", name := "#icon", type := "GROUP" }
      [path, .ofType "outline" "STAR"]
    let advice : Scene := .node
      { id := "advice", type := "TEXT", visible := false, characters := "Keep it short" } []
    let note : Scene := .node { id := "note", name := "#prompt", visible := false } [advice]
    let card : Scene := .node { id := "card", name := "Card", type := "FRAME" }
      [path, icon, note, .ofType "title" "TEXT"]
    let old : Scene := .node { id := "old", name := "#old", type := "FRAME", visible := false }
      [icon]
    let host : Host := ⟨fun _ => none, fun _ _ => .done "<svg/>".toUTF8.toList⟩
    let uploader : Uploader := fun _ request => .done request.key
    let settings : Settings := { embedVectors := true, uploads := { enabled := true } }
    let cx : NormalizeContext := ⟨settings, host, Pass.address uploader⟩
    ∃ nodes w', (cx.normalize [old, card]).runIn {} = (.ok (.ok nodes), w') ∧
      (Node.itemsOfAll nodes.value).map (·.tag) = [.none, .none, .prompt "Keep it short", .none] ∧
      ∃ nodes', (cx.normalize (Scene.dropHidden [old, card])).runIn {} = (.ok (.ok nodes'), w') ∧
        nodes'.warnings = nodes.warnings ∧
        ∃ ρ, Relator.BiUnique ρ ∧ AlikeAll ρ nodes.value nodes'.value := by
  intro path icon advice note card old host uploader settings cx
  have htags : (((cx.normalize [old, card]).runIn {}).1.toOption.bind (·.toOption)).map
      (fun nodes => (Node.itemsOfAll nodes.value).map (·.tag)) =
        some [.none, .none, .prompt "Keep it short", .none] := by decide +kernel
  rcases hrun : (cx.normalize [old, card]).runIn {} with ⟨_ | _ | nodes, w'⟩
  · rw [hrun] at htags
    cases htags
  · rw [hrun] at htags
    cases htags
  · rw [hrun] at htags
    exact ⟨nodes, w', rfl, Option.some.inj htags,
      normalize_dropHidden cx [old, card] {} w' nodes hrun⟩

end NormalizeContext

end Artboard
