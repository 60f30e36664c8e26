import Artboard.Proofs.Conversion.Hidden
import Artboard.Proofs.Conversion.Reports
import Artboard.Proofs.Conversion.Stateless
import Artboard.Proofs.Markup.Surroundings

/-!
# Selections one after the other

If two selections can be converted, so can both together, and the conversion is put together from
theirs (`Services.compile_append`), as long as the services have no memory of their own.

**Normalization** reads the roots of the second selection at positions behind those of the first;
its nodes are alike (`NormalizeContext.normalize_append`).

**Drawing.** Nodes alike are drawn alike in honest worlds, so the two drawings are one behind the
other (`EmitContext.emitAll_append_honest`), and so are their texts.
-/

namespace Artboard

open Pass Node Text

/-! ## Normalization -/

namespace NormalizeContext

theorem convertAll_append (cx : NormalizeContext) (depth : Nat) (origin : Origin)
    (parent : Address) (position : Nat) (scenes others : List Scene) :
    cx.convertAll depth origin parent position (scenes ++ others) = (do
      let results ← cx.convertAll depth origin parent position scenes
      let results' ← cx.convertAll depth origin parent (position + scenes.length) others
      pure (results ++ results')) := by
  induction scenes generalizing position with
  | nil =>
    rw [List.nil_append, convertAll_nil, pure_bind]
    exact (bind_pure _).symm
  | cons s rest ih =>
    have hlength : position + (s :: rest).length = position + 1 + rest.length := by
      rw [List.length_cons]
      omega
    simp only [List.cons_append, convertAll_cons, ih, hlength, bind_assoc, pure_bind]

section Stateless

variable {settings : Settings} {names : String → Option String}
  {provide : ExportRequest → Reply Bytes} {answer : String → Option String}

/-- Two worlds in which no bitmap was asked for. -/
def BothBlank (w w' : World) : Prop := w.bitmaps = [] ∧ w'.bitmaps = []

theorem artifact_lockstep (settings : Settings) (names : String → Option String)
    (provide : ExportRequest → Reply Bytes) (answer : String → Option String) (id : String) :
    Lockstep BothBlank Eq (artifact ⟨settings, .ofRequests names provide, .direct answer⟩ id)
      (artifact ⟨settings, .ofRequests names provide, .direct answer⟩ id) := by
  rw [artifact_eq]
  have hask : Lockstep BothBlank Eq (ask (.ofRequests names provide) ⟨id, .svg⟩)
      (ask (.ofRequests names provide) ⟨id, .svg⟩) := by
    intro w w' hw
    rw [runIn_ask, runIn_ask]
    refine ⟨?_, hw⟩
    simp only [Host.ofRequests]
    cases provide ⟨id, .svg⟩ with
    | done bytes => exact .value rfl
    | failed => exact .value rfl
    | panicked message => exact .panic _
  refine hask.bind fun bytes _ hbytes => ?_
  subst hbytes
  cases bytes with
  | none => exact .pure rfl
  | some bytes =>
    show Lockstep BothBlank Eq (if _ then _ else _) (if _ then _ else _)
    split_ifs
    · refine Lockstep.bind (V := Eq) (.pure rfl) fun url _ hurl => ?_
      subst hurl
      cases url <;> exact .pure rfl
    · exact .pure rfl

variable {A B : Selection} {a b : Warned (List Node)} {w v w' v' u : World}

/-- **The nodes of two selections in a row are alike to the nodes of each.** -/
theorem normalize_append
    (hA : (normalize ⟨settings, .ofRequests names provide, .direct answer⟩ A).runIn w =
      (.ok (.ok a), v)) (hw : w.bitmaps = [])
    (hB : (normalize ⟨settings, .ofRequests names provide, .direct answer⟩ B).runIn w' =
      (.ok (.ok b), v')) (hw' : w'.bitmaps = []) (hu : u.bitmaps = []) :
    ∃ a' b' u', (normalize ⟨settings, .ofRequests names provide, .direct answer⟩ (A ++ B)).runIn u =
        (.ok (.ok ⟨a' ++ b', a.warnings ++ b.warnings⟩), u') ∧
      AlikeAll (fun _ _ => True) a.value a' ∧ AlikeAll (fun _ _ => True) b.value b' ∧
      v.bitmaps = [] ∧ v'.bitmaps = [] ∧ u'.bitmaps = [] := by
  obtain ⟨results, hresults, hgather⟩ := runIn_normalize_eq_ok_iff.1 hA
  obtain ⟨others, hothers, hgathers⟩ := runIn_normalize_eq_ok_iff.1 hB
  have hfollow (position : Nat) (selection : Selection) :=
    lockstep_iff_inStep.1 <| convertAll_follow (artifact_lockstep settings names provide answer)
      0 {} [] [] 0 position selection (Scene.allThinned_refl selection)
  obtain ⟨results', u₁, hrun, hfollows, hv, hu₁⟩ := (hfollow 0 A).exists_value ⟨hw, hu⟩ hresults
  obtain ⟨others', u₂, hruns, hfollows', hv', hu₂⟩ :=
    (hfollow (0 + A.length) B).exists_value ⟨hw', hu₁⟩ hothers
  obtain ⟨a', hgather', hwarnings, halike⟩ := hfollows a hgather
  obtain ⟨b', hgathers', hwarnings', halike'⟩ := hfollows' b hgathers
  refine ⟨a'.value, b'.value, u₂, runIn_normalize_eq_ok_iff.2 ⟨results' ++ others', ?_, ?_⟩,
    halike, halike', hv, hv', hu₂⟩
  · rw [convertAll_append, runIn_bind, hrun]
    dsimp only
    rw [runIn_bind, hruns]
    rfl
  · exact gather_append_eq_ok_iff.2 ⟨a', b', hgather', hgathers', by
      rw [Warned.append, hwarnings, hwarnings']⟩

end Stateless

end NormalizeContext

/-! ## Drawing -/

theorem EmitContext.write_append (cx : EmitContext) (markup others : List (Markup Style)) :
    cx.write (markup ++ others) = joinLines (cx.write markup) (cx.write others) := by
  rw [write, Markup.mapAll_append, Markup.document_append]
  rfl

section Drawing

variable {settings : Settings} {names : String → Option String}
  {provide : ExportRequest → Reply Bytes} {answer : String → Option String}

/-- What is drawn for two lists of nodes, each in an honest world of its own, is drawn for nodes
alike in a row. -/
theorem EmitContext.emitAll_append_honest {images : ImageMode} {parent : ParentContext}
    {a b a' b' : List Node} {items others all : List Item} {f g : Fragment} {w v w' v' u : World}
    (ha : AlikeAll (fun _ _ => True) a a') (hb : AlikeAll (fun _ _ => True) b b')
    (hitems : ∀ item ∈ itemsOfAll a, item ∈ items) (hothers : ∀ item ∈ itemsOfAll b, item ∈ others)
    (hall : ∀ item ∈ itemsOfAll (a' ++ b'), item ∈ all)
    (hw : w.Honest provide items) (hw' : w'.Honest provide others) (hu : u.Honest provide all)
    (hf : (emitAll ⟨settings, .ofRequests names provide, .direct answer, images⟩ parent a).runIn w =
      (.ok f, v))
    (hg : (emitAll ⟨settings, .ofRequests names provide, .direct answer, images⟩ parent b).runIn
      w' = (.ok g, v')) :
    ∃ h u', (emitAll ⟨settings, .ofRequests names provide, .direct answer, images⟩ parent
        (a' ++ b')).runIn u = (.ok h, u') ∧
      (f.append g).SameBut (fun _ _ => True) h ∧
      v.Honest provide items ∧ v'.Honest provide others ∧ u'.Honest provide all := by
  rw [NormalizeContext.itemsOfAll_append] at hall
  have hfirst := emitAll_honest settings names provide answer images parent ha hitems
    fun item hitem => hall item (List.mem_append_left _ hitem)
  have hsecond := emitAll_honest settings names provide answer images parent hb hothers
    fun item hitem => hall item (List.mem_append_right _ hitem)
  obtain ⟨f', u₁, hf', hsame, hv, hu₁⟩ := hfirst.exists_value ⟨hw, hu⟩ hf
  obtain ⟨g', u₂, hg', hsame', hv', hu₂⟩ := hsecond.exists_value ⟨hw', hu₁⟩ hg
  refine ⟨f'.append g', u₂, ?_, hsame.append hsame', hv, hv', hu₂⟩
  rw [emitAll_append, runIn_bind_eq_ok_iff]
  refine ⟨f', u₁, hf', ?_⟩
  rw [runIn_bind_eq_ok_iff]
  exact ⟨g', u₂, hg', rfl⟩

end Drawing

namespace Services

variable (services : Services) (settings : Settings) (options : ConversionOptions)

/-- What a conversion is made of: its nodes, what is drawn for them, and what is drawn for the nodes
without instructions. The size of the preview does not depend on what is drawn. -/
def assemble (nodes : Warned (List Node)) (width height : Float) (code preview : Fragment) :
    Conversion where
  code := (services.emitting settings options).write code.markup
  preview := ⟨width, height,
    (Preview.context settings services.host services.assets).write preview.markup⟩
  warnings := dedup (nodes.warnings ++ code.warnings)
  colors := colorReport settings nodes.value
  textStyles := code.textStyles
  trigger := options.trigger

theorem exists_draw_eq (nodes : Warned (List Node)) :
    ∃ width height, services.draw settings options nodes = (do
      let code ← (services.emitting settings options).emitRoots nodes.value
      let preview ← (Preview.context settings services.host services.assets).emitRoots
        (dropPrompts nodes.value)
      pure (services.assemble settings options nodes width height code preview)) := by
  cases hbounds : Preview.bounds nodes.value with
  | some box =>
    refine ⟨box.width, box.height, ?_⟩
    simp only [draw_eq, Preview.ofNodes_eq, hbounds, bind_assoc, pure_bind]
    rfl
  | none =>
    refine ⟨0, 0, ?_⟩
    simp only [draw_eq, Preview.ofNodes_eq, hbounds, bind_assoc, pure_bind]
    rfl

/-- A conversion is what is drawn for the nodes of its selection. -/
theorem runIn_run_eq_ok_iff {selection : Selection} {conversion : Conversion} {w v : World} :
    (services.run settings options selection).runIn w = (.ok (.ok conversion), v) ↔
      ∃ nodes u, ((services.normalizing settings).normalize selection).runIn w =
          (.ok (.ok nodes), u) ∧
        (services.draw settings options nodes).runIn u = (.ok conversion, v) := by
  rw [run_eq, runIn_bind_eq_ok_iff]
  constructor
  · rintro ⟨error | nodes, u, hnodes, hdraw⟩
    · cases hdraw
    · obtain ⟨conversion', u', hdraw, hpure⟩ := runIn_bind_eq_ok_iff.1 hdraw
      cases hpure
      exact ⟨nodes, u, hnodes, hdraw⟩
  · rintro ⟨nodes, u, hnodes, hdraw⟩
    exact ⟨.ok nodes, u, hnodes, runIn_bind_eq_ok_iff.2 ⟨conversion, v, hdraw, rfl⟩⟩

end Services

/-! ## Conversions -/

/-- A conversion that is put together from two others. -/
structure Conversion.Joins (c a b : Conversion) : Prop where
  code : c.code = joinLines a.code b.code
  preview : c.preview.content = joinLines a.preview.content b.preview.content
  textStyles : c.textStyles = a.textStyles ++ b.textStyles
  nodup_warnings : c.warnings.Nodup
  mem_warnings : ∀ m, m ∈ c.warnings ↔ m ∈ a.warnings ∨ m ∈ b.warnings
  mem_tokens : ∀ token, token ∈ c.colors.map (·.token) ↔
    token ∈ a.colors.map (·.token) ∨ token ∈ b.colors.map (·.token)

namespace Services

section Stateless

variable {settings : Settings} {options : ConversionOptions} {names : String → Option String}
  {provide : ExportRequest → Reply Bytes} {answer : String → Option String}

theorem joins_assemble (services : Services) {a b : Warned (List Node)} {a' b' : List Node}
    (halike : AlikeAll (fun _ _ => True) a.value a')
    (halike' : AlikeAll (fun _ _ => True) b.value b')
    {width height width' height' width'' height'' : Float}
    {code code' code'' preview preview' preview'' : Fragment}
    (hcode : (code.append code').SameBut (fun _ _ => True) code'')
    (hpreview : (preview.append preview').SameBut (fun _ _ => True) preview'') :
    (services.assemble settings options ⟨a' ++ b', a.warnings ++ b.warnings⟩ width'' height'' code''
        preview'').Joins
      (services.assemble settings options a width height code preview)
      (services.assemble settings options b width' height' code' preview') where
  code := (EmitContext.write_of_sameBut _ hcode.markup).trans (EmitContext.write_append ..)
  preview := (EmitContext.write_of_sameBut _ hpreview.markup).trans (EmitContext.write_append ..)
  textStyles := hcode.textStyles
  nodup_warnings := nodup_dedup _
  mem_warnings m := by
    have hwarnings : code''.warnings = code.warnings ++ code'.warnings := hcode.warnings
    simp only [assemble, mem_dedup, hwarnings, List.mem_append]
    tauto
  mem_tokens token := by
    have hcolors {nodes nodes' : List Node} (h : AlikeAll (fun _ _ => True) nodes nodes') :
        (itemsOfAll nodes').flatMap Item.colors = (itemsOfAll nodes).flatMap Item.colors := by
      rw [List.flatMap_def, List.flatMap_def, h.map_itemsOfAll fun _ _ => rfl]
    simp only [assemble, mem_tokens_colorReport, NormalizeContext.itemsOfAll_append,
      List.flatMap_append, List.map_append, List.mem_append, hcolors halike, hcolors halike']

/-- The drawings of two lists of nodes are put together to that of nodes alike in a row. -/
theorem draw_append {a b : Warned (List Node)} {a' b' : List Node} {c d : Conversion}
    {w v w' v' u : World} (halike : AlikeAll (fun _ _ => True) a.value a')
    (halike' : AlikeAll (fun _ _ => True) b.value b')
    (hw : w.Honest provide (itemsOfAll a.value)) (hw' : w'.Honest provide (itemsOfAll b.value))
    (hu : u.Honest provide (itemsOfAll (a' ++ b')))
    (ha : (draw ⟨.ofRequests names provide, .direct answer⟩ settings options a).runIn w =
      (.ok c, v))
    (hb : (draw ⟨.ofRequests names provide, .direct answer⟩ settings options b).runIn w' =
      (.ok d, v')) :
    ∃ e u', (draw ⟨.ofRequests names provide, .direct answer⟩ settings options
        ⟨a' ++ b', a.warnings ++ b.warnings⟩).runIn u = (.ok e, u') ∧ e.Joins c d := by
  let services : Services := ⟨.ofRequests names provide, .direct answer⟩
  obtain ⟨width, height, hdraw⟩ := services.exists_draw_eq settings options a
  obtain ⟨width', height', hdraw'⟩ := services.exists_draw_eq settings options b
  obtain ⟨width'', height'', hdraw''⟩ :=
    services.exists_draw_eq settings options ⟨a' ++ b', a.warnings ++ b.warnings⟩
  rw [hdraw] at ha
  rw [hdraw'] at hb
  rw [hdraw'']
  simp only [runIn_bind_eq_ok_iff] at ha hb ⊢
  obtain ⟨code, w₁, hcode, preview, w₂, hpreview, hc⟩ := ha
  obtain ⟨code', w₁', hcode', preview', w₂', hpreview', hd⟩ := hb
  cases hc
  cases hd
  have hkept (nodes : List Node) (item : Item) (hitem : item ∈ itemsOfAll (dropPrompts nodes)) :
      item ∈ itemsOfAll nodes :=
    (itemsOfAll_dropPrompts_sublist nodes).subset hitem
  -- The preview is drawn in the worlds that the code leaves.
  obtain ⟨code'', u₁, hcode'', hcodes, hw₁, hw₁', hu₁⟩ :=
    EmitContext.emitAll_append_honest halike halike' (fun _ hitem => hitem) (fun _ hitem => hitem)
      (fun _ hitem => hitem) hw hw' hu hcode hcode'
  obtain ⟨preview'', u₂, hpreview'', hpreviews, -⟩ :=
    EmitContext.emitAll_append_honest (halike.dropPrompts_alike _) (halike'.dropPrompts_alike _)
      (hkept _) (hkept _) (dropPrompts_append a' b' ▸ hkept (a' ++ b')) hw₁ hw₁' hu₁ hpreview
      hpreview'
  rw [← dropPrompts_append] at hpreview''
  exact ⟨_, u₂, ⟨code'', u₁, hcode'', preview'', u₂, hpreview'', rfl⟩,
    services.joins_assemble halike halike' hcodes hpreviews⟩

/-- Runs for two selections are put together to a run for both. -/
theorem run_append {A B : Selection} {a b : Conversion} {w v w' v' u : World}
    (ha : (run ⟨.ofRequests names provide, .direct answer⟩ settings options A).runIn w =
      (.ok (.ok a), v)) (hw : w.bitmaps = [])
    (hb : (run ⟨.ofRequests names provide, .direct answer⟩ settings options B).runIn w' =
      (.ok (.ok b), v')) (hw' : w'.bitmaps = []) (hu : u.bitmaps = []) :
    ∃ c u', (run ⟨.ofRequests names provide, .direct answer⟩ settings options (A ++ B)).runIn u =
      (.ok (.ok c), u') ∧ c.Joins a b := by
  let cx : NormalizeContext := ⟨settings, .ofRequests names provide, .direct answer⟩
  obtain ⟨nodes, w₁, hnodes, hdraw⟩ := (runIn_run_eq_ok_iff ..).1 ha
  obtain ⟨nodes', w₁', hnodes', hdraw'⟩ := (runIn_run_eq_ok_iff ..).1 hb
  obtain ⟨a', b', u₁, hall, halike, halike', hw₁, hw₁', hu₁⟩ :=
    NormalizeContext.normalize_append hnodes hw hnodes' hw' hu
  have hnodup {selection : Selection} {nodes : Warned (List Node)} {w v : World}
      (h : (cx.normalize selection).runIn w = (.ok (.ok nodes), v)) :
      (addressesOfAll nodes.value).Nodup :=
    (cx.normalize_become selection w _ (congrArg Prod.fst h) nodes rfl).nodup_addresses selection
  obtain ⟨c, u₂, hdrawn, hjoins⟩ :=
    draw_append halike halike' (.init (hnodup hnodes) hw₁) (.init (hnodup hnodes') hw₁')
      (.init (hnodup hall) hu₁) hdraw hdraw'
  exact ⟨c, u₂, (runIn_run_eq_ok_iff ..).2 ⟨_, u₁, hall, hdrawn⟩, hjoins⟩

end Stateless

/-- **Conversions are compositional in the roots.** Let the uploader's answer depend on the content
alone, and the design tool's answers on the request alone. Let two selections both be converted, in
worlds in which nothing is cached but answers of the uploader. Then both selections in a row are
converted in every such world. The code is the code of the first and the code of the second below
it, and so is the content of the preview. The text styles are those of the first and then those of
the second, the warnings are those of both without repetitions, and the tokens of the colours are
those of both. -/
theorem compile_append (names : String → Option String) (provide : ExportRequest → Reply Bytes)
    (answer : String → Option String) (settings : Settings) (options : ConversionOptions)
    (A B : Selection) (a b : Conversion) (w w' u : World) (hw : w.Faithful answer)
    (hw' : w'.Faithful answer) (hu : u.Faithful answer)
    (ha : ((uploading (.ofRequests names provide) (.ofContents answer)).compile settings options A
      w).1 = .ok (.converted a))
    (hb : ((uploading (.ofRequests names provide) (.ofContents answer)).compile settings options B
      w').1 = .ok (.converted b)) :
    ∃ c, ((uploading (.ofRequests names provide) (.ofContents answer)).compile settings options
        (A ++ B) u).1 = .ok (.converted c) ∧ c.Joins a b := by
  let direct : Services := ⟨.ofRequests names provide, .direct answer⟩
  have hdirect (selection : Selection) {w : World} (hw : w.Faithful answer) :
      ((uploading (.ofRequests names provide) (.ofContents answer)).compile settings options
        selection w).1 = (direct.compile settings options selection {}).1 :=
    ((compatible_direct names provide answer).compile settings options selection
      (Transparent.forget hw {})).1
  rw [hdirect A hw] at ha
  rw [hdirect B hw'] at hb
  have hrun {selection : Selection} {c : Conversion}
      (h : (direct.compile settings options selection {}).1 = .ok (.converted c)) :
      ∃ v, (direct.run settings options selection).runIn {} = (.ok (.ok c), v) :=
    ⟨_, Prod.ext (runIn_run_of_compile h) rfl⟩
  obtain ⟨v, hA⟩ := hrun ha
  obtain ⟨v', hB⟩ := hrun hb
  obtain ⟨c, u', hc, hjoins⟩ := run_append hA rfl hB rfl (u := {}) rfl
  have hselection : A ++ B ≠ [] := by
    intro hnil
    rw [(List.append_eq_nil_iff.1 hnil).1] at ha
    cases ha
  refine ⟨c, ?_, hjoins⟩
  rw [hdirect (A ++ B) hu]
  exact compile_of_runIn_run hselection (congrArg Prod.fst hc)

/-- A card with a photo that is uploaded, and two stars below it, of which no vector can be had. -/
theorem compile_append_card_and_stars :
    let photo : Scene := .node
      { id := "1", name := "Photo", type := "RECTANGLE", width := 40, height := 40,
        fills := [.image {}] } []
    let card : Scene := .node
      { id := "0", name := "Card", type := "FRAME", width := 100, height := 50 } [photo]
    let star (id : String) : Scene := .node
      { id, name := "Star", type := "STAR", width := 8, height := 8,
        fills := [.solid { color := ⟨1, 0, 0, 1⟩ }] } []
    let provide (request : ExportRequest) : Reply Bytes :=
      if request.format = .svg then .failed else .done [1, 2, 3]
    let host := Host.ofRequests (fun _ => none) provide
    let uploader := Uploader.ofContents fun key => some ("https://assets.test/" ++ key)
    let settings : Settings := { embedVectors := true, uploads := { enabled := true } }
    let compile (selection : Selection) :=
      ((uploading host uploader).compile settings {} selection {}).1
    ∃ a b, compile [card] = .ok (.converted a) ∧ compile [star "2", star "3"] = .ok (.converted b) ∧
      ∃ c, compile [card, star "2", star "3"] = .ok (.converted c) ∧ c.Joins a b := by
  intro photo card star provide host uploader settings compile
  have hcard : (codeOf (compile [card])).isSome = true := by decide +kernel
  have hstars : (codeOf (compile [star "2", star "3"])).isSome = true := by decide +kernel
  obtain ⟨a, ha⟩ := exists_of_codeOf hcard
  obtain ⟨b, hb⟩ := exists_of_codeOf hstars
  exact ⟨a, b, ha, hb, compile_append _ provide _ settings {} [card] [star "2", star "3"] a b
    {} {} {} World.faithful_init World.faithful_init World.faithful_init ha hb⟩

end Services

end Artboard
