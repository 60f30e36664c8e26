import Artboard.Proofs.Conversion.Lockstep
import Artboard.Proofs.Conversion.Results
import Mathlib.Tactic

/-!
# The first fault in document order

A layer of a selection is **visited** if it is a root, or if it stands in a visited layer that is
visible, neither ignored nor an instruction, neither a text nor a line nor unsupported, and did not
get a vector. Which layers get one depends on the exports, so the visited layers are listed by a
walk that asks for the same vectors as normalization (`NormalizeContext.visitAll`).

**Theorem (`normalize_first_fault`).** Normalization goes in lockstep with the walk. It succeeds iff
all visited layers are proper; otherwise its error is that of the first one in document order that
is not. The nodes of a success have the ids of the visited layers that are kept, in the same order.

**Invariant** (`Accounts`). What came of some scenes is accounted for by the layers visited in them.
It holds of siblings if it holds of each of them, although all siblings are read before the first
fault among them is reported.
-/

namespace Artboard

/-- Whether the layers inside a layer are visited, unless it gets a vector. -/
def Layer.opens (l : Layer) : Bool :=
  l.visible && !l.tag.value.isSuppressed && !(NodeKind.ofType l.type).isLeaf

namespace Layer

variable {l : Layer}

/-- A layer that leaves no node is not looked into. -/
theorem opens_of_not_isKept (h : l.isKept = false) : l.opens = false := by
  rw [isKept, Bool.or_eq_false_iff] at h
  rw [opens, h.1, Bool.false_and, Bool.false_and]

/-- A hidden layer that leaves a node is an instruction. -/
theorem opens_of_isKept (h : l.isKept = true) :
    l.opens = !(l.tag.value.isSuppressed || (NodeKind.ofType l.type).isLeaf) := by
  rw [opens, Bool.not_or]
  cases hvisible : l.visible with
  | true => rw [Bool.true_and]
  | false =>
    rw [isKept, hvisible, Bool.false_or] at h
    simp [LayerTag.isSuppressed_of_isPrompt h]

end Layer

/-! ## Visited layers -/

/-- A visited layer: how deep it is nested, and the corner that its position is measured from. -/
structure Visit where
  layer : Layer
  depth : Nat
  origin : Origin

namespace Visit

def isFinite (v : Visit) : Bool :=
  (v.layer.x - v.origin.x).isFinite && (v.layer.y - v.origin.y).isFinite &&
    v.layer.width.isFinite && v.layer.height.isFinite && v.layer.rotation.isFinite &&
    v.layer.opacity.isFinite

structure IsProper (v : Visit) : Prop where
  depth : v.depth ≤ maxDepth
  finite : v.isFinite = true

/-- What is wrong with a layer. Nesting comes before geometry. -/
inductive Offends : Visit → NormalizeError → Prop
  | tooDeep {v : Visit} (h : maxDepth < v.depth) : Offends v (.tooDeep v.layer.id)
  | invalidGeometry {v : Visit} (hdepth : v.depth ≤ maxDepth) (h : v.isFinite = false) :
      Offends v (.invalidGeometry v.layer.id)

def fault? (v : Visit) : Option NormalizeError :=
  NormalizeContext.fault? v.layer v.depth v.origin

theorem isFinite_eq_false_iff (v : Visit) : v.isFinite = false ↔
    (!(v.layer.geometry v.origin).isFinite || !v.layer.opacity.isFinite) = true := by
  rw [← Bool.not_and, Bool.not_eq_true']
  rfl

theorem fault?_eq (v : Visit) : v.fault? =
    if maxDepth < v.depth then some (.tooDeep v.layer.id)
    else if v.isFinite = false then some (.invalidGeometry v.layer.id) else none := by
  simp only [fault?, NormalizeContext.fault?, isFinite_eq_false_iff]

theorem fault?_eq_none_iff {v : Visit} : v.fault? = none ↔ v.IsProper := by
  rw [fault?_eq]
  split_ifs with hdepth hfinite
  · exact iff_of_false nofun fun h => absurd h.depth (by omega)
  · exact iff_of_false nofun fun h => by simp [h.finite] at hfinite
  · exact iff_of_true rfl ⟨by omega, by simpa using hfinite⟩

theorem fault?_eq_some_iff {v : Visit} {error : NormalizeError} :
    v.fault? = some error ↔ v.Offends error := by
  rw [fault?_eq]
  constructor
  · intro h
    split_ifs at h with hdepth hfinite
    · obtain rfl := Option.some.inj h
      exact .tooDeep hdepth
    · obtain rfl := Option.some.inj h
      exact .invalidGeometry (by omega) hfinite
  · rintro (hdepth | ⟨hdepth, hfinite⟩)
    · rw [if_pos hdepth]
    · rw [if_neg (by omega), if_pos hfinite]

end Visit

/-! ## The walk -/

namespace Scene

open NormalizeContext (originInside)

mutual

/-- The layers visited in a tree in which no layer gets a vector, each before those inside it. -/
def visits (depth : Nat) (origin : Origin) : Scene → List Visit
  | .node l children =>
    ⟨l, depth, origin⟩ ::
      if l.opens then
        visitsOf (depth + 1) (originInside l (NodeKind.ofType l.type)) children
      else []

def visitsOf (depth : Nat) (origin : Origin) : List Scene → List Visit
  | [] => []
  | s :: rest => s.visits depth origin ++ visitsOf depth origin rest

end

end Scene

namespace NormalizeContext

open Pass

variable (cx : NormalizeContext)

mutual

/-- The layers visited in a tree, each before those inside it. A layer that is not proper is not
asked for its vector, nor are those inside it. -/
def visit (depth : Nat) (origin : Origin) (address : Address) (s : Scene) : Pass (List Visit) :=
  match s with
  | .node l children =>
    let here : Visit := ⟨l, depth, origin⟩
    if here.fault?.isSome then pure ((Scene.node l children).visits depth origin)
    else if !l.opens then pure [here]
    else do
      match ← cx.flattened (.node l children) (cx.item (.node l children) address origin).value with
      | some _ => pure [here]
      | none =>
        let inside ←
          visitAll (depth + 1) (originInside l (NodeKind.ofType l.type)) address 0 children
        pure (here :: inside)

/-- The layers visited in siblings, the first of which stands at `position` in its list. -/
def visitAll (depth : Nat) (origin : Origin) (parent : Address) (position : Nat) :
    List Scene → Pass (List Visit)
  | [] => pure []
  | s :: rest => do
    let first ← visit depth origin (parent ++ [position]) s
    let others ← visitAll depth origin parent (position + 1) rest
    pure (first ++ others)

end

variable {cx : NormalizeContext}

/-! ## Accounts -/

/-- What came of some scenes, by the layers visited in them. -/
inductive Accounts (visits : List Visit) : Except NormalizeError (List Node) → Prop
  | fault {error : NormalizeError} (hfault : visits.findSome? Visit.fault? = some error) :
      Accounts visits (.error error)
  | nodes {nodes : List Node} (hfault : visits.findSome? Visit.fault? = none)
      (hids : (Node.itemsOfAll nodes).map (·.id) =
        (visits.filter (·.layer.isKept)).map (·.layer.id)) : Accounts visits (.ok nodes)

namespace Accounts

variable {v : Visit} {visits others : List Visit}
  {result result' : Except NormalizeError (List Node)} {item : Item}

theorem nil : Accounts [] (.ok []) := .nodes rfl rfl

theorem first {error : NormalizeError} (h : v.fault? = some error) :
    Accounts (v :: visits) (.error error) :=
  .fault (by rw [List.findSome?_cons, h])

theorem hidden (h : v.fault? = none) (hkept : v.layer.isKept = false) : Accounts [v] (.ok []) :=
  .nodes (by rw [List.findSome?_cons, h]; rfl) (by simp [Node.itemsOfAll, hkept])

theorem around (h : v.fault? = none) (hkept : v.layer.isKept = true) (hid : item.id = v.layer.id)
    (hinside : Accounts visits result) :
    Accounts (v :: visits) (result.map fun nodes => [.node item nodes]) := by
  cases hinside with
  | fault hfault => exact .fault (by rw [List.findSome?_cons, h]; exact hfault)
  | nodes hfault hids =>
    exact .nodes (by rw [List.findSome?_cons, h]; exact hfault)
      (by simp [Node.itemsOfAll, Node.items, hkept, hid, hids])

/-- A layer without layers inside it. -/
theorem alone (h : v.fault? = none) (hkept : v.layer.isKept = true) (hid : item.id = v.layer.id) :
    Accounts [v] (.ok [.node item []]) :=
  around h hkept hid nil

theorem append (h : Accounts visits result) (h' : Accounts others result') :
    Accounts (visits ++ others) (do
      let nodes ← result
      let nodes' ← result'
      pure (nodes ++ nodes')) := by
  cases h with
  | fault hfault => exact .fault (by rw [List.findSome?_append, hfault]; rfl)
  | nodes hfault hids =>
    cases h' with
    | fault hfault' => exact .fault (by rw [List.findSome?_append, hfault]; exact hfault')
    | nodes hfault' hids' =>
      exact .nodes (by rw [List.findSome?_append, hfault]; exact hfault')
        (by simp [itemsOfAll_append, hids, hids'])

theorem exists_ok_iff (h : Accounts visits result) :
    (∃ nodes, result = .ok nodes) ↔ ∀ v ∈ visits, v.IsProper := by
  simp only [← Visit.fault?_eq_none_iff, ← List.findSome?_eq_none_iff]
  cases h with
  | fault hfault => exact iff_of_false nofun (by simp [hfault])
  | nodes hfault => exact iff_of_true ⟨_, rfl⟩ hfault

theorem eq_error_iff (h : Accounts visits result) (error : NormalizeError) :
    result = .error error ↔ ∃ before v after, visits = before ++ v :: after ∧
      (∀ u ∈ before, u.IsProper) ∧ v.Offends error := by
  have hfirst : visits.findSome? Visit.fault? = some error ↔
      ∃ before v after, visits = before ++ v :: after ∧
        (∀ u ∈ before, u.IsProper) ∧ v.Offends error := by
    simp only [List.findSome?_eq_some_iff, Visit.fault?_eq_none_iff, Visit.fault?_eq_some_iff,
      and_comm]
  rw [← hfirst]
  cases h with
  | fault hfault => rw [hfault, Except.error.injEq, Option.some.injEq]
  | nodes hfault => exact iff_of_false nofun (by simp [hfault])

end Accounts

/-! ## Normalization in lockstep with the walk -/

/-- The nodes that came of a scene. -/
def nodesOf (result : Converted) : Except NormalizeError (List Node) :=
  result.map fun node? => (node?.map (·.value)).toList

theorem gather_cons (first : Converted) (rest : List Converted) :
    (gather (first :: rest)).map (·.value) = (do
      let nodes ← nodesOf first
      let others ← (gather rest).map (·.value)
      pure (nodes ++ others)) := by
  rcases first with error | node?
  · rfl
  · rw [gather]
    cases gather rest <;> cases node? <;> rfl

mutual

/-- The induction is that of the tree, and the cases are those of `visit`. -/
theorem visit_lockstep (cx : NormalizeContext) (depth : Nat) (origin : Origin) (address : Address)
    (s : Scene) :
    Lockstep Eq (fun visits result => Accounts visits (nodesOf result))
      (cx.visit depth origin address s) (cx.convert depth origin address s) := by
  match s with
  | .node l children =>
    rw [visit, convert_node]
    cases hfault : fault? l depth origin with
    | some error =>
      rw [if_pos (by rw [Visit.fault?, hfault]; rfl)]
      exact .pure (Accounts.first hfault)
    | none =>
      rw [if_neg (by rw [Visit.fault?, hfault]; simp)]
      show Lockstep Eq _ _ (if _ then _ else if _ then _ else _)
      simp only [isSuppressed_item, isLeaf_item, Scene.layer]
      cases hkept : l.isKept with
      | false =>
        rw [if_pos (by rw [l.opens_of_not_isKept hkept]; rfl),
          if_pos (l.isKept_eq_false_iff.1 hkept)]
        exact .pure (.hidden hfault hkept)
      | true =>
        rw [l.opens_of_isKept hkept, Bool.not_not,
          if_neg (l.isKept_iff.1 hkept)]
        split_ifs with halone
        · exact .pure (.alone hfault hkept rfl)
        refine (Lockstep.refl _).bind fun vector _ heq => ?_
        subst heq
        cases vector with
        | some vector => exact .pure (.alone hfault hkept rfl)
        | none =>
          have horigin : originInside l (cx.item (.node l children) address origin).value.kind =
            originInside l (NodeKind.ofType l.type) := originInside_item ..
          simp only [horigin]
          refine (visitAll_lockstep cx (depth + 1) _ address 0 children).bind
            fun visits results hinside => .pure ?_
          have haccounts : Accounts (⟨l, depth, origin⟩ :: visits)
              (((gather results).map (·.value)).map fun nodes =>
                [.node (cx.item (.node l children) address origin).value nodes]) :=
            .around hfault hkept rfl hinside
          cases hgather : gather results <;> rwa [hgather] at haccounts

theorem visitAll_lockstep (cx : NormalizeContext) (depth : Nat) (origin : Origin)
    (parent : Address) (position : Nat) (scenes : List Scene) :
    Lockstep Eq (fun visits results => Accounts visits ((gather results).map (·.value)))
      (cx.visitAll depth origin parent position scenes)
      (cx.convertAll depth origin parent position scenes) := by
  match scenes with
  | [] =>
    rw [visitAll, convertAll_nil]
    exact .pure .nil
  | s :: rest =>
    rw [visitAll, convertAll_cons]
    refine (visit_lockstep cx depth origin (parent ++ [position]) s).bind
      fun visits result hfirst => ?_
    refine (visitAll_lockstep cx depth origin parent (position + 1) rest).bind
      fun others results hrest => .pure ?_
    rw [gather_cons]
    exact hfirst.append hrest

end

end NormalizeContext

/-! ## Services that never panic -/

def Host.IsQuiet (host : Host) : Prop :=
  ∀ count request message, host.provide count request ≠ .panicked message

def Uploader.IsQuiet (uploader : Uploader) : Prop :=
  ∀ count request message, uploader count request ≠ .panicked message

namespace Pass

variable {α β : Type} {host : Host} {uploader : Uploader}

/-- A computation that ends with a value in every world. -/
def IsQuiet (p : Pass α) : Prop := ∀ w, ∃ a, (p.runIn w).1 = .ok a

theorem IsQuiet.pure (a : α) : IsQuiet (pure a) := fun _ => ⟨a, rfl⟩

theorem IsQuiet.bind {p : Pass α} {f : α → Pass β} (h : IsQuiet p) (hf : ∀ a, IsQuiet (f a)) :
    IsQuiet (p >>= f) := by
  intro w
  obtain ⟨a, ha⟩ := h w
  rw [runIn_bind]
  rcases hp : p.runIn w with ⟨value, v⟩
  rw [hp] at ha
  subst ha
  exact hf a v

theorem isQuiet_ask (h : host.IsQuiet) (request : ExportRequest) : IsQuiet (ask host request) := by
  intro w
  rw [runIn_ask]
  cases hreply : host.provide w.exports.length request with
  | done bytes => exact ⟨_, rfl⟩
  | failed => exact ⟨_, rfl⟩
  | panicked message => exact absurd hreply (h _ _ _)

theorem isQuiet_send (h : uploader.IsQuiet) (ticket : Ticket) (request : UploadRequest) :
    IsQuiet (send uploader ticket request) := by
  intro w
  rw [runIn_send]
  cases hreply : uploader w.uploads.length request with
  | done url => exact ⟨_, rfl⟩
  | failed => exact ⟨_, rfl⟩
  | panicked message => exact absurd hreply (h _ _ _)

theorem isQuiet_address (h : uploader.IsQuiet) (uploads : UploadSettings) (kind : AssetKind)
    (bytes : Text.Bytes) : IsQuiet (address uploader uploads kind bytes) := by
  have hget : IsQuiet (get : Pass World) := fun w => ⟨w, rfl⟩
  have hset (w : World) : IsQuiet (set w : Pass PUnit) := fun _ => ⟨_, rfl⟩
  unfold address
  split_ifs
  · exact .pure _
  refine hget.bind fun w => ?_
  split
  · exact .pure _
  dsimp only
  split
  · exact (hset _).bind fun _ => .pure _
  refine (hset _).bind fun _ => ?_
  split
  · exact (hset _).bind fun _ => .pure _
  · exact isQuiet_send h _ _

end Pass

namespace NormalizeContext

open Pass

variable {settings : Settings} {host : Host} {uploader : Uploader}

theorem isQuiet_flattened (hhost : host.IsQuiet) (huploader : uploader.IsQuiet) (s : Scene)
    (item : Item) :
    IsQuiet (flattened ⟨settings, host, Pass.address uploader⟩ s item) := by
  rw [flattened_eq, artifact_eq]
  split_ifs
  · refine (isQuiet_ask hhost _).bind fun bytes => ?_
    cases bytes with
    | none => exact .pure _
    | some bytes =>
      show IsQuiet (if _ then _ else _)
      split_ifs
      · refine (isQuiet_address huploader _ _ _).bind fun url => ?_
        cases url <;> exact .pure _
      · exact .pure _
  · exact .pure _

mutual

theorem isQuiet_visit (hhost : host.IsQuiet) (huploader : uploader.IsQuiet) (depth : Nat)
    (origin : Origin) (address : Address) (s : Scene) :
    IsQuiet (visit ⟨settings, host, Pass.address uploader⟩ depth origin address s) := by
  match s with
  | .node l children =>
    rw [visit]
    split_ifs
    · exact .pure _
    · exact .pure _
    refine (isQuiet_flattened hhost huploader _ _).bind fun vector => ?_
    cases vector with
    | some vector => exact .pure _
    | none => exact (isQuiet_visitAll hhost huploader _ _ _ _ children).bind fun _ => .pure _

theorem isQuiet_visitAll (hhost : host.IsQuiet) (huploader : uploader.IsQuiet) (depth : Nat)
    (origin : Origin) (parent : Address) (position : Nat) (scenes : List Scene) :
    IsQuiet
      (visitAll ⟨settings, host, Pass.address uploader⟩ depth origin parent position scenes) := by
  match scenes with
  | [] =>
    rw [visitAll]
    exact .pure _
  | s :: rest =>
    rw [visitAll]
    exact (isQuiet_visit hhost huploader _ _ _ s).bind fun _ =>
      (isQuiet_visitAll hhost huploader _ _ _ _ rest).bind fun _ => .pure _

end

/-! ## The first fault -/

/-- **Normalization reports the first fault in document order.** Let design tool and uploader never
panic. In every world there is a result, and there are the layers visited on the way to it. The
result is a success iff all of them are proper, and an error iff that is what is wrong with the
first one that is not. The items of a success, each before those inside it, have the ids of the
visited layers that are visible or instructions, in the order of the visits. -/
theorem normalize_first_fault (settings : Settings) (host : Host) (uploader : Uploader)
    (selection : Selection) (w : World) (hhost : host.IsQuiet) (huploader : uploader.IsQuiet) :
    let cx : NormalizeContext := ⟨settings, host, Pass.address uploader⟩
    ∃ visits result w', (cx.visitAll 0 {} [] 0 selection).runIn w = (.ok visits, w') ∧
      (cx.normalize selection).runIn w = (.ok result, w') ∧
      ((∃ nodes, result = .ok nodes) ↔ ∀ v ∈ visits, v.IsProper) ∧
      (∀ error, result = .error error ↔ ∃ before v after, visits = before ++ v :: after ∧
        (∀ u ∈ before, u.IsProper) ∧ v.Offends error) ∧
      ∀ nodes, result = .ok nodes → (Node.itemsOfAll nodes.value).map (·.id) =
        (visits.filter fun v => v.layer.visible || v.layer.tag.value.isPrompt).map (·.layer.id) := by
  intro cx
  have hquiet : IsQuiet (cx.visitAll 0 {} [] 0 selection) :=
    isQuiet_visitAll hhost huploader 0 {} [] 0 selection
  obtain ⟨visits, hvisits⟩ := hquiet w
  obtain ⟨hmatching, hworld⟩ := cx.visitAll_lockstep 0 {} [] 0 selection w w rfl
  rw [hvisits] at hmatching
  rcases hrun : (cx.convertAll 0 {} [] 0 selection).runIn w with ⟨results, w'⟩
  rw [hrun] at hmatching hworld
  obtain @⟨_, results, haccounts⟩ := hmatching
  refine ⟨visits, gather results, w', Prod.ext hvisits hworld, ?_, ?_, fun error => ?_, ?_⟩
  · rw [normalize_eq, runIn_bind, hrun]
    rfl
  · rw [← haccounts.exists_ok_iff]
    cases gather results <;> simp [Except.map]
  · rw [← haccounts.eq_error_iff]
    cases gather results <;> simp [Except.map]
  · intro nodes hnodes
    rw [hnodes] at haccounts
    cases haccounts with
    | nodes _ hids => exact hids

/-- A card with an icon, a note and a title. A hidden path of endless width is no fault inside the
icon, which is drawn as one vector, and comes too late behind the title, which is endless itself. -/
theorem normalize_first_fault_endless_title :
    let endless : Float := 1 / 0
    let path : Scene := .node
      { id := "path", type := "VECTOR", width := endless, visible := false } []
    let icon : Scene := .node { id := "icon", name := "Icon", type := "GROUP" }
      [.ofType "outline" "STAR", path]
    let note : Scene := .node { id := "note", name := "#prompt short", type := "TEXT" } []
    let title : Scene := .node { id := "title", type := "TEXT", width := endless } []
    let card : Scene := .node { id := "card", type := "FRAME" } [icon, note, title, path]
    let host : Host := ⟨fun _ => none, fun _ _ => .done "<svg/>".toUTF8.toList⟩
    let uploader : Uploader := fun _ _ => .failed
    let cx : NormalizeContext := ⟨{ embedVectors := true }, host, Pass.address uploader⟩
    (match ((cx.normalize [card]).runIn {}).1 with
      | .ok (.error error) => some error
      | _ => none) = some (.invalidGeometry "title") ∧
    host.IsQuiet ∧ uploader.IsQuiet ∧
    ∃ visits result w', (cx.visitAll 0 {} [] 0 [card]).runIn {} = (.ok visits, w') ∧
      (cx.normalize [card]).runIn {} = (.ok result, w') ∧
      ((∃ nodes, result = .ok nodes) ↔ ∀ v ∈ visits, v.IsProper) ∧
      (∀ error, result = .error error ↔ ∃ before v after, visits = before ++ v :: after ∧
        (∀ u ∈ before, u.IsProper) ∧ v.Offends error) ∧
      ∀ nodes, result = .ok nodes → (Node.itemsOfAll nodes.value).map (·.id) =
        (visits.filter fun v => v.layer.visible || v.layer.tag.value.isPrompt).map
          (·.layer.id) := by
  intro endless path icon note title card host uploader cx
  have hhost : host.IsQuiet := fun _ _ _ => nofun
  have huploader : uploader.IsQuiet := fun _ _ _ => nofun
  exact ⟨by decide +kernel, hhost, huploader,
    normalize_first_fault _ host uploader [card] {} hhost huploader⟩

end NormalizeContext

end Artboard
