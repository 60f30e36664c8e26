import Artboard.Proofs.Conversion.Emission
import Artboard.Proofs.Conversion.WellFormed
import Mathlib.Data.List.Nodup

/-!
# Nothing is exported twice

If no two layers of a selection have the same id, then no conversion of it asks for an export twice,
however exports and uploads turn out and however the conversion ends
(`Services.compile_exports_nodup`).

**Normalization** asks for vectors, at most once for each layer (`Pass.AsksAmong`), and for no
bitmaps.

**Drawing** asks for bitmaps only. What was asked for is remembered, whether it was there or not
(`World.Files`), so neither a second attempt in the code nor the preview asks again.

**Panics.** An export that panics is not remembered, but nothing is asked for after it. So it is
enough if the world in which a panic comes has asked for nothing twice (`Pass.Keeps`).
-/

namespace Artboard

open Text (Bytes)

/-! ## Layers and their nodes -/

namespace Scene

/-- The request for a layer as a vector. -/
def vectorRequest (s : Scene) : ExportRequest := ⟨s.layer.id, .svg⟩

theorem nodup_vectorRequests {scenes : List Scene} (h : (scenes.map (·.layer.id)).Nodup) :
    (scenes.map vectorRequest).Nodup := by
  refine List.Nodup.of_map ExportRequest.id ?_
  rw [List.map_map]
  exact h

end Scene

namespace NormalizeContext

variable {cx : NormalizeContext}

mutual

/-- Layers leave their ids to the nodes that come of them. -/
theorem Becomes.ids_sublist {depth : Nat} {origin : Origin} {address : Address} (s : Scene)
    {n? : Option Node} (h : cx.Becomes depth origin address s n?) :
    ((Node.itemsOfAll n?.toList).map (·.id)).Sublist
      (s.layer.id :: s.inside.map (·.layer.id)) := by
  match s with
  | .node l children =>
    cases h with
    | hidden => exact List.nil_sublist _
    | alone _ _ hitem =>
      subst hitem
      exact (List.nil_sublist _).cons_cons l.id
    | vector _ _ _ hitem =>
      subst hitem
      exact (List.nil_sublist _).cons_cons l.id
    | @around _ _ _ _ _ item inside _ _ hitem _ hchildren =>
      subst hitem
      have hitems (item : Item) :
          Node.itemsOfAll [.node item inside] = item :: Node.itemsOfAll inside := by
        simp [Node.itemsOfAll, Node.items]
      rw [Option.toList, hitems, Scene.inside]
      exact (hchildren.ids_sublist children).cons_cons l.id

theorem AllBecome.ids_sublist {depth : Nat} {origin : Origin} {parent : Address} {position : Nat}
    (scenes : List Scene) {nodes : List Node}
    (h : cx.AllBecome depth origin parent position scenes nodes) :
    ((Node.itemsOfAll nodes).map (·.id)).Sublist
      ((Scene.layersOf scenes).map (·.layer.id)) := by
  match scenes with
  | [] =>
    cases h
    exact List.nil_sublist _
  | s :: rest =>
    cases h with
    | cons hfirst hrest =>
      have happend := (hfirst.ids_sublist s).append (hrest.ids_sublist rest)
      simpa [itemsOfAll_append, Scene.layersOf] using happend

end

end NormalizeContext

namespace Pass

variable {α β : Type}

/-! ## Computations that ask for vectors -/

/-- However it ends, the computation asks for some of the exports, in this order, and keeps the
bitmaps. -/
def AsksAmong (requests : List ExportRequest) (p : Pass α) : Prop :=
  ∀ w, ∃ asked, asked.Sublist requests ∧ (p.runIn w).2.exports = w.exports ++ asked ∧
    (p.runIn w).2.bitmaps = w.bitmaps

namespace AsksAmong

variable {requests others : List ExportRequest} {p : Pass α} {f : α → Pass β}

theorem pure (a : α) : AsksAmong requests (pure a) :=
  fun _ => ⟨[], List.nil_sublist _, (List.append_nil _).symm, rfl⟩

theorem bind (h : AsksAmong requests p) (hf : ∀ a, AsksAmong others (f a)) :
    AsksAmong (requests ++ others) (p >>= f) := by
  intro w
  obtain ⟨asked, hasked, hexports, hbitmaps⟩ := h w
  rw [runIn_bind]
  rcases hp : p.runIn w with ⟨panic | a, v⟩
  all_goals rw [hp] at hexports hbitmaps
  · exact ⟨asked, hasked.trans (List.sublist_append_left _ _), hexports, hbitmaps⟩
  · obtain ⟨asked', hasked', hexports', hbitmaps'⟩ := hf a v
    refine ⟨asked ++ asked', hasked.append hasked', ?_, hbitmaps'.trans hbitmaps⟩
    rw [hexports', hexports, List.append_assoc]

end AsksAmong

theorem asksAmong_ask (host : Host) (request : ExportRequest) :
    AsksAmong [request] (ask host request) := by
  intro w
  rw [runIn_ask]
  exact ⟨[request], List.Sublist.refl _, rfl, rfl⟩

theorem runIn_send_exports (uploader : Uploader) (ticket : Ticket) (request : UploadRequest)
    (w : World) :
    ((send uploader ticket request).runIn w).2.exports = w.exports ∧
      ((send uploader ticket request).runIn w).2.bitmaps = w.bitmaps := by
  rw [runIn_send]
  cases uploader w.uploads.length request <;> exact ⟨rfl, rfl⟩

/-- Uploads have nothing to do with exports, be the pipeline in whatever state. -/
theorem runIn_address_exports (uploader : Uploader) (uploads : UploadSettings) (kind : AssetKind)
    (bytes : Bytes) (w : World) :
    ((address uploader uploads kind bytes).runIn w).2.exports = w.exports ∧
      ((address uploader uploads kind bytes).runIn w).2.bitmaps = w.bitmaps := by
  have hget : (get : Pass World).runIn w = (.ok w, w) := rfl
  have hset (v : World) : (set v : Pass PUnit).runIn w = (.ok ⟨⟩, v) := rfl
  unfold address
  split_ifs
  · exact ⟨rfl, rfl⟩
  rw [runIn_bind, hget]
  dsimp only
  split
  · exact ⟨rfl, rfl⟩
  split
  · rw [runIn_bind, hset]
    exact ⟨rfl, rfl⟩
  rw [runIn_bind, hset]
  dsimp only
  split
  · exact ⟨rfl, rfl⟩
  · exact runIn_send_exports uploader _ _ _

theorem asksAmong_address (uploader : Uploader) (uploads : UploadSettings) (kind : AssetKind)
    (bytes : Bytes) : AsksAmong [] (address uploader uploads kind bytes) := by
  intro w
  obtain ⟨hexports, hbitmaps⟩ := runIn_address_exports uploader uploads kind bytes w
  exact ⟨[], List.Sublist.refl _, by rw [hexports, List.append_nil], hbitmaps⟩

end Pass

namespace NormalizeContext

open Pass

variable {settings : Settings} {host : Host} {uploader : Uploader}

theorem asksAmong_flattened (s : Scene) (item : Item) (hid : item.id = s.layer.id) :
    AsksAmong [s.vectorRequest] (flattened ⟨settings, host, address uploader⟩ s item) := by
  rw [flattened_eq, artifact_eq]
  split_ifs
  · rw [hid, ← List.append_nil [s.vectorRequest]]
    refine (asksAmong_ask host _).bind fun bytes => ?_
    cases bytes with
    | none => exact .pure _
    | some bytes =>
      show AsksAmong [] (if _ then _ else _)
      split_ifs
      · rw [← List.append_nil []]
        refine (asksAmong_address uploader _ _ _).bind fun url => ?_
        cases url <;> exact .pure _
      · exact .pure _
  · exact .pure _

mutual

/-- The induction is that of the tree: a layer is asked for before the layers inside it. -/
theorem asksAmong_convert (depth : Nat) (origin : Origin) (address : Address) (s : Scene) :
    AsksAmong (s.vectorRequest :: s.inside.map Scene.vectorRequest)
      (convert ⟨settings, host, Pass.address uploader⟩ depth origin address s) := by
  match s with
  | .node l children =>
    rw [convert_node]
    cases fault? l depth origin with
    | some fault => exact .pure _
    | none =>
      dsimp only
      split_ifs
      · exact .pure _
      · exact .pure _
      refine (asksAmong_flattened (.node l children) _ rfl).bind fun vector => ?_
      cases vector with
      | some vector => exact .pure _
      | none =>
        rw [Scene.inside, ← List.append_nil (List.map _ _)]
        exact (asksAmong_convertAll _ _ _ _ children).bind fun inside => .pure _

theorem asksAmong_convertAll (depth : Nat) (origin : Origin) (parent : Address) (position : Nat)
    (scenes : List Scene) :
    AsksAmong ((Scene.layersOf scenes).map Scene.vectorRequest)
      (convertAll ⟨settings, host, Pass.address uploader⟩ depth origin parent position scenes) := by
  match scenes with
  | [] =>
    rw [convertAll_nil]
    exact .pure _
  | s :: rest =>
    rw [convertAll_cons, Scene.layersOf, List.map_cons, List.map_append, ← List.cons_append]
    refine (asksAmong_convert depth origin _ s).bind fun first => ?_
    rw [← List.append_nil (List.map _ _)]
    exact (asksAmong_convertAll depth origin parent _ rest).bind fun others => .pure _

end

theorem asksAmong_normalize (settings : Settings) (host : Host) (uploader : Uploader)
    (selection : Selection) :
    AsksAmong ((Scene.layersOf selection).map Scene.vectorRequest)
      (normalize ⟨settings, host, Pass.address uploader⟩ selection) := by
  rw [normalize_eq, ← List.append_nil (List.map _ _)]
  exact (asksAmong_convertAll 0 {} [] 0 selection).bind fun roots => .pure _

end NormalizeContext

/-! ## Worlds that remember what they asked for -/

/-- Since some moment nothing was asked for twice. -/
def World.AskedOnce (before : List ExportRequest) (w : World) : Prop :=
  ∃ asked, w.exports = before ++ asked ∧ asked.Nodup

/-- What was asked for since some moment: nothing twice, and each bitmap is filed under the address
of an item, be it there or not. -/
structure World.Ledger (w : World) (before : List ExportRequest) (items : List Item)
    (asked : List ExportRequest) : Prop where
  exports : w.exports = before ++ asked
  nodup : asked.Nodup
  filed : ∀ id withChildren, ⟨id, .png withChildren⟩ ∈ asked →
    ∃ item ∈ items, item.id = id ∧ (item.address, withChildren) ∈ w.bitmaps.map Prod.fst

namespace World.Ledger

variable {before asked : List ExportRequest} {items : List Item} {item : Item} {withChildren : Bool}
  {w w' : World}

theorem askedOnce (h : w.Ledger before items asked) : w.AskedOnce before :=
  ⟨asked, h.exports, h.nodup⟩

theorem congr (h : w.Ledger before items asked) (hexports : w'.exports = w.exports)
    (hbitmaps : w'.bitmaps = w.bitmaps) : w'.Ledger before items asked :=
  ⟨hexports ▸ h.exports, h.nodup, hbitmaps ▸ h.filed⟩

/-- What is not filed under an address was not asked for, as ids tell items apart. -/
theorem not_asked (h : w.Ledger before items asked)
    (hids : ∀ other ∈ items, other.id = item.id → other.address = item.address)
    (hmiss : w.bitmaps.lookup (item.address, withChildren) = none) :
    ⟨item.id, .png withChildren⟩ ∉ asked := by
  intro hasked
  obtain ⟨other, hother, hid, hfiled⟩ := h.filed item.id withChildren hasked
  rw [hids other hother hid] at hfiled
  obtain ⟨entry, hentry, hkey⟩ := List.mem_map.1 hfiled
  have hne := List.lookup_eq_none_iff.1 hmiss entry hentry
  simp [hkey] at hne

/-- One more bitmap, which is filed when the request ends. -/
theorem file (h : w.Ledger before items asked) (hitem : item ∈ items)
    (hasked : ⟨item.id, .png withChildren⟩ ∉ asked) (bytes : Option Bytes) :
    World.Ledger
      { w with
        exports := w.exports ++ [⟨item.id, .png withChildren⟩]
        bitmaps := ((item.address, withChildren), bytes) :: w.bitmaps }
      before items (asked ++ [⟨item.id, .png withChildren⟩]) where
  exports := by rw [h.exports, List.append_assoc]
  nodup := h.nodup.append (List.nodup_singleton _) (List.disjoint_singleton.2 hasked)
  filed id b hmem := by
    rcases List.mem_append.1 hmem with hold | hnew
    · obtain ⟨other, hother, hid, hfiled⟩ := h.filed id b hold
      exact ⟨other, hother, hid, List.mem_cons_of_mem _ hfiled⟩
    · obtain ⟨rfl, rfl⟩ : id = item.id ∧ b = withChildren := by simpa using hnew
      exact ⟨item, hitem, rfl, List.mem_cons_self⟩

end World.Ledger

namespace Pass

variable {α β : Type} {I E : World → Prop}

/-! ## Computations that keep an invariant -/

/-- From worlds with a property the computation comes to such worlds again, or to a panic in a world
with another property. -/
def Keeps (I E : World → Prop) (p : Pass α) : Prop :=
  InStep (fun w w' => w = w' ∧ I w) (fun w w' => w = w' ∧ E w) Eq p p

namespace Keeps

variable {p : Pass α} {f : α → Pass β}

theorem pure (a : α) : Keeps I E (pure a) := InStep.pure rfl

theorem bind (h : Keeps I E p) (hf : ∀ a, Keeps I E (f a)) : Keeps I E (p >>= f) := by
  refine InStep.bind h fun a _ heq => ?_
  subst heq
  exact hf a

theorem ends (h : Keeps I E p) (hIE : ∀ v, I v → E v) {w : World} (hw : I w) :
    E (p.runIn w).2 := by
  have hend := h w w ⟨rfl, hw⟩
  generalize p.runIn w = result at hend
  cases hend with
  | value _ hv => exact hIE _ hv.2
  | panic _ hv => exact hv.2

end Keeps

variable {before : List ExportRequest} {items : List Item}

/-- What requests for bitmaps keep while exports go well or fail, and what is left by a panic. -/
abbrev KeepsLedger (before : List ExportRequest) (items : List Item) (p : Pass α) : Prop :=
  Keeps (fun w => ∃ asked, w.Ledger before items asked) (World.AskedOnce before) p

theorem keepsLedger_address (uploader : Uploader) (uploads : UploadSettings) (kind : AssetKind)
    (bytes : Bytes) : KeepsLedger before items (address uploader uploads kind bytes) := by
  rintro w _ ⟨rfl, asked, hw⟩
  obtain ⟨hexports, hbitmaps⟩ := runIn_address_exports uploader uploads kind bytes w
  have hledger := hw.congr hexports hbitmaps
  generalize (address uploader uploads kind bytes).runIn w = result at hledger
  rcases result with ⟨panic | url, v⟩
  · exact .panic panic ⟨rfl, hledger.askedOnce⟩
  · exact .value rfl ⟨rfl, asked, hledger⟩

theorem keepsLedger_bitmap (host : Host) {item : Item} (hitem : item ∈ items)
    (hids : ∀ other ∈ items, other.id = item.id → other.address = item.address)
    (withChildren : Bool) : KeepsLedger before items (bitmap host item withChildren) := by
  rintro w _ ⟨rfl, asked, hw⟩
  rw [runIn_bitmap]
  cases hlookup : w.bitmaps.lookup (item.address, withChildren) with
  | some known => exact .value rfl ⟨rfl, asked, hw⟩
  | none =>
    have hledger := hw.file hitem (hw.not_asked hids hlookup)
    rw [runIn_ask]
    cases host.provide w.exports.length ⟨item.id, .png withChildren⟩ with
    | done bytes => exact .value rfl ⟨rfl, _, hledger (some bytes)⟩
    | failed => exact .value rfl ⟨rfl, _, hledger none⟩
    | panicked message =>
      obtain ⟨asked', hexports, hnodup⟩ := (hledger none).askedOnce
      exact .panic _ ⟨rfl, asked', hexports, hnodup⟩

end Pass

/-! ## Drawing -/

section Drawing

open Pass

variable {before : List ExportRequest} {items : List Item}

/-- Drawing some of the items asks for no bitmap twice, nor for one that was asked for before. -/
theorem EmitContext.keepsLedger_emitAll (settings : Settings) (host : Host) (uploader : Uploader)
    (images : ImageMode) (parent : ParentContext) (nodes : List Node)
    (hnodes : ∀ item ∈ Node.itemsOfAll nodes, item ∈ items)
    (hids : ∀ a ∈ items, ∀ b ∈ items, a.id = b.id → a.address = b.address) :
    KeepsLedger before items
      (emitAll ⟨settings, host, Pass.address uploader, images⟩ parent nodes) := by
  have hassets (uploads : UploadSettings) (kind : AssetKind) (bytes : Bytes) :
      KeepsLedger before items (Pass.address uploader uploads kind bytes) :=
    keepsLedger_address uploader uploads kind bytes
  refine InStep.mono (V := Fragment.SameBut Eq) ?_ fun _ _ hsame => hsame.eq.symm
  refine emitAll_inStep hassets parent nodes (Node.alikeAll_refl nodes)
    fun item hitem address' haddress _ withChildren => ?_
  obtain rfl : item.address = address' := haddress
  have hmem := hnodes item hitem
  exact keepsLedger_bitmap host hmem (fun other hother => hids other hother item hmem) withChildren

/-- The code is drawn first, then the preview of the same nodes without instructions. -/
theorem Services.keepsLedger_draw (host : Host) (uploader : Uploader) (settings : Settings)
    (options : ConversionOptions) (nodes : Warned (List Node))
    (hids : ∀ a ∈ Node.itemsOfAll nodes.value, ∀ b ∈ Node.itemsOfAll nodes.value,
      a.id = b.id → a.address = b.address) :
    KeepsLedger before (Node.itemsOfAll nodes.value)
      ((uploading host uploader).draw settings options nodes) := by
  have hcode : KeepsLedger before (Node.itemsOfAll nodes.value)
      (((uploading host uploader).emitting settings options).emitRoots nodes.value) :=
    EmitContext.keepsLedger_emitAll settings host uploader _ .root _ (fun _ hitem => hitem) hids
  have hpreview : KeepsLedger before (Node.itemsOfAll nodes.value)
      (Preview.ofNodes settings host (Pass.address uploader) nodes.value) := by
    have hsubset (item : Item) (hitem : item ∈ Node.itemsOfAll (Node.dropPrompts nodes.value)) :=
      (Node.itemsOfAll_dropPrompts_sublist nodes.value).subset hitem
    rw [Preview.ofNodes_eq]
    refine Keeps.bind
      (EmitContext.keepsLedger_emitAll _ host uploader .preview .root _ hsubset hids)
      fun fragment => ?_
    dsimp only
    cases Preview.bounds nodes.value <;> exact .pure _
  exact Keeps.bind hcode fun code => hpreview.bind fun preview => .pure _

end Drawing

/-! ## Conversions -/

namespace Services

open Pass

variable (host : Host) (uploader : Uploader) (settings : Settings) (options : ConversionOptions)
  (selection : Selection)

theorem askedOnce_run (h : ((Scene.layersOf selection).map (·.layer.id)).Nodup) (w : World) :
    (((uploading host uploader).run settings options selection).runIn w).2.AskedOnce w.exports := by
  let cx := (uploading host uploader).normalizing settings
  obtain ⟨asked, hasked, hexports, -⟩ :=
    NormalizeContext.asksAmong_normalize settings host uploader selection w
  have hnodup : asked.Nodup := (Scene.nodup_vectorRequests h).sublist hasked
  rw [run_eq, runIn_bind]
  rcases hrun : (cx.normalize selection).runIn w with ⟨panic | error | nodes, v⟩
  all_goals
    replace hexports : v.exports = w.exports ++ asked := by
      rw [← hexports]
      exact congrArg (·.2.exports) hrun.symm
  · exact ⟨asked, hexports, hnodup⟩
  · exact ⟨asked, hexports, hnodup⟩
  · have hbecome := cx.normalize_become selection w _ (congrArg Prod.fst hrun) nodes rfl
    have hids : ((Node.itemsOfAll nodes.value).map (·.id)).Nodup :=
      h.sublist (hbecome.ids_sublist selection)
    have hledger : v.Ledger w.exports (Node.itemsOfAll nodes.value) asked := by
      refine ⟨hexports, hnodup, fun id withChildren hmem => ?_⟩
      obtain ⟨s, -, hs⟩ := List.mem_map.1 (hasked.subset hmem)
      cases hs
    have hdraw : KeepsLedger w.exports (Node.itemsOfAll nodes.value)
        ((uploading host uploader).draw settings options nodes) :=
      keepsLedger_draw host uploader settings options nodes fun a ha b hb hid =>
        congrArg Item.address (List.inj_on_of_nodup_map hids ha hb hid)
    have hends := hdraw.ends (fun _ ⟨_, hv⟩ => hv.askedOnce) ⟨asked, hledger⟩
    dsimp only
    rw [runIn_bind]
    rcases hdrawn : ((uploading host uploader).draw settings options nodes).runIn v with
      ⟨panic | conversion, u⟩
    · rwa [hdrawn] at hends
    · rwa [hdrawn] at hends

/-- **Nothing is exported twice.** Let no two layers of a selection have the same id. Whatever the
settings, the design tool, the uploader and the world are, and however the conversion ends, it asks
for the vector of a layer at most once, for its bitmap with the layers inside at most once, and for
its bitmap without them at most once. -/
theorem compile_exports_nodup (host : Host) (uploader : Uploader) (settings : Settings)
    (options : ConversionOptions) (selection : Selection) (w : World)
    (hids : ((Scene.layersOf selection).map (·.layer.id)).Nodup) :
    ∃ asked : List ExportRequest,
      ((uploading host uploader).compile settings options selection w).2.exports =
        w.exports ++ asked ∧ asked.Nodup := by
  unfold compile
  split_ifs
  · exact ⟨[], (List.append_nil _).symm, List.nodup_nil⟩
  · have hrun :=
      askedOnce_run host uploader settings options selection hids { w with bitmaps := [] }
    rcases hresult : ((uploading host uploader).run settings options selection).runIn
      { w with bitmaps := [] } with ⟨_ | _ | _, v⟩
    all_goals
      rw [hresult] at hrun
      exact hrun

/-- An icon of which no vector can be had, a photo that is neither there for the code nor for the
preview, and a banner at which the design tool panics in the code. -/
theorem compile_exports_nodup_banner :
    let icon : Scene := .node { id := "icon", type := "GROUP" } [.ofType "path" "VECTOR"]
    let photo : Scene := .node
      { id := "photo", type := "RECTANGLE", width := 40, height := 40, fills := [.image {}] } []
    let banner : Scene := .node { id := "banner", name := "#static", type := "FRAME" } [photo]
    let picture : Scene := .node
      { id := "picture", type := "ELLIPSE", width := 8, height := 8, fills := [.image {}] } []
    let host : Host := ⟨fun _ => none, fun _ request =>
      if request.id = "banner" then .panicked "no export" else .failed⟩
    let uploader : Uploader := fun _ _ => .failed
    let settings : Settings :=
      { embedVectors := true, embedImages := true, uploads := { enabled := true } }
    let world := ((uploading host uploader).compile settings {} [icon, picture] {}).2
    let broken := ((uploading host uploader).compile settings {} [icon, picture, banner] world).2
    ((Scene.layersOf [icon, picture]).map (·.layer.id)).Nodup ∧
      ((Scene.layersOf [icon, picture, banner]).map (·.layer.id)).Nodup ∧
      world.exports = [⟨"icon", .svg⟩, ⟨"path", .svg⟩, ⟨"picture", .png true⟩] ∧
      broken.exports = world.exports ++ [⟨"icon", .svg⟩, ⟨"path", .svg⟩, ⟨"picture", .png true⟩,
        ⟨"banner", .png true⟩] ∧
      (∃ asked : List ExportRequest, world.exports = [] ++ asked ∧ asked.Nodup) ∧
      ∃ asked : List ExportRequest, broken.exports = world.exports ++ asked ∧ asked.Nodup := by
  intro icon photo banner picture host uploader settings world broken
  have hids : ((Scene.layersOf [icon, picture]).map (·.layer.id)).Nodup := by decide
  have hids' : ((Scene.layersOf [icon, picture, banner]).map (·.layer.id)).Nodup := by decide
  exact ⟨hids, hids', by decide +kernel, by decide +kernel,
    compile_exports_nodup host uploader settings {} [icon, picture] {} hids,
    compile_exports_nodup host uploader settings {} [icon, picture, banner] world hids'⟩

end Services

end Artboard
