import Artboard.Proofs.Conversion.Emission
import Mathlib.Data.List.Nodup
import Mathlib.Logic.Relator

/-!
# Addresses are not drawn

The address of a node only says whether two bitmaps are the same. So nodes that differ in nothing
but their addresses are drawn alike, as long as the addresses correspond one to one: emission goes
in lockstep in worlds whose bitmaps are filed under corresponding addresses (`World.SameBut`), and
comes to markup that is written the same (`EmitContext.emitAll_lockstep`).
-/

namespace Artboard

open Pass

/-! ## Worlds -/

/-- The same bitmap, filed under corresponding addresses. -/
def SameBitmap (ρ : Address → Address → Prop) (e e' : BitmapKey × Option Text.Bytes) : Prop :=
  ρ e.1.1 e'.1.1 ∧ e.1.2 = e'.1.2 ∧ e.2 = e'.2

/-- Two worlds that differ in nothing but the addresses under which bitmaps are filed. -/
structure World.SameBut (ρ : Address → Address → Prop) (w w' : World) : Prop where
  pipeline : w.pipeline = w'.pipeline
  exports : w.exports = w'.exports
  uploads : w.uploads = w'.uploads
  bitmaps : List.Forall₂ (SameBitmap ρ) w.bitmaps w'.bitmaps

namespace Pass

variable {R : World → World → Prop} {ρ : Address → Address → Prop}

theorem lockstep_get : Lockstep R R (get : Pass World) get := fun _ _ hw => ⟨.value hw, hw⟩

theorem lockstep_set {w w' : World} (h : R w w') :
    Lockstep R (fun _ _ => True) (set w : Pass PUnit) (set w') :=
  fun _ _ _ => ⟨.value True.intro, h⟩

theorem ask_lockstep (host : Host) (request : ExportRequest) :
    Lockstep (World.SameBut ρ) Eq (ask host request) (ask host request) := by
  intro w w' hw
  rw [runIn_ask, runIn_ask, hw.exports]
  refine ⟨?_, ⟨hw.pipeline, rfl, hw.uploads, hw.bitmaps⟩⟩
  cases host.provide w'.exports.length request with
  | done bytes => exact .value rfl
  | failed => exact .value rfl
  | panicked message => exact .panic _

/-- Bitmaps under corresponding addresses are the same. -/
theorem lookup_bitmaps (hρ : Relator.BiUnique ρ) {address address' : Address}
    (haddress : ρ address address') (withChildren : Bool)
    {bitmaps bitmaps' : List (BitmapKey × Option Text.Bytes)}
    (h : List.Forall₂ (SameBitmap ρ) bitmaps bitmaps') :
    bitmaps.lookup (address, withChildren) = bitmaps'.lookup (address', withChildren) := by
  induction h with
  | nil => rfl
  | @cons e e' _ _ he _ ih =>
    obtain ⟨⟨a, b⟩, bytes⟩ := e
    obtain ⟨⟨a', b'⟩, bytes'⟩ := e'
    obtain ⟨ha, rfl, rfl⟩ := he
    -- One to one, so that a key is found in both worlds or in neither.
    have hsame : address = a ↔ address' = a' := Relator.rel_eq hρ haddress ha
    have hkey : ((address, withChildren) == (a, b)) = ((address', withChildren) == (a', b)) := by
      rw [Bool.eq_iff_iff, beq_iff_eq, beq_iff_eq, Prod.mk.injEq, Prod.mk.injEq, hsame]
    rw [List.lookup_cons, List.lookup_cons, ih]
    exact congrArg (fun same => cond same _ _) hkey

theorem bitmap_lockstep (hρ : Relator.BiUnique ρ) (host : Host) {item : Item} {address' : Address}
    (haddress : ρ item.address address') (withChildren : Bool) :
    Lockstep (World.SameBut ρ) Eq (bitmap host item withChildren)
      (bitmap host (item.readdressed address') withChildren) := by
  refine lockstep_get.bind fun w w' hw => ?_
  rw [Item.address_readdressed, lookup_bitmaps hρ haddress withChildren hw.bitmaps]
  cases w'.bitmaps.lookup (address', withChildren) with
  | some known => exact .pure rfl
  | none =>
    refine (ask_lockstep host _).bind fun bytes bytes' hbytes => ?_
    subst hbytes
    refine Lockstep.bind (V := fun _ _ => True) (fun v v' hv => ?_) fun _ _ _ => .pure rfl
    exact ⟨.value True.intro,
      ⟨hv.pipeline, hv.exports, hv.uploads, .cons ⟨haddress, rfl, rfl⟩ hv.bitmaps⟩⟩

theorem send_lockstep (uploader : Uploader) (ticket : Ticket) (request : UploadRequest) :
    Lockstep (World.SameBut ρ) Eq (send uploader ticket request)
      (send uploader ticket request) := by
  intro w w' hw
  rw [runIn_send, runIn_send, hw.pipeline, hw.uploads]
  cases uploader w'.uploads.length request with
  | done url => exact ⟨.value rfl, ⟨rfl, hw.exports, rfl, hw.bitmaps⟩⟩
  | failed => exact ⟨.value rfl, ⟨rfl, hw.exports, rfl, hw.bitmaps⟩⟩
  | panicked message => exact ⟨.panic _, ⟨rfl, hw.exports, rfl, hw.bitmaps⟩⟩

/-- The upload pipeline does not look at bitmaps. -/
theorem address_lockstep (uploader : Uploader) (uploads : UploadSettings) (kind : AssetKind)
    (bytes : Text.Bytes) :
    Lockstep (World.SameBut ρ) Eq (address uploader uploads kind bytes)
      (address uploader uploads kind bytes) := by
  unfold address
  split_ifs
  · exact .pure rfl
  refine lockstep_get.bind fun w w' hw => ?_
  obtain ⟨pipeline, exports, sent, bitmaps⟩ := w
  obtain ⟨_, _, _, bitmaps'⟩ := w'
  obtain ⟨rfl, rfl, rfl, hbitmaps⟩ := hw
  have hset (p : Pipeline) :
      World.SameBut ρ ⟨p, exports, sent, bitmaps⟩ ⟨p, exports, sent, bitmaps'⟩ :=
    ⟨rfl, rfl, rfl, hbitmaps⟩
  dsimp only
  split
  · exact .pure rfl
  split
  · exact (lockstep_set (hset _)).bind fun _ _ _ => .pure rfl
  refine (lockstep_set (hset _)).bind fun _ _ _ => ?_
  split
  · exact (lockstep_set (hset _)).bind fun _ _ _ => .pure rfl
  · exact send_lockstep uploader _ _

end Pass

/-! ## Addresses that correspond -/

namespace Node

mutual

theorem Alike.mono {ρ ρ' : Address → Address → Prop} (hρ : ∀ a a', ρ a a' → ρ' a a') (n : Node)
    {n' : Node} (h : Alike ρ n n') : Alike ρ' n n' := by
  match n with
  | .node item children =>
    cases h with
    | node haddress hchildren => exact .node (hρ _ _ haddress) (hchildren.mono hρ children)

theorem AlikeAll.mono {ρ ρ' : Address → Address → Prop} (hρ : ∀ a a', ρ a a' → ρ' a a')
    (nodes : List Node) {nodes' : List Node} (h : AlikeAll ρ nodes nodes') :
    AlikeAll ρ' nodes nodes' := by
  match nodes with
  | [] =>
    cases h
    exact .nil
  | n :: rest =>
    cases h with
    | cons hfirst hrest => exact .cons (hfirst.mono hρ n) (hrest.mono hρ rest)

end

/-- The addresses of some trees, in order. -/
def addressesOfAll (nodes : List Node) : List Address := (itemsOfAll nodes).map (·.address)

theorem addressesOfAll_cons (item : Item) (children rest : List Node) :
    addressesOfAll (.node item children :: rest) =
      item.address :: addressesOfAll children ++ addressesOfAll rest := by
  simp [addressesOfAll, itemsOfAll, items]

/-- Corresponding addresses stand at the same places of the trees. -/
theorem AlikeAll.exists_pairs {ρ : Address → Address → Prop} (nodes : List Node)
    {nodes' : List Node} (h : AlikeAll ρ nodes nodes') :
    ∃ pairs : List (Address × Address),
      pairs.map Prod.fst = addressesOfAll nodes ∧ pairs.map Prod.snd = addressesOfAll nodes' ∧
        AlikeAll (fun a a' => (a, a') ∈ pairs) nodes nodes' := by
  match nodes with
  | [] =>
    cases h
    exact ⟨[], rfl, rfl, .nil⟩
  | .node item children :: rest =>
    cases h with
    | cons hfirst hrest =>
      cases hfirst with
      | @node _ address' _ children' _ hchildren =>
        obtain ⟨inner, hfst, hsnd, hinner⟩ := hchildren.exists_pairs children
        obtain ⟨outer, hfst', hsnd', houter⟩ := hrest.exists_pairs rest
        refine ⟨(item.address, address') :: inner ++ outer, ?_, ?_, ?_⟩
        · simp [addressesOfAll_cons, hfst, hfst']
        · simp [addressesOfAll_cons, hsnd, hsnd']
        · have hin (a a' : Address) (ha : (a, a') ∈ inner) :
              (a, a') ∈ (item.address, address') :: inner ++ outer := by simp [ha]
          have hout (a a' : Address) (ha : (a, a') ∈ outer) :
              (a, a') ∈ (item.address, address') :: inner ++ outer := by simp [ha]
          exact .cons (.node (by simp) (hinner.mono hin children)) (houter.mono hout rest)

/-- Where no address occurs twice, corresponding addresses determine each other. -/
theorem AlikeAll.exists_biUnique {ρ : Address → Address → Prop} {nodes nodes' : List Node}
    (h : AlikeAll ρ nodes nodes') (hnodup : (addressesOfAll nodes).Nodup)
    (hnodup' : (addressesOfAll nodes').Nodup) :
    ∃ ρ' : Address → Address → Prop, Relator.BiUnique ρ' ∧ AlikeAll ρ' nodes nodes' := by
  obtain ⟨pairs, hfst, hsnd, hpairs⟩ := h.exists_pairs nodes
  rw [← hfst] at hnodup
  rw [← hsnd] at hnodup'
  refine ⟨_, ⟨?_, ?_⟩, hpairs⟩
  · intro a b c hac hbc
    exact congrArg Prod.fst (List.inj_on_of_nodup_map hnodup' hac hbc rfl)
  · intro a b c hab hac
    exact congrArg Prod.snd (List.inj_on_of_nodup_map hnodup hab hac rfl)

end Node

/-! ## Emission -/

/-- Whether a context makes nothing of addresses but to tell bitmaps apart. -/
structure EmitContext.Respects (cx : EmitContext) (ρ : Address → Address → Prop) : Prop where
  oneToOne : Relator.BiUnique ρ
  assets : ∀ uploads kind bytes,
    Lockstep (World.SameBut ρ) Eq (cx.assets uploads kind bytes) (cx.assets uploads kind bytes)

/-- **Nodes that differ in addresses only are drawn in lockstep.** -/
theorem EmitContext.emitAll_lockstep {cx : EmitContext} {ρ : Address → Address → Prop}
    (hcx : cx.Respects ρ) (parent : ParentContext) (nodes : List Node) {nodes' : List Node}
    (h : Node.AlikeAll ρ nodes nodes') :
    Lockstep (World.SameBut ρ) (Fragment.SameBut ρ) (cx.emitAll parent nodes)
      (cx.emitAll parent nodes') := by
  rw [lockstep_iff_inStep]
  refine emitAll_inStep (fun uploads kind bytes => ?_) parent nodes h
    fun item _ address' haddress _ withChildren => ?_
  · exact lockstep_iff_inStep.1 (hcx.assets uploads kind bytes)
  · exact lockstep_iff_inStep.1 (bitmap_lockstep hcx.oneToOne cx.host haddress withChildren)

end Artboard
