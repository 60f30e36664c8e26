import Artboard.Proofs.Conversion.Exports
import Artboard.Proofs.Conversion.Invariants
import Artboard.Proofs.Upload.Cache
import Artboard.Proofs.Conversion.Results

/-!
# Where addresses and bytes come from

The bytes that a conversion embeds are those that the design tool exported for it, and the addresses
that it uses are answers of the uploader, as long as nothing but such answers was in the cache when
it began (`World.Answered`). A session keeps to this by itself (`Session.answered`).

**The trail** (`Trail`). What is followed of one conversion: its services, its items, and all
exports up to its end, of which those from a number on are its own. Worlds on the way hold nothing
but bytes and addresses of the trail (`Trail.Holds`), and computations lead from such worlds to such
worlds as long as they keep to the list of exports (`Trail.Ensures`).
-/

namespace Artboard

open Text (Bytes)

/-- An address that the uploader may answer with. -/
def Uploader.Answers (uploader : Uploader) (url : String) : Prop :=
  ∃ n request, uploader n request = .done url

/-! ## Addresses in the cache -/

/-- All slots are free, and nothing is in the cache but answers of the uploader. -/
structure World.Answered (uploader : Uploader) (w : World) : Prop where
  idle : w.pipeline.slots = {}
  cache : ∀ key url, w.pipeline.cache.get? key = some url → uploader.Answers url

namespace World.Answered

variable {uploader : Uploader} {w w' : World}

theorem init : World.Answered uploader {} := ⟨rfl, nofun⟩

/-- Only the pipeline counts. -/
theorem congr (h : w.Answered uploader) (hpipeline : w'.pipeline = w.pipeline) :
    w'.Answered uploader :=
  ⟨hpipeline ▸ h.idle, hpipeline ▸ h.cache⟩

/-- A request for an address is answered from the cache or by the uploader. -/
theorem address (h : w.Answered uploader) (uploads : UploadSettings) (kind : AssetKind)
    (bytes : Bytes) :
    ((Pass.address uploader uploads kind bytes).runIn w).2.Answered uploader ∧
      ∀ url, ((Pass.address uploader uploads kind bytes).runIn w).1 = .ok (some url) →
        uploader.Answers url := by
  rw [Pass.runIn_address _ _ _ _ h.idle]
  split_ifs
  · dsimp only
    cases hcache : w.pipeline.cache.get? (ContentHash.of bytes).key with
    | some url =>
      refine ⟨h, ?_⟩
      rintro _ ⟨⟩
      exact h.cache _ url hcache
    | none =>
      dsimp only
      cases hreply : uploader w.uploads.length ⟨kind, (ContentHash.of bytes).key, bytes⟩ with
      | done url =>
        have hanswer : uploader.Answers url := ⟨_, _, hreply⟩
        refine ⟨⟨h.idle, fun key url' hget => ?_⟩, ?_⟩
        · rw [Cache.get?_put] at hget
          split_ifs at hget
          · exact Option.some.inj hget ▸ hanswer
          · exact h.cache key url' hget
        · rintro _ ⟨⟩
          exact hanswer
      | failed | panicked => exact ⟨h.congr rfl, nofun⟩
  · exact ⟨h, nofun⟩

end World.Answered

theorem invariant_answered (host : Host) (uploader : Uploader) :
    Invariant (World.Answered uploader) host (Pass.address uploader) where
  ask request w h := by
    rw [Pass.runIn_ask]
    exact h.congr rfl
  address uploads kind bytes w h := (h.address uploads kind bytes).1
  remember bitmaps h := h.congr rfl

/-- **In a session nothing comes into the cache but answers of the uploader.** -/
theorem Session.answered (host : Host) (uploader : Uploader) (settings : Settings)
    (steps : List Session.Step) :
    (Session.run (Services.uploading host uploader) { settings } steps).2.world.Answered uploader :=
  (invariant_answered host uploader).run .init steps

/-! ## Computations that lead on -/

/-- The reply with some value, or without any. -/
def Reply.ofOption {α : Type} : Option α → Reply α
  | some a => .done a
  | none => .failed

namespace Pass

variable {α β : Type} {I : World → Prop} {exports : List ExportRequest} {p : Pass α}
  {f : α → Pass β} {P : α → Prop} {Q : β → Prop} {w v : World}

/-- From worlds with a property the computation leads to such worlds again, and to values with a
property, unless it panics or asks for exports that are not next on the list. -/
structure Leads (I : World → Prop) (exports : List ExportRequest) (p : Pass α) (P : α → Prop) :
    Prop where
  grows : ∀ w, w.exports <+: (p.runIn w).2.exports
  leads : ∀ {w v a}, I w → p.runIn w = (.ok a, v) → v.exports <+: exports → I v ∧ P a

namespace Leads

theorem pure {a : α} (h : P a) : Leads I exports (pure a) P where
  grows _ := List.prefix_refl _
  leads hw hrun _ := by
    cases hrun
    exact ⟨hw, h⟩

theorem grows_of_run (h : Leads I exports p P) {a : α} (hrun : p.runIn w = (.ok a, v)) :
    w.exports <+: v.exports := by
  simpa only [hrun] using h.grows w

/-- What the first computation gives is a premise of what the second one gives, so that the exports
are known to grow in any case. -/
theorem bind (h : Leads I exports p P) (hf : ∀ a, Leads I exports (f a) fun b => P a → Q b) :
    Leads I exports (p >>= f) Q where
  grows w := by
    have hfirst := h.grows w
    rw [runIn_bind]
    rcases hp : p.runIn w with ⟨panic | a, u⟩
    all_goals rw [hp] at hfirst
    · exact hfirst
    · exact hfirst.trans ((hf a).grows u)
  leads {w v b} hw hrun hv := by
    obtain ⟨a, u, hp, hfa⟩ := runIn_bind_eq_ok_iff.1 hrun
    have hrest := (hf a).grows_of_run hfa
    obtain ⟨hu, ha⟩ := h.leads hw hp (hrest.trans hv)
    exact ((hf a).leads hu hfa hv).imp_right fun h => h ha

theorem mono {P' : α → Prop} (h : Leads I exports p P) (hP : ∀ a, P a → P' a) :
    Leads I exports p P' where
  grows := h.grows
  leads hw hrun hv := (h.leads hw hrun hv).imp_right (hP _)

end Leads

/-! ### Replies to requests for bitmaps -/

theorem getElem?_of_concat_prefix {l l' : List ExportRequest} {request : ExportRequest}
    (h : l ++ [request] <+: l') : l'[l.length]? = some request := by
  obtain ⟨later, rfl⟩ := h
  rw [List.append_assoc, List.getElem?_append_right le_rfl, Nat.sub_self]
  rfl

/-- A computation goes on after an export that was there or failed. -/
theorem runIn_ask_eq_ok_iff {host : Host} {request : ExportRequest} {known : Option Bytes} :
    (ask host request).runIn w = (.ok known, v) ↔
      host.provide w.exports.length request = .ofOption known ∧
        v = { w with exports := w.exports ++ [request] } := by
  rw [runIn_ask, Prod.mk.injEq, eq_comm (a := v)]
  refine and_congr_left fun _ => ?_
  cases host.provide w.exports.length request <;> cases known <;> simp [Reply.ofOption]

/-- A bitmap is on record, or it is asked for and put on record. -/
theorem leads_bitmap {host : Host} {item : Item} {withChildren : Bool} {K : Option Bytes → Prop}
    (hknown : ∀ {w known}, I w → w.bitmaps.lookup (item.address, withChildren) = some known →
      K known)
    (hasked : ∀ {w v known}, I w → v.exports <+: exports →
      (ask host ⟨item.id, .png withChildren⟩).runIn w = (.ok known, v) →
        I { v with bitmaps := ((item.address, withChildren), known) :: v.bitmaps } ∧ K known) :
    Leads I exports (bitmap host item withChildren) K where
  grows w := by
    rw [runIn_bitmap, runIn_ask]
    cases w.bitmaps.lookup (item.address, withChildren) with
    | some known => exact List.prefix_refl _
    | none =>
      cases host.provide w.exports.length ⟨item.id, .png withChildren⟩ <;>
        exact List.prefix_append _ _
  leads {w v known} hw hrun hv := by
    rw [runIn_bitmap] at hrun
    cases hlookup : w.bitmaps.lookup (item.address, withChildren) with
    | some known =>
      rw [hlookup] at hrun
      cases hrun
      exact ⟨hw, hknown hw hlookup⟩
    | none =>
      rw [hlookup] at hrun
      rcases hask : (ask host ⟨item.id, .png withChildren⟩).runIn w with ⟨panic | reply, u⟩
      all_goals
        rw [hask] at hrun
        cases hrun
      exact hasked hw hv hask

end Pass

/-! ## Trails -/

/-- What is followed of a conversion. -/
structure Trail where
  host : Host
  uploader : Uploader
  /-- All exports up to the end. -/
  exports : List ExportRequest
  /-- The number of exports before the conversion. -/
  start : Nat
  items : List Item

namespace Trail

variable (t : Trail)

/-- The conversion asked for the bitmap of the item at an address, and got these bytes. -/
def Exported (address : Address) (withChildren : Bool) (bytes : Bytes) : Prop :=
  ∃ item ∈ t.items, item.address = address ∧ ∃ n, t.start ≤ n ∧
    t.exports[n]? = some ⟨item.id, .png withChildren⟩ ∧
    t.host.provide n ⟨item.id, .png withChildren⟩ = .done bytes

/-- A world on the way. -/
structure Holds (w : World) : Prop where
  answered : w.Answered t.uploader
  begun : t.start ≤ w.exports.length
  bitmaps : ∀ {address withChildren bytes},
    w.bitmaps.lookup (address, withChildren) = some (some bytes) →
      t.Exported address withChildren bytes

/-- From worlds on the way the computation leads to worlds on the way, and to values with the
property. -/
abbrev Ensures {α : Type} (p : Pass α) (P : α → Prop) : Prop :=
  Pass.Leads t.Holds t.exports p P

end Trail

namespace Trail

open Pass

variable {t : Trail} {w : World}

theorem Holds.init {w : World} (hw : w.Answered t.uploader) (hstart : t.start = w.exports.length) :
    t.Holds { w with bitmaps := [] } :=
  ⟨hw.congr rfl, hstart.le, nofun⟩

/-! ### Exports and uploads -/

theorem Holds.ask (h : t.Holds w) (request : ExportRequest) :
    t.Holds ((Pass.ask t.host request).runIn w).2 := by
  rw [runIn_ask]
  refine ⟨h.answered.congr rfl, h.begun.trans ?_, h.bitmaps⟩
  rw [List.length_append]
  exact Nat.le_add_right _ _

theorem ensures_ask (request : ExportRequest) :
    t.Ensures (ask t.host request) fun _ => True where
  grows w := by
    rw [runIn_ask]
    exact List.prefix_append _ _
  leads {w v a} hw hrun _ := by
    have hv := hw.ask request
    rw [hrun] at hv
    exact ⟨hv, True.intro⟩

/-- The reply to a request for a bitmap is put on record. -/
theorem Holds.file (h : t.Holds w) {address : Address} {withChildren : Bool} {known : Option Bytes}
    (hknown : ∀ bytes, known = some bytes → t.Exported address withChildren bytes) :
    t.Holds { w with bitmaps := ((address, withChildren), known) :: w.bitmaps } where
  answered := h.answered.congr rfl
  begun := h.begun
  bitmaps {address' children bytes} hlookup := by
    by_cases hkey : (address', children) = (address, withChildren)
    · obtain ⟨rfl, rfl⟩ := Prod.ext_iff.1 hkey
      rw [List.lookup_cons_self] at hlookup
      exact hknown bytes (Option.some.inj hlookup)
    · rw [List.lookup_cons, beq_false_of_ne hkey] at hlookup
      exact h.bitmaps hlookup

/-- A bitmap that is known already was exported on the way too. -/
theorem ensures_bitmap {item : Item} (hitem : item ∈ t.items) (withChildren : Bool) :
    t.Ensures (bitmap t.host item withChildren) fun known =>
      ∀ bytes, known = some bytes → t.Exported item.address withChildren bytes := by
  refine leads_bitmap ?_ ?_
  · rintro w _ hw hlookup bytes rfl
    exact hw.bitmaps hlookup
  · intro w v known hw hv hask
    obtain ⟨hreply, rfl⟩ := runIn_ask_eq_ok_iff.1 hask
    have hexported : ∀ bytes, known = some bytes → t.Exported item.address withChildren bytes := by
      rintro bytes rfl
      exact ⟨item, hitem, rfl, w.exports.length, hw.begun, getElem?_of_concat_prefix hv, hreply⟩
    have hasked := hw.ask ⟨item.id, .png withChildren⟩
    rw [runIn_ask] at hasked
    exact ⟨hasked.file hexported, hexported⟩

theorem ensures_address (uploads : UploadSettings) (kind : AssetKind) (bytes : Bytes) :
    t.Ensures (address t.uploader uploads kind bytes) fun url? =>
      ∀ url, url? = some url → t.uploader.Answers url where
  grows w := by
    rw [(runIn_address_exports t.uploader uploads kind bytes w).1]
  leads {w v a} hw hrun _ := by
    obtain ⟨hanswered, hanswer⟩ := hw.answered.address uploads kind bytes
    obtain ⟨hexports, hbitmaps⟩ := runIn_address_exports t.uploader uploads kind bytes w
    rw [hrun] at hanswered hanswer hexports hbitmaps
    dsimp only at hexports hbitmaps
    refine ⟨⟨hanswered, hexports ▸ hw.begun, hbitmaps ▸ hw.bitmaps⟩, ?_⟩
    rintro url rfl
    exact hanswer url rfl

/-! ### Normalization -/

/-- A vector that is shown from an address was uploaded, as the settings say. -/
def Vouches (t : Trail) (settings : Settings) (item : Item) : Prop :=
  ∀ url, item.artifact = some (.remote url) → settings.embedVectors = true ∧
    settings.uploads.uploadsVectors = true ∧ t.uploader.Answers url

theorem ensures_flattened (settings : Settings) (s : Scene) (item : Item) :
    t.Ensures (NormalizeContext.flattened ⟨settings, t.host, address t.uploader⟩ s item)
      fun artifact => ∀ url, artifact = some (.remote url) → settings.embedVectors = true ∧
        settings.uploads.uploadsVectors = true ∧ t.uploader.Answers url := by
  rw [NormalizeContext.flattened_eq, NormalizeContext.artifact_eq]
  split_ifs with hflattens
  · simp only [NormalizeContext.flattens, Bool.and_eq_true] at hflattens
    refine (t.ensures_ask _).bind fun bytes => ?_
    cases bytes with
    | none => exact .pure fun _ _ h => by cases h
    | some bytes =>
      dsimp only
      split_ifs with huploads
      · refine (t.ensures_address _ _ bytes).bind fun url? => ?_
        cases url? with
        | none => exact .pure fun _ _ _ h => by cases h
        | some url =>
          refine .pure fun hanswer _ url' heq => ?_
          cases heq
          exact ⟨hflattens.1.1, huploads, hanswer url rfl⟩
      · exact .pure fun _ _ h => by cases h
  · exact .pure fun _ h => by cases h

section Normalize

variable (t) (settings : Settings)

mutual

theorem ensures_convert (depth : Nat) (origin : Origin) (address : Address) (s : Scene) :
    t.Ensures (NormalizeContext.convert ⟨settings, t.host, Pass.address t.uploader⟩ depth origin
      address s) fun result => ∀ node?, result = .ok node? →
        ∀ item ∈ Node.itemsOfAll (node?.map (·.value)).toList, t.Vouches settings item := by
  match s with
  | .node l children =>
    rw [NormalizeContext.convert_node]
    cases NormalizeContext.fault? l depth origin with
    | some fault => exact .pure nofun
    | none =>
      have hown (item : Item) (hitem : item.artifact = none) : t.Vouches settings item := by
        intro url hurl
        rw [hitem] at hurl
        cases hurl
      show t.Ensures (if _ then _ else if _ then _ else _) _
      split_ifs
      · refine .pure ?_
        rintro _ ⟨⟩
        exact List.forall_mem_nil _
      · refine .pure ?_
        rintro _ ⟨⟩
        exact List.forall_mem_singleton.2 (hown _ rfl)
      refine (ensures_flattened settings _ _).bind fun artifact => ?_
      cases artifact with
      | some artifact =>
        refine .pure fun hartifact => ?_
        rintro _ ⟨⟩
        refine List.forall_mem_singleton.2 fun url hurl => hartifact url hurl
      | none =>
        refine (ensures_convertAll (depth + 1) _ address 0 children).bind fun inside => ?_
        refine .pure fun hinside _ node? hnode => ?_
        rcases hgather : NormalizeContext.gather inside with error | nodes
        · rw [hgather] at hnode
          cases hnode
        · rw [hgather] at hnode
          cases hnode
          show ∀ item ∈ (_ :: Node.itemsOfAll nodes.value) ++ [], t.Vouches settings item
          rw [List.append_nil]
          exact List.forall_mem_cons.2 ⟨hown _ rfl, hinside nodes hgather⟩

theorem ensures_convertAll (depth : Nat) (origin : Origin) (parent : Address) (position : Nat)
    (scenes : List Scene) :
    t.Ensures (NormalizeContext.convertAll ⟨settings, t.host, Pass.address t.uploader⟩ depth origin
      parent position scenes) fun results => ∀ nodes, NormalizeContext.gather results = .ok nodes →
        ∀ item ∈ Node.itemsOfAll nodes.value, t.Vouches settings item := by
  match scenes with
  | [] =>
    rw [NormalizeContext.convertAll_nil]
    refine .pure ?_
    rintro _ ⟨⟩
    exact List.forall_mem_nil _
  | s :: rest =>
    rw [NormalizeContext.convertAll_cons]
    refine (ensures_convert depth origin (parent ++ [position]) s).bind fun first => ?_
    refine (ensures_convertAll depth origin parent (position + 1) rest).bind fun others => ?_
    refine .pure fun hrest hfirst nodes hnodes => ?_
    obtain ⟨node?, nodes', rfl, hothers, hvalue⟩ := NormalizeContext.gather_cons_eq_ok hnodes
    rw [hvalue, NormalizeContext.itemsOfAll_append, List.forall_mem_append]
    exact ⟨hfirst node? rfl, hrest nodes' hothers⟩

end

/-- Every item of a normalization vouches for its vector. -/
theorem ensures_normalize (selection : Selection) :
    t.Ensures (NormalizeContext.normalize ⟨settings, t.host, Pass.address t.uploader⟩ selection)
      fun result => ∀ nodes, result = .ok nodes →
        ∀ item ∈ Node.itemsOfAll nodes.value, t.Vouches settings item := by
  rw [NormalizeContext.normalize_eq]
  exact (ensures_convertAll t settings 0 {} [] 0 selection).bind fun _ => .pure fun h => h

end Normalize

end Trail

end Artboard
