import Artboard.Conversion.World
import Artboard.Proofs.Upload.Slots

/-!
# Running computations

What each effect of a conversion gives, and the world it leaves. When the parts of a conversion go
on one after the other, all slots are free between its effects. So a request for an address is
admitted at once, and its slot is free again when it ends, however it ends (`runIn_address`).

What holds of every result of a computation, in any world, is a property that it `Gives`.
-/

namespace Artboard

open Text (Bytes)

/-! ## Slots that nobody holds -/

namespace Pipeline

variable (c : Cache) (r : Ticket)

/-- Who asks for a slot when all are free gets one. -/
theorem grant_ask_of_idle :
    grant (ask ⟨c, {}⟩ r) = some (r, ⟨c, permits - r.weight, 1, [], [r]⟩) :=
  Option.map_eq_some_iff.2
    ⟨_, Slots.grant_eq_some.2 ⟨[], rfl, r.weight_le_permits, rfl⟩, rfl⟩

/-- Who alone holds a slot leaves all slots free. -/
theorem leave_of_alone : leave ⟨c, permits - r.weight, 1, [], [r]⟩ r = ⟨c, {}⟩ := by
  simp [leave, Slots.release, Nat.sub_add_cancel r.weight_le_permits]

theorem store_of_alone (url : String) :
    store ⟨c, permits - r.weight, 1, [], [r]⟩ r url = ⟨Cache.put r.key url c, {}⟩ := by
  simp [store, Slots.release, Nat.sub_add_cancel r.weight_le_permits]

end Pipeline

namespace Pass

variable {α β : Type}

/-! ## Values and sequences -/

@[simp] theorem runIn_pure (a : α) (w : World) : (pure a : Pass α).runIn w = (.ok a, w) := rfl

theorem runIn_bind (p : Pass α) (f : α → Pass β) (w : World) :
    (p >>= f).runIn w =
      match p.runIn w with
      | (.ok a, w) => (f a).runIn w
      | (.error panic, w) => (.error panic, w) := by
  unfold runIn
  rw [ExceptT.run_bind, StateT.run_bind]
  rcases h : p.run.run w with ⟨_ | _, _⟩ <;> rfl

theorem runIn_bind_eq_ok_iff {p : Pass α} {f : α → Pass β} {w v : World} {b : β} :
    (p >>= f).runIn w = (.ok b, v) ↔
      ∃ a u, p.runIn w = (.ok a, u) ∧ (f a).runIn u = (.ok b, v) := by
  rw [runIn_bind]
  rcases p.runIn w with ⟨panic | a, u⟩ <;> simp

/-! ## Exports -/

/-- Every export that is asked for is counted, also if it fails. -/
theorem runIn_ask (host : Host) (request : ExportRequest) (w : World) :
    (ask host request).runIn w =
      (match host.provide w.exports.length request with
        | .done bytes => .ok (some bytes)
        | .failed => .ok none
        | .panicked message => .error ⟨message⟩,
      { w with exports := w.exports ++ [request] }) := by
  show Pass.runIn (match host.provide w.exports.length request with
    | .done bytes => _
    | .failed => _
    | .panicked message => _) _ = _
  cases host.provide w.exports.length request <;> rfl

/-- A bitmap that was asked for before is not asked for again. -/
theorem runIn_bitmap (host : Host) (item : Item) (withChildren : Bool) (w : World) :
    (bitmap host item withChildren).runIn w =
      match w.bitmaps.lookup (item.address, withChildren) with
      | some known => (.ok known, w)
      | none =>
        match (ask host ⟨item.id, .png withChildren⟩).runIn w with
        | (.ok bytes, w) =>
          (.ok bytes, { w with bitmaps := ((item.address, withChildren), bytes) :: w.bitmaps })
        | (.error panic, w) => (.error panic, w) := by
  show Pass.runIn (match w.bitmaps.lookup (item.address, withChildren) with
    | some known => _
    | none => ask host ⟨item.id, .png withChildren⟩ >>= _) w = _
  cases w.bitmaps.lookup (item.address, withChildren) with
  | some known => rfl
  | none =>
    dsimp only
    rw [runIn_bind]
    rcases (ask host ⟨item.id, .png withChildren⟩).runIn w with ⟨_ | _, _⟩ <;> rfl

/-! ## Uploads -/

theorem runIn_send (uploader : Uploader) (ticket : Ticket) (request : UploadRequest) (w : World) :
    (send uploader ticket request).runIn w =
      let sent := { w with uploads := w.uploads ++ [request] }
      match uploader w.uploads.length request with
      | .done url => (.ok (some url), { sent with pipeline := w.pipeline.store ticket url })
      | .failed => (.ok none, { sent with pipeline := w.pipeline.leave ticket })
      | .panicked message =>
        (.error ⟨message⟩, { sent with pipeline := w.pipeline.leave ticket }) := by
  show Pass.runIn (match uploader w.uploads.length request with
    | .done url => _
    | .failed => _
    | .panicked message => _) _ = _
  cases uploader w.uploads.length request <;> rfl

/-- An upload that finds all slots free leaves them free, and only a success is remembered. -/
theorem runIn_address (uploader : Uploader) (uploads : UploadSettings) (kind : AssetKind)
    (bytes : Bytes) {w : World} (hidle : w.pipeline.slots = {}) :
    (address uploader uploads kind bytes).runIn w =
      if uploads.enabled then
        let key := (ContentHash.of bytes).key
        match w.pipeline.cache.get? key with
        | some url => (.ok (some url), w)
        | none =>
          let request : UploadRequest := ⟨kind, key, bytes⟩
          let sent := { w with uploads := w.uploads ++ [request] }
          match uploader w.uploads.length request with
          | .done url =>
            (.ok (some url), { sent with pipeline.cache := w.pipeline.cache.put key url })
          | .failed => (.ok none, sent)
          | .panicked message => (.error ⟨message⟩, sent)
      else (.ok none, w) := by
  obtain ⟨⟨cache, slots⟩, exports, sent, bitmaps⟩ := w
  obtain rfl : slots = {} := hidle
  unfold address
  cases uploads.enabled with
  | false => rfl
  | true =>
    show Pass.runIn (match cache.get? (ContentHash.of bytes).key with
      | some url => _
      | none => _) _ = _
    cases hcache : cache.get? (ContentHash.of bytes).key with
    | some url => simp [hcache]
    | none =>
      simp only [hcache, Pipeline.grant_ask_of_idle, if_true]
      show (send uploader _ _).runIn _ = _
      rw [runIn_send]
      cases uploader sent.length ⟨kind, (ContentHash.of bytes).key, bytes⟩ with
      | done url => simp only [Pipeline.store_of_alone]
      | failed | panicked => simp only [Pipeline.leave_of_alone]

/-! ## Results -/

variable {P : α → Prop} {Q : β → Prop}

/-- Whatever the computation gives, in any world, has the property, unless it panics. -/
def Gives (p : Pass α) (P : α → Prop) : Prop := ∀ w a, (p.runIn w).1 = .ok a → P a

namespace Gives

variable {p : Pass α} {f : α → Pass β}

theorem pure {a : α} (h : P a) : Gives (pure a) P := by
  intro w b hb
  obtain rfl : a = b := Except.ok.inj hb
  exact h

theorem bind (h : Gives p P) (hf : ∀ a, P a → Gives (f a) Q) : Gives (p >>= f) Q := by
  intro w b hb
  rw [runIn_bind] at hb
  rcases hp : p.runIn w with ⟨panic | a, v⟩
  · rw [hp] at hb
    exact absurd hb nofun
  · rw [hp] at hb
    exact hf a (h w a (by rw [hp])) v b hb

theorem mono {P' : α → Prop} (h : Gives p P) (hP : ∀ a, P a → P' a) : Gives p P' :=
  fun w a ha => hP a (h w a ha)

theorem trivial (p : Pass α) : Gives p fun _ => True := fun _ _ _ => True.intro

end Gives

/-- The computation gives the value in some world. -/
def CanGive (p : Pass α) (a : α) : Prop := ∃ w, (p.runIn w).1 = .ok a

theorem Gives.canGive (p : Pass α) : Gives p (CanGive p) := fun w _ h => ⟨w, h⟩

theorem Gives.of_canGive {p : Pass α} {a : α} (h : Gives p P) (ha : CanGive p a) : P a := by
  obtain ⟨w, hw⟩ := ha
  exact h w a hw

end Pass

end Artboard
