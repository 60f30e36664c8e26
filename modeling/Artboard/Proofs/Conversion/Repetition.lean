import Artboard.Proofs.Conversion.Agreement
import Artboard.Proofs.Upload.Cache

/-!
# Answers that are repeated

If the answer of an uploader depends on the content alone, it does not matter what is in the cache,
as long as it is nothing but what the uploader would answer again (`World.Repeats`): two such worlds
lead to the same conversions, and to such worlds again (`compatible_repeats`). Panics of the uploader
are answers too.
-/

namespace Artboard

open Text (Bytes)

/-! ## Worlds -/

/-- An uploader whose answer depends on the content alone. -/
def Uploader.Keyed (uploader : Uploader) : Prop :=
  ∀ n m request request', request.key = request'.key →
    uploader n request = uploader m request'

/-- The address that the uploader would answer with, be it in the cache or not. -/
def Uploader.answer (uploader : Uploader) (uploads : UploadSettings) (request : UploadRequest) :
    Except Panic (Option String) :=
  if uploads.enabled then
    match uploader 0 request with
    | .done url => .ok (some url)
    | .failed => .ok none
    | .panicked message => .error ⟨message⟩
  else .ok none

/-- All slots are free, and nothing is in the cache but what the uploader would answer again. -/
structure World.Repeats (uploader : Uploader) (w : World) : Prop where
  idle : w.pipeline.slots = {}
  cache : ∀ {key url}, w.pipeline.cache.get? key = some url →
    ∀ n request, request.key = key → uploader n request = .done url

namespace World.Repeats

variable {uploader : Uploader} {w w' : World}

theorem init (uploader : Uploader) : World.Repeats uploader {} := ⟨rfl, nofun⟩

/-- Only the pipeline counts. -/
theorem congr (h : w.Repeats uploader) (hpipeline : w'.pipeline = w.pipeline) :
    w'.Repeats uploader :=
  ⟨hpipeline ▸ h.idle, hpipeline ▸ h.cache⟩

/-- A request for an address comes to what the uploader would answer. -/
theorem address (h : w.Repeats uploader) (hkeyed : uploader.Keyed) (uploads : UploadSettings)
    (kind : AssetKind) (bytes : Bytes) :
    let result := (Pass.address uploader uploads kind bytes).runIn w
    result.1 = uploader.answer uploads ⟨kind, (ContentHash.of bytes).key, bytes⟩ ∧
      result.2.Repeats uploader ∧ result.2.bitmaps = w.bitmaps := by
  dsimp only
  rw [Pass.runIn_address _ _ _ _ h.idle, Uploader.answer]
  split_ifs
  · cases hcache : w.pipeline.cache.get? (ContentHash.of bytes).key with
    | some url =>
      have hsame := h.cache hcache 0 ⟨kind, (ContentHash.of bytes).key, bytes⟩ rfl
      simp only [hcache, hsame, true_and, and_true]
      exact h
    | none =>
      have hsame := hkeyed w.uploads.length 0 ⟨kind, (ContentHash.of bytes).key, bytes⟩ _ rfl
      cases hreply : uploader 0 ⟨kind, (ContentHash.of bytes).key, bytes⟩ with
      | failed | panicked message =>
        simp only [hcache, hsame, hreply, true_and, and_true]
        exact h.congr rfl
      | done url =>
        simp only [hcache, hsame, hreply, true_and, and_true]
        refine ⟨h.idle, fun {key url'} hget n request hkey => ?_⟩
        change (Cache.put _ url _).get? key = some url' at hget
        rw [Cache.get?_put] at hget
        split_ifs at hget with hnew
        · have hanswer := hkeyed n 0 request ⟨kind, (ContentHash.of bytes).key, bytes⟩
            (hkey.trans hnew)
          rw [hanswer, hreply, Option.some.inj hget]
        · exact h.cache hget n request hkey
  · exact ⟨rfl, h, rfl⟩

/-- Two such worlds with the same bitmaps. -/
structure Alike (uploader : Uploader) (w w' : World) : Prop where
  left : w.Repeats uploader
  right : w'.Repeats uploader
  bitmaps : w.bitmaps = w'.bitmaps

end World.Repeats

/-! ## Conversions -/

/-- Conversions do not tell such worlds apart, if the design tool answers every time alike. -/
theorem compatible_repeats {host : Host} {uploader : Uploader} (hkeyed : uploader.Keyed)
    (hhost : ∀ n m request, host.provide n request = host.provide m request) :
    Compatible (World.Repeats.Alike uploader) host (Pass.address uploader)
      (Pass.address uploader) where
  ask request w w' h := by
    rw [Pass.runIn_ask, Pass.runIn_ask, hhost w.exports.length w'.exports.length]
    exact ⟨rfl, h.left.congr rfl, h.right.congr rfl, h.bitmaps⟩
  address uploads kind bytes w w' h := by
    obtain ⟨hvalue, hworld, hbitmaps⟩ := h.left.address hkeyed uploads kind bytes
    obtain ⟨hvalue', hworld', hbitmaps'⟩ := h.right.address hkeyed uploads kind bytes
    refine ⟨hvalue.trans hvalue'.symm, hworld, hworld', ?_⟩
    rw [hbitmaps, hbitmaps', h.bitmaps]
  bitmaps h := h.bitmaps
  remember _ h := ⟨h.left.congr rfl, h.right.congr rfl, rfl⟩

end Artboard
