import Artboard.Conversion.Session
import Artboard.Proofs.Conversion.Agreement

/-!
# Invariants of conversions

What every export and every request for an address keeps, a whole conversion keeps, panics included
(`Invariant.compile`), and so does a session (`Invariant.run`). That is the agreement of a
conversion with itself.
-/

namespace Artboard

/-- A property of worlds that the services keep, and that is not about bitmaps. -/
structure Invariant (I : World → Prop) (host : Host) (assets : AssetSource) : Prop where
  ask : ∀ request {w}, I w → I ((Pass.ask host request).runIn w).2
  address : ∀ uploads kind bytes {w}, I w → I ((assets uploads kind bytes).runIn w).2
  remember : ∀ {w} bitmaps, I w → I { w with bitmaps }

namespace Invariant

variable {I : World → Prop} {host : Host} {assets : AssetSource}

theorem compatible (h : Invariant I host assets) :
    Compatible (fun w w' => w = w' ∧ I w) host assets assets where
  ask request := by
    rintro w _ ⟨rfl, hw⟩
    exact ⟨rfl, rfl, h.ask request hw⟩
  address uploads kind bytes := by
    rintro w _ ⟨rfl, hw⟩
    exact ⟨rfl, rfl, h.address uploads kind bytes hw⟩
  bitmaps := fun ⟨he, _⟩ => congrArg World.bitmaps he
  remember bitmaps := by
    rintro ⟨he, hw⟩
    exact ⟨he ▸ rfl, h.remember bitmaps hw⟩

/-- **What the services keep, a conversion keeps,** however it ends. -/
theorem compile (h : Invariant I host assets) (s : Settings) (options : ConversionOptions)
    (selection : Selection) {w : World} (hw : I w) :
    I (Services.compile ⟨host, assets⟩ s options selection w).2 := by
  have hself : w.forget = w.forget ∧ I w.forget := ⟨rfl, h.remember [] hw⟩
  obtain ⟨-, -, hworld⟩ := h.compatible.compile s options selection hself
  simpa only [World.forget] using
    h.remember (Services.compile ⟨host, assets⟩ s options selection w).2.bitmaps hworld

theorem take (h : Invariant I host assets) {s : Session} (hs : I s.world) (step : Session.Step) :
    I (s.take ⟨host, assets⟩ step).2.world := by
  cases step with
  | compile options selection => exact h.compile s.settings options selection hs
  | upload kind bytes => exact h.address s.settings.uploads kind bytes hs
  | edit | replace => exact hs

theorem run (h : Invariant I host assets) {s : Session} (hs : I s.world)
    (steps : List Session.Step) : I (s.run ⟨host, assets⟩ steps).2.world := by
  induction steps generalizing s with
  | nil => exact hs
  | cons step rest ih => exact ih (h.take hs step)

end Invariant

end Artboard
