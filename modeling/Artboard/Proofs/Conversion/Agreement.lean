import Artboard.Proofs.Conversion.Passes
import Artboard.Proofs.Conversion.Plans

/-!
# Conversions that agree

Two sources of assets that give the same addresses, in worlds that are related in some way, lead to
the same conversions, and to related worlds again (`Compatible.compile`).

**Representation.** `Pass.Agree R p p'` says of two computations that they do so. Agreement follows
the structure of a computation (`Agree.bind`), so it goes up from the services to errands and to
plans of any kind (`Compatible.inOrder`).
-/

namespace Artboard

variable {R : World → World → Prop} {α β : Type}

namespace Pass

/-! ## Agreement -/

/-- From related worlds two computations come to the same value or panic, and to related worlds. -/
def Agree (R : World → World → Prop) (p p' : Pass α) : Prop :=
  ∀ w w', R w w' → (p.runIn w).1 = (p'.runIn w').1 ∧ R (p.runIn w).2 (p'.runIn w').2

namespace Agree

variable {p p' : Pass α} {f f' : α → Pass β}

theorem pure (a : α) : Agree R (pure a) (pure a) := fun _ _ h => ⟨rfl, h⟩

theorem bind (h : Agree R p p') (hf : ∀ a, Agree R (f a) (f' a)) :
    Agree R (p >>= f) (p' >>= f') := by
  intro w w' hw
  obtain ⟨hvalue, hworld⟩ := h w w' hw
  rw [runIn_bind, runIn_bind]
  rcases hp : p.runIn w with ⟨value, v⟩
  rcases hp' : p'.runIn w' with ⟨value', v'⟩
  rw [hp, hp'] at hvalue hworld
  obtain rfl : value = value' := hvalue
  cases value with
  | ok a => exact hf a v v' hworld
  | error panic => exact ⟨rfl, hworld⟩

end Agree

end Pass

/-! ## Services -/

/-- A world without the bitmaps of earlier conversions. -/
def World.forget (w : World) : World := { w with bitmaps := [] }

/-- Two sources of assets, and worlds that conversions cannot tell apart. -/
structure Compatible (R : World → World → Prop) (host : Host) (assets assets' : AssetSource) :
    Prop where
  ask : ∀ request, Pass.Agree R (Pass.ask host request) (Pass.ask host request)
  address : ∀ uploads kind bytes,
    Pass.Agree R (assets uploads kind bytes) (assets' uploads kind bytes)
  bitmaps : ∀ {w w'}, R w w' → w.bitmaps = w'.bitmaps
  remember : ∀ {w w'} bitmaps, R w w' → R { w with bitmaps } { w' with bitmaps }

namespace Compatible

open Pass

variable {host : Host} {assets assets' : AssetSource}

theorem bitmap (h : Compatible R host assets assets') (item : Item) (withChildren : Bool) :
    Agree R (Pass.bitmap host item withChildren) (Pass.bitmap host item withChildren) := by
  intro w w' hw
  rw [runIn_bitmap, runIn_bitmap, h.bitmaps hw]
  cases w'.bitmaps.lookup (item.address, withChildren) with
  | some known => exact ⟨rfl, hw⟩
  | none =>
    obtain ⟨hvalue, hworld⟩ := h.ask ⟨item.id, .png withChildren⟩ w w' hw
    rcases hp : (Pass.ask host ⟨item.id, .png withChildren⟩).runIn w with ⟨value, v⟩
    rcases hp' : (Pass.ask host ⟨item.id, .png withChildren⟩).runIn w' with ⟨value', v'⟩
    rw [hp, hp'] at hvalue hworld
    obtain rfl : value = value' := hvalue
    cases value with
    | ok bytes =>
      refine ⟨rfl, ?_⟩
      show R { v with bitmaps := _ :: v.bitmaps } { v' with bitmaps := _ :: v'.bitmaps }
      rw [h.bitmaps hworld]
      exact h.remember _ hworld
    | error panic => exact ⟨rfl, hworld⟩

theorem errand (h : Compatible R host assets assets') {β : Type} (e : Errand β) :
    Agree R (e.inOrder host assets) (e.inOrder host assets') := by
  cases e with
  | ask request => exact h.ask request
  | bitmap item withChildren => exact h.bitmap item withChildren
  | address uploads kind bytes => exact h.address uploads kind bytes

/-- Errands in agreement make whole plans agree. -/
theorem inOrder (h : Compatible R host assets assets') (plan : Plan α) :
    Agree R (plan.inOrder host assets) (plan.inOrder host assets') := by
  induction plan with
  | done a => exact .pure a
  | await e next ih => exact (h.errand e).bind ih
  | both left right next ihleft ihright ih =>
    exact ihleft.bind fun b => ihright.bind fun c => ih b c

theorem run (h : Compatible R host assets assets') (s : Settings) (options : ConversionOptions)
    (selection : Selection) :
    Agree R (Services.run ⟨host, assets⟩ s options selection)
      (Services.run ⟨host, assets'⟩ s options selection) := by
  rw [Services.run, Services.run, Services.plan_assets s host assets assets']
  exact h.inOrder _

/-- **Compatible sources lead to the same conversions,** whatever bitmaps were asked for in earlier
ones. -/
theorem compile (h : Compatible R host assets assets') (s : Settings) (options : ConversionOptions)
    (selection : Selection) {w w' : World} (hw : R w.forget w'.forget) :
    let result := Services.compile ⟨host, assets⟩ s options selection w
    let result' := Services.compile ⟨host, assets'⟩ s options selection w'
    result.1 = result'.1 ∧ R result.2.forget result'.2.forget := by
  intro result result'
  simp only [result, result', Services.compile]
  split_ifs
  · exact ⟨rfl, hw⟩
  · obtain ⟨hvalue, hworld⟩ := h.run s options selection _ _ hw
    rcases hp : (Services.run ⟨host, assets⟩ s options selection).runIn w.forget with ⟨value, v⟩
    rcases hp' : (Services.run ⟨host, assets'⟩ s options selection).runIn w'.forget
      with ⟨value', v'⟩
    rw [hp, hp'] at hvalue hworld
    obtain rfl : value = value' := hvalue
    rw [World.forget] at hp hp'
    rw [hp, hp']
    rcases value with _ | _ | _ <;> exact ⟨rfl, h.remember [] hworld⟩

end Compatible

end Artboard
