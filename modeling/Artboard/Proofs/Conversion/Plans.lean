import Artboard.Conversion.Compile

/-!
# What plans depend on

A plan names its errands and leaves it to others to carry them out. So the plan of a conversion is
the same whatever the source of assets (`Services.plan_assets`).
-/

namespace Artboard

variable (s : Settings) (host : Host) (assets assets' : AssetSource)

namespace NormalizeContext

mutual

theorem convertPlan_assets (depth : Nat) (origin : Origin) (address : Address) (scene : Scene) :
    convertPlan ⟨s, host, assets⟩ depth origin address scene =
      convertPlan ⟨s, host, assets'⟩ depth origin address scene := by
  match scene with
  | .node l children =>
    rw [convertPlan, convertPlan]
    simp only [convertAllPlan_assets _ _ address 0 children]
    rfl

theorem convertAllPlan_assets (depth : Nat) (origin : Origin) (parent : Address) (position : Nat)
    (scenes : List Scene) :
    convertAllPlan ⟨s, host, assets⟩ depth origin parent position scenes =
      convertAllPlan ⟨s, host, assets'⟩ depth origin parent position scenes := by
  match scenes with
  | [] => rfl
  | scene :: rest =>
    rw [convertAllPlan, convertAllPlan, convertPlan_assets depth origin _ scene,
      convertAllPlan_assets depth origin parent (position + 1) rest]

end

end NormalizeContext

namespace EmitContext

variable (images : ImageMode)

mutual

theorem emitPlan_assets (parent : ParentContext) (n : Node) :
    emitPlan ⟨s, host, assets, images⟩ parent n =
      emitPlan ⟨s, host, assets', images⟩ parent n := by
  match n with
  | .node item children =>
    rw [emitPlan, emitPlan]
    simp only [emitAllPlan_assets (.inside item) children]
    rfl

theorem emitAllPlan_assets (parent : ParentContext) (nodes : List Node) :
    emitAllPlan ⟨s, host, assets, images⟩ parent nodes =
      emitAllPlan ⟨s, host, assets', images⟩ parent nodes := by
  match nodes with
  | [] => rfl
  | n :: rest =>
    rw [emitAllPlan, emitAllPlan, emitPlan_assets parent n, emitAllPlan_assets parent rest]

end

end EmitContext

namespace Services

theorem drawPlan_assets (options : ConversionOptions) (nodes : Warned (List Node)) :
    drawPlan ⟨host, assets⟩ s options nodes = drawPlan ⟨host, assets'⟩ s options nodes := by
  simp only [drawPlan, Preview.plan, EmitContext.emitRootsPlan, emitting, Preview.context,
    EmitContext.emitAllPlan_assets _ _ assets assets']
  rfl

/-- **The plan of a conversion does not depend on where its assets come from.** -/
theorem plan_assets (options : ConversionOptions) (selection : Selection) :
    plan ⟨host, assets⟩ s options selection = plan ⟨host, assets'⟩ s options selection := by
  simp only [plan, NormalizeContext.normalizePlan, normalizing,
    NormalizeContext.convertAllPlan_assets _ _ assets assets',
    drawPlan_assets s host assets assets']

end Services

end Artboard
