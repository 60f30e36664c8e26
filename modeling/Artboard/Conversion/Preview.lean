import Artboard.Conversion.Emit

/-!
# Preview

The preview is plain HTML with every image embedded. Instructions are left out before anything is
drawn, and so are class prefix and layer names.
-/

namespace Artboard

/-- The preview of a selection, with the size of the box around its roots. -/
structure Preview where
  width : Float
  height : Float
  content : String
deriving Repr, DecidableEq

namespace Preview

/-- The settings of a conversion as they apply to its preview. -/
def settings (s : Settings) : Settings :=
  { s with mode := .html, classPrefix := "", showLayerNames := false }

def context (s : Settings) (host : Host) (assets : AssetSource) : EmitContext :=
  ⟨settings s, host, assets, .preview⟩

/-- The box around the roots, instructions among them included. -/
def bounds (roots : List Node) : Option Rect :=
  Rect.hull (roots.map fun n => n.item.geometry.rect)

def plan (s : Settings) (host : Host) (assets : AssetSource) (roots : List Node) :
    Plan Preview := do
  let cx := context s host assets
  let fragment ← cx.emitRootsPlan (Node.dropPrompts roots)
  let content := cx.write fragment.markup
  match bounds roots with
  | some box => pure ⟨box.width, box.height, content⟩
  | none => pure ⟨0, 0, content⟩

/-- The preview of some roots, one after the other. -/
def ofNodes (s : Settings) (host : Host) (assets : AssetSource) (roots : List Node) :
    Pass Preview :=
  (plan s host assets roots).inOrder host assets

theorem ofNodes_eq (s : Settings) (host : Host) (assets : AssetSource) (roots : List Node) :
    ofNodes s host assets roots = (do
      let cx := context s host assets
      let fragment ← cx.emitRoots (Node.dropPrompts roots)
      let content := cx.write fragment.markup
      match bounds roots with
      | some box => pure ⟨box.width, box.height, content⟩
      | none => pure ⟨0, 0, content⟩) := by
  rw [ofNodes, plan]
  dsimp only
  rw [Plan.inOrder_bind]
  refine bind_congr fun fragment => ?_
  cases bounds roots <;> rfl

end Preview

end Artboard
