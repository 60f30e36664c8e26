import Artboard.Conversion.World

/-!
# Plans

A plan says what a conversion does, and which parts of it may go on side by side. It waits for
errands: exports, bitmaps and addresses of assets. What it does between them takes no time.

`Plan.inOrder` carries a plan out one part after the other, as a `Pass`.
-/

namespace Artboard

open Text (Bytes)

/-- Something that a plan waits for, with what comes of it. -/
inductive Errand : Type → Type where
  | ask (request : ExportRequest) : Errand (Option Bytes)
  | bitmap (item : Item) (withChildren : Bool) : Errand (Option Bytes)
  | address (uploads : UploadSettings) (kind : AssetKind) (bytes : Bytes) : Errand (Option String)

/-- The errand as a computation that nothing comes between. -/
def Errand.inOrder (host : Host) (assets : AssetSource) {α : Type} : Errand α → Pass α
  | .ask request => Pass.ask host request
  | .bitmap item withChildren => Pass.bitmap host item withChildren
  | .address uploads kind bytes => assets uploads kind bytes

inductive Plan : Type → Type 1 where
  | done {α : Type} (value : α) : Plan α
  | await {α β : Type} (errand : Errand β) (next : β → Plan α) : Plan α
  /-- Two parts side by side, and what follows when both are done. -/
  | both {α β γ : Type} (left : Plan β) (right : Plan γ) (next : β → γ → Plan α) : Plan α

namespace Plan

def bind {α β : Type} : Plan α → (α → Plan β) → Plan β
  | .done a, f => f a
  | .await errand next, f => .await errand fun b => (next b).bind f
  | .both left right next, f => .both left right fun b c => (next b c).bind f

instance : Monad Plan where
  pure := .done
  bind := Plan.bind

/-- The plan of a single errand. -/
def errand {α : Type} (errand : Errand α) : Plan α := .await errand .done

/-- Carries out the plan one part after the other, the left one first. -/
def inOrder (host : Host) (assets : AssetSource) {α : Type} : Plan α → Pass α
  | .done a => pure a
  | .await errand next => do
    let b ← errand.inOrder host assets
    (next b).inOrder host assets
  | .both left right next => do
    let b ← left.inOrder host assets
    let c ← right.inOrder host assets
    (next b c).inOrder host assets

/-! ## In order -/

section InOrder

variable (host : Host) (assets : AssetSource) {α β : Type}

@[simp] theorem inOrder_pure (a : α) :
    (pure a : Plan α).inOrder host assets = pure a := rfl

@[simp] theorem inOrder_bind (p : Plan α) (f : α → Plan β) :
    (p >>= f).inOrder host assets =
      p.inOrder host assets >>= fun a => (f a).inOrder host assets := by
  induction p with
  | done a => exact (pure_bind a fun a => (f a).inOrder host assets).symm
  | await errand next ih =>
    show (errand.inOrder host assets >>= fun b => (next b >>= f).inOrder host assets) = _
    simp only [ih]
    exact (bind_assoc _ _ _).symm
  | both left right next _ _ ih =>
    show (left.inOrder host assets >>= fun b => right.inOrder host assets >>= fun c =>
      (next b c >>= f).inOrder host assets) = _
    simp only [ih, inOrder, bind_assoc]

@[simp] theorem inOrder_errand (e : Errand α) :
    (errand e).inOrder host assets = e.inOrder host assets := bind_pure _

end InOrder

end Plan

end Artboard
