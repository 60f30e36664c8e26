import Artboard.Proofs.Conversion.Drawings
import Artboard.Proofs.Style.Backgrounds

/-!
# Images in markup

An element shows an image if it is an `img` with a source, or if it has a background image. The
images of a tree are listed in the order in which their elements end, so those inside an element
come before its own. What stands in the markup as it was exported, a drawn vector, is not looked
into.
-/

namespace Artboard

namespace Markup

variable {σ τ : Type}

/-- An image, and the node of the element that shows it. -/
structure Depiction where
  source : Address
  url : String
  isBackground : Bool
deriving Repr, DecidableEq

/-- The address in an attribute, if that is a source. -/
def Attribute.src? : Attribute → Option String
  | ("src", .text url) => some url
  | _ => none

/-- The images of an element itself, the addresses of its background images being read off its
style. -/
def Head.depictions (backgrounds : σ → List String) (h : Head σ) : List Depiction :=
  (if h.tag = "img" then (h.before ++ h.after).filterMap Attribute.src? else []).map
      (⟨h.source, ·, false⟩) ++
    (backgrounds h.style).map (⟨h.source, ·, true⟩)

/-- The background images of the runs of a text. -/
def Content.depictions (backgrounds : σ → List String) (source : Address) (c : Content σ) :
    List Depiction :=
  (c.styles.flatMap backgrounds).map (⟨source, ·, true⟩)

mutual

/-- The images in some markup. -/
def depictions (backgrounds : σ → List String) : Markup σ → List Depiction
  | .comment _ => []
  | .leaf head content => content.depictions backgrounds head.source ++ head.depictions backgrounds
  | .parent head children => depictionsOfAll backgrounds children ++ head.depictions backgrounds

def depictionsOfAll (backgrounds : σ → List String) : List (Markup σ) → List Depiction
  | [] => []
  | m :: rest => m.depictions backgrounds ++ depictionsOfAll backgrounds rest

end

variable (backgrounds : τ → List String)

@[simp] theorem depictionsOfAll_append (markup others : List (Markup τ)) :
    depictionsOfAll backgrounds (markup ++ others) =
      depictionsOfAll backgrounds markup ++ depictionsOfAll backgrounds others := by
  induction markup with
  | nil => rfl
  | cons m rest ih => rw [List.cons_append, depictionsOfAll, depictionsOfAll, ih, List.append_assoc]

@[simp] theorem depictionsOfAll_singleton (m : Markup τ) :
    depictionsOfAll backgrounds [m] = m.depictions backgrounds := by
  rw [depictionsOfAll, depictionsOfAll, List.append_nil]

theorem depictions_wrap (head : Head τ) (inside : List (Markup τ)) :
    (wrap head inside).depictions backgrounds =
      depictionsOfAll backgrounds inside ++ head.depictions backgrounds := by
  cases inside <;> rfl

theorem styles_map (f : σ → τ) (c : Content σ) : (c.map f).styles = c.styles.map f := by
  cases c with
  | empty | block => rfl
  | spans parts =>
    simp only [Content.map, Content.styles, List.filterMap_map, List.map_filterMap]
    refine List.filterMap_congr fun s _ => ?_
    cases s with
    | mk wrapper text => cases wrapper <;> rfl

mutual

/-- The images of written markup are read off the styles that it is written from. -/
theorem depictions_map (f : σ → τ) (m : Markup σ) :
    (m.map f).depictions backgrounds = m.depictions (backgrounds ∘ f) := by
  match m with
  | .comment _ => rfl
  | .leaf head content =>
    rw [map, depictions, depictions, Content.depictions, Content.depictions, styles_map,
      List.flatMap_map]
    rfl
  | .parent head children =>
    rw [map, depictions, depictions, depictionsOfAll_mapAll f children]
    rfl

theorem depictionsOfAll_mapAll (f : σ → τ) (markup : List (Markup σ)) :
    depictionsOfAll backgrounds (mapAll f markup) = depictionsOfAll (backgrounds ∘ f) markup := by
  match markup with
  | [] => rfl
  | m :: rest =>
    rw [mapAll, depictionsOfAll, depictionsOfAll, depictions_map f m, depictionsOfAll_mapAll f rest]

end

end Markup

/-- The images in some markup as it is written. -/
def EmitContext.depictions (cx : EmitContext) (markup : List (Markup Style)) :
    List Markup.Depiction :=
  Markup.depictionsOfAll (Markup.Classes.imageUrls cx.settings.classPrefix)
    (Markup.mapAll (Style.resolve cx.settings) markup)

theorem EmitContext.depictions_eq (cx : EmitContext) (markup : List (Markup Style)) :
    cx.depictions markup = Markup.depictionsOfAll (Style.imageUrls cx.settings) markup :=
  Markup.depictionsOfAll_mapAll _ _ markup

end Artboard
