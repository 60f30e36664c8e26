import Artboard.Conversion.Compile
import Mathlib.Tactic

/-!
# Ignored layers are never looked into

What is inside an ignored layer has no influence on a conversion, as long as vectors are not embedded
and no instruction stands around the layer: the outcome is the same whatever is there, and so is the
world afterwards, with every export and upload that was asked for (`compile_replaceInside`).

Both conditions are needed. A layer that is drawn as one vector is exported with all that is inside
it, and an instruction takes its text from the first text below it, ignored or not.
-/

namespace Artboard

namespace Scene

/-! ## Layers at an address -/

/-- The scene with other layers inside the one at an address. -/
def replaceInside (inside : List Scene) : Address → Scene → Scene
  | [], .node l _ => .node l inside
  | i :: path, .node l children => .node l (children.modify i (replaceInside inside path))

/-- Whether an ignored layer stands at an address, and no instruction around it. -/
def isIgnoredAt : Address → Scene → Bool
  | [], s => s.layer.tag.value = .ignore
  | i :: path, .node l children =>
    !l.tag.value.isPrompt && children[i]?.any (isIgnoredAt path)

theorem isIgnoredAt_cons {i : Nat} {path : Address} {l : Layer} {children : List Scene} :
    isIgnoredAt (i :: path) (.node l children) ↔
      l.tag.value.isPrompt = false ∧ ∃ s, children[i]? = some s ∧ s.isIgnoredAt path := by
  rw [isIgnoredAt, Bool.and_eq_true, Bool.not_eq_true', Option.any_eq_true]

end Scene

namespace Selection

def replaceInside (inside : List Scene) : Address → Selection → Selection
  | [], selection => selection
  | i :: path, selection => selection.modify i (Scene.replaceInside inside path)

def isIgnoredAt : Address → Selection → Bool
  | [], _ => false
  | i :: path, selection => selection[i]?.any (Scene.isIgnoredAt path)

theorem isEmpty_replaceInside (inside : List Scene) (address : Address) (selection : Selection) :
    (selection.replaceInside inside address).isEmpty = selection.isEmpty := by
  cases address with
  | nil => rfl
  | cons i path =>
    rw [Bool.eq_iff_iff, List.isEmpty_iff, List.isEmpty_iff]
    exact List.modify_eq_nil_iff

end Selection

namespace NormalizeContext

variable {cx : NormalizeContext}

/-! ## Normalization -/

/-- What is inside a layer shows in its item only through the text of an instruction. -/
theorem item_congr {l : Layer} (h : l.tag.value.isPrompt = false) (children children' : List Scene)
    (address : Address) (origin : Origin) :
    cx.item (.node l children) address origin = cx.item (.node l children') address origin := by
  unfold item
  simp only [Scene.layer]
  cases htag : l.tag.value with
  | prompt => rw [htag] at h; exact absurd h (by simp [LayerTag.isPrompt])
  | _ => rfl

theorem flattened_of_not_embedding (hvectors : cx.settings.embedVectors = false) (s : Scene)
    (item : Item) : cx.flattened s item = pure none := by
  simp [flattened_eq, flattens, hvectors]

/-- An ignored layer leaves the same node, or none, whatever is inside it. -/
theorem convert_of_ignored {l : Layer} (htag : l.tag.value = .ignore)
    (children children' : List Scene) (depth : Nat) (origin : Origin) (address : Address) :
    cx.convert depth origin address (.node l children) =
      cx.convert depth origin address (.node l children') := by
  have hprompt : l.tag.value.isPrompt = false := by rw [htag]; rfl
  have hsuppressed : (cx.item (.node l children') address origin).value.tag.isSuppressed := by
    simp [item, Scene.layer, htag, LayerTag.isSuppressed]
  rw [convert_node, convert_node, item_congr hprompt children children']
  simp only [hsuppressed, Bool.true_or, if_true]

theorem convertAll_modify {f : Scene → Scene} {scenes : List Scene} {i : Nat} {s : Scene}
    (hi : scenes[i]? = some s)
    (hf : ∀ depth origin address, cx.convert depth origin address (f s) =
      cx.convert depth origin address s)
    (depth : Nat) (origin : Origin) (parent : Address) (position : Nat) :
    cx.convertAll depth origin parent position (scenes.modify i f) =
      cx.convertAll depth origin parent position scenes := by
  induction scenes generalizing i position with
  | nil => simp at hi
  | cons first rest ih =>
    cases i with
    | zero =>
      obtain rfl : first = s := by simpa using hi
      rw [List.modify_zero_cons, convertAll_cons, convertAll_cons, hf]
    | succ i =>
      rw [List.modify_succ_cons, convertAll_cons, convertAll_cons, ih (by simpa using hi)]

/-- The induction goes down the address; only the layers on the way are looked at by their tags. -/
theorem convert_replaceInside (hvectors : cx.settings.embedVectors = false) (inside : List Scene)
    {path : Address} {s : Scene} (h : s.isIgnoredAt path) (depth : Nat) (origin : Origin)
    (address : Address) :
    cx.convert depth origin address (s.replaceInside inside path) =
      cx.convert depth origin address s := by
  induction path generalizing s depth origin address with
  | nil =>
    obtain ⟨l, children⟩ := s
    exact convert_of_ignored (of_decide_eq_true h) inside children depth origin address
  | cons i path ih =>
    obtain ⟨l, children⟩ := s
    obtain ⟨hprompt, child, hi, hchild⟩ := Scene.isIgnoredAt_cons.1 h
    rw [Scene.replaceInside, convert_node, convert_node, item_congr hprompt _ children]
    simp only [flattened_of_not_embedding hvectors,
      convertAll_modify hi fun depth origin address => ih hchild depth origin address]

theorem normalize_replaceInside (hvectors : cx.settings.embedVectors = false)
    (inside : List Scene) {address : Address} {selection : Selection}
    (h : selection.isIgnoredAt address) :
    cx.normalize (selection.replaceInside inside address) = cx.normalize selection := by
  cases address with
  | nil => rfl
  | cons i path =>
    obtain ⟨s, hi, hs⟩ := (Option.any_eq_true _ _).1 h
    simp only [normalize_eq, Selection.replaceInside,
      convertAll_modify hi fun depth origin address => convert_replaceInside hvectors inside hs ..]

end NormalizeContext

namespace Services

/-! ## Conversions -/

/-- **Ignored layers are suppressed with all that is inside them.** Let a layer of the selection,
visible or not, be tagged `#ignore`, let no layer around it be an instruction, and let vectors not
be embedded. Whatever else stands inside the layer, the conversion ends with the same outcome or the
same error, and in the same world: it asks for the same exports and uploads. -/
theorem compile_replaceInside (services : Services) (settings : Settings)
    (options : ConversionOptions) (selection : Selection) (address : Address)
    (inside : List Scene) (w : World) (hvectors : settings.embedVectors = false)
    (h : selection.isIgnoredAt address) :
    services.compile settings options (selection.replaceInside inside address) w =
      services.compile settings options selection w := by
  have hrun : services.run settings options (selection.replaceInside inside address) =
      services.run settings options selection := by
    rw [run_eq, run_eq, NormalizeContext.normalize_replaceInside hvectors inside h]
  rw [compile, compile, Selection.isEmpty_replaceInside, hrun]

/-- A card with a title and ignored notes, inside which a slot and an instruction come to stand. -/
theorem compile_card_with_other_notes :
    let notes : Scene := .node { id := "3", name := " #Ignore notes: old", type := "GROUP" }
      [.node { id := "4", type := "TEXT", characters := "draft" } []]
    let card : Selection := [.node { id := "1", name := "Card", type := "FRAME" }
      [.node { id := "2", name := "Title", type := "TEXT" } [], notes]]
    let inside : List Scene :=
      [.node { id := "5", name := "#slot:img:hero" } [.ofType "6" "VECTOR"],
        .node { id := "7", name := "#prompt as a table", visible := false } []]
    let services := Services.uploading ⟨fun _ => none, fun _ _ => .panicked "no export"⟩
      fun _ _ => .failed
    ({} : Settings).embedVectors = false ∧ card.isIgnoredAt [0, 1] ∧
      services.compile {} {} (card.replaceInside inside [0, 1]) {} =
        services.compile {} {} card {} :=
  ⟨rfl, by decide, compile_replaceInside _ _ _ _ _ _ _ rfl (by decide)⟩

end Services

end Artboard
