import Artboard.Proofs.Markup.Indentation
import Artboard.Proofs.Markup.Trees

/-!
# Markup among other markup

**In a row.** Each piece of markup begins with a line feed and has no second one behind it. So
pieces in a row are written one below the other, and the same holds of whole documents
(`Markup.document_append`).

**At one place.** `Markup.Context` is a list of pieces with a place in it, at any depth, where one
more piece can stand. It is written the same whatever stands there
(`Markup.Context.exists_renderAll_fill`).
-/

namespace Artboard

/-! ## In a row -/

/-- One text below the other, with nothing in between if one of them is empty. -/
def joinLines (a b : String) : String :=
  if a = "" then b else if b = "" then a else a ++ "\n" ++ b

namespace Markup

theorem renderAll_append (mode : Mode) (markup others : List (Markup Classes)) :
    renderAll mode (markup ++ others) = renderAll mode markup ++ renderAll mode others := by
  induction markup with
  | nil => rfl
  | cons m rest ih => rw [List.cons_append, renderAll, renderAll, ih, List.append_assoc]

theorem mapAll_append {σ τ : Type} (f : σ → τ) (markup others : List (Markup σ)) :
    mapAll f (markup ++ others) = mapAll f markup ++ mapAll f others := by
  induction markup with
  | nil => rfl
  | cons m rest ih => rw [List.cons_append, mapAll, mapAll, ih, List.cons_append]

/-- Markup is a line feed and the document, which is not empty. -/
theorem exists_renderAll_eq (mode : Mode) {markup : List (Markup Classes)} (h : markup ≠ []) :
    ∃ c cs, c ≠ '\n' ∧ renderAll mode markup = '\n' :: c :: cs ∧
      document mode markup = String.ofList (c :: cs) := by
  cases markup with
  | nil => exact absurd rfl h
  | cons m rest =>
    obtain ⟨c, cs, hrender, hc⟩ := exists_render_eq mode m
    have hall : renderAll mode (m :: rest) = '\n' :: c :: (cs ++ renderAll mode rest) := by
      rw [renderAll, hrender]
      rfl
    refine ⟨c, cs ++ renderAll mode rest, hc, hall, ?_⟩
    rw [document, hall]
    simp [hc]

theorem document_append (mode : Mode) (markup others : List (Markup Classes)) :
    document mode (markup ++ others) =
      joinLines (document mode markup) (document mode others) := by
  have hnil : document mode [] = "" := rfl
  by_cases hmarkup : markup = []
  · rw [hmarkup, List.nil_append, hnil, joinLines, if_pos rfl]
  by_cases hothers : others = []
  · rw [hothers, List.append_nil, hnil, joinLines, if_pos rfl]
    split_ifs with hempty
    · exact hempty
    · rfl
  obtain ⟨c, cs, hc, hrender, hdocument⟩ := exists_renderAll_eq mode hmarkup
  obtain ⟨d, ds, -, hrender', hdocument'⟩ := exists_renderAll_eq mode hothers
  have hne (c : Char) (cs : List Char) : String.ofList (c :: cs) ≠ "" := by
    intro h
    have hlist := congrArg String.toList h
    simp at hlist
  rw [hdocument, hdocument', joinLines, if_neg (hne c cs), if_neg (hne d ds), document,
    renderAll_append, hrender, hrender']
  have hdrop : ('\n' :: c :: cs ++ '\n' :: d :: ds).dropWhile (· == '\n') =
      (c :: cs) ++ ['\n'] ++ (d :: ds) := by
    simp [hc]
  rw [hdrop, String.ofList_append, String.ofList_append]

/-! ## At one place -/

/-- Pieces of markup with a place among them, or inside one of them. -/
inductive Context (σ : Type) where
  | here (before after : List (Markup σ))
  | inside (before : List (Markup σ)) (head : Head σ) (inner : Context σ) (after : List (Markup σ))

theorem renderAll_mapAll_append_cons {σ : Type} (mode : Mode) (f : σ → Classes)
    (before after : List (Markup σ)) (m : Markup σ) :
    renderAll mode (mapAll f (before ++ m :: after)) =
      renderAll mode (mapAll f before) ++ (m.map f).render mode ++
        renderAll mode (mapAll f after) := by
  rw [mapAll_append, mapAll, renderAll_append, renderAll, List.append_assoc]

namespace Context

variable {σ : Type}

/-- The pieces with one more at the place. -/
def fill : Context σ → Markup σ → List (Markup σ)
  | here before after, m => before ++ m :: after
  | inside before head inner after, m => before ++ .parent head (inner.fill m) :: after

/-- How many elements there are around the place. -/
def depth : Context σ → Nat
  | here _ _ => 0
  | inside _ _ inner _ => inner.depth + 1

/-- More pieces in front. -/
def prepend (markup : List (Markup σ)) : Context σ → Context σ
  | here before after => here (markup ++ before) after
  | inside before head inner after => inside (markup ++ before) head inner after

/-- More pieces behind. -/
def append (markup : List (Markup σ)) : Context σ → Context σ
  | here before after => here before (after ++ markup)
  | inside before head inner after => inside before head inner (after ++ markup)

@[simp] theorem fill_prepend (markup : List (Markup σ)) (c : Context σ) (m : Markup σ) :
    (c.prepend markup).fill m = markup ++ c.fill m := by
  cases c <;> simp [prepend, fill]

@[simp] theorem fill_append (markup : List (Markup σ)) (c : Context σ) (m : Markup σ) :
    (c.append markup).fill m = c.fill m ++ markup := by
  cases c <;> simp [append, fill]

/-- A document with a place in it is all its markup, but for the line feed in front. -/
theorem cons_document_fill (mode : Mode) (f : σ → Classes) (c : Context σ) (m : Markup σ) :
    '\n' :: (document mode (mapAll f (c.fill m))).toList =
      renderAll mode (mapAll f (c.fill m)) := by
  have hne : mapAll f (c.fill m) ≠ [] := by
    cases c <;> simp [fill, mapAll_append, mapAll]
  obtain ⟨first, rest, -, hrender, hdocument⟩ := exists_renderAll_eq mode hne
  rw [hdocument, hrender, String.toList_ofList]

theorem isEmpty_fill (c : Context σ) (m : Markup σ) : (c.fill m).isEmpty = false := by
  cases c <;> simp [fill]

/-- **What stands at the place is written between texts that do not depend on it,** indented by the
elements around it. If all the markup is sound, a reader gets over the text in front of it. -/
theorem exists_renderAll_fill (mode : Mode) (f : σ → Classes) (c : Context σ) :
    ∃ before after, (∀ m, renderAll mode (mapAll f (c.fill m)) =
        before ++ indent^[c.depth] ((m.map f).render mode) ++ after) ∧
      ∀ m, (∀ n ∈ mapAll f (c.fill m), n.IsSound mode) →
        ∃ ts, Reads mode .text before ts .text := by
  have hfirst {before after : List (Markup σ)} {m : Markup σ}
      (hsound : ∀ n ∈ mapAll f (before ++ m :: after), n.IsSound mode) :
      Reads mode .text (renderAll mode (mapAll f before)) (tokensAll mode (mapAll f before)) .text ∧
        (m.map f).IsSound mode := by
    rw [mapAll_append, mapAll, List.forall_mem_append, List.forall_mem_cons] at hsound
    exact ⟨reads_renderAll fun n hn => (hsound.1 n hn).reads_render, hsound.2.1⟩
  induction c with
  | here before after =>
    exact ⟨_, _, fun m => renderAll_mapAll_append_cons mode f before after m,
      fun m hsound => ⟨_, (hfirst hsound).1⟩⟩
  | inside before head inner after ih =>
    obtain ⟨first, last, hinner, hread⟩ := ih
    let start := "\n<".toList ++ head.tag.toList ++
      renderAttributes mode ((head.map f).attributes mode) ++ ['>']
    refine ⟨renderAll mode (mapAll f before) ++ start ++ indent first,
      indent last ++ '\n' :: endTag head.tag ++ renderAll mode (mapAll f after), fun m => ?_,
      fun m hsound => ?_⟩
    · have hparent : ((Markup.parent head (inner.fill m)).map f).render mode =
          start ++ indent first ++ indent^[inner.depth + 1] ((m.map f).render mode) ++
            indent last ++ '\n' :: endTag head.tag := by
        rw [map, render, hinner, renderElement, renderBody, indent_append, indent_append,
          Function.iterate_succ_apply']
        simp [start, Head.map]
      rw [fill, renderAll_mapAll_append_cons, hparent]
      simp only [depth, List.append_assoc]
    · obtain ⟨hbefore, hparent⟩ := hfirst hsound
      rw [map] at hparent
      cases hparent with
      | parent hhead hchildren =>
        obtain ⟨ts, hts⟩ := hread m hchildren
        obtain ⟨q, hstart, hq⟩ := hhead.exists_reads
        exact ⟨_, (hbefore.append (hstart.append hq.reads_end)).append hts.indented⟩

end Context

end Markup

end Artboard
