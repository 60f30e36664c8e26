import Artboard.Conversion.Compile
import Mathlib.Data.List.Basic

/-!
# What reports hold

The warnings of a conversion are the messages of normalization and of the code, each once. The
tokens of its colours are those of all colours of its items.
-/

namespace Artboard

/-! ## Messages -/

theorem mem_dedupAfter {messages seen : List String} {m : String} :
    m ∈ dedupAfter seen messages ↔ m ∈ messages ∧ m ∉ seen := by
  induction messages generalizing seen with
  | nil => simp [dedupAfter]
  | cons first rest ih =>
    rw [dedupAfter]
    by_cases hseen : seen.contains first = true
    · rw [if_pos hseen, ih, List.mem_cons]
      constructor
      · exact fun ⟨hrest, hnew⟩ => ⟨.inr hrest, hnew⟩
      · rintro ⟨rfl | hrest, hnew⟩
        · exact absurd (List.contains_iff_mem.1 hseen) hnew
        · exact ⟨hrest, hnew⟩
    · have hfirst : first ∉ seen := fun h => hseen (List.contains_iff_mem.2 h)
      rw [if_neg hseen, List.mem_cons, List.mem_cons, ih, List.mem_cons]
      constructor
      · rintro (rfl | ⟨hrest, hnew⟩)
        · exact ⟨.inl rfl, hfirst⟩
        · exact ⟨.inr hrest, fun h => hnew (.inr h)⟩
      · rintro ⟨rfl | hrest, hnew⟩
        · exact .inl rfl
        · by_cases heq : m = first
          · exact .inl heq
          · exact .inr ⟨hrest, fun h => h.elim heq hnew⟩

theorem nodup_dedupAfter (seen messages : List String) : (dedupAfter seen messages).Nodup := by
  induction messages generalizing seen with
  | nil => exact List.nodup_nil
  | cons first rest ih =>
    rw [dedupAfter]
    by_cases hseen : seen.contains first = true
    · rw [if_pos hseen]
      exact ih seen
    · rw [if_neg hseen, List.nodup_cons]
      refine ⟨fun hmem => ?_, ih (first :: seen)⟩
      exact (mem_dedupAfter.1 hmem).2 List.mem_cons_self

@[simp] theorem mem_dedup {messages : List String} {m : String} :
    m ∈ dedup messages ↔ m ∈ messages := by
  simp [dedup, mem_dedupAfter]

theorem nodup_dedup (messages : List String) : (dedup messages).Nodup :=
  nodup_dedupAfter [] messages

/-! ## Places in lists -/

section Places

variable {α β : Type}

/-- A place in a list is the first one, or one behind it. -/
theorem exists_eq_append_cons_iff {first a : α} {rest : List α} {p : List α → Prop} :
    (∃ before after, first :: rest = before ++ a :: after ∧ p before) ↔
      (first = a ∧ p []) ∨ ∃ before after, rest = before ++ a :: after ∧ p (first :: before) := by
  constructor
  · rintro ⟨before, after, heq, h⟩
    rcases List.cons_eq_append_iff.1 heq with ⟨rfl, heq⟩ | ⟨before, rfl, hrest⟩
    · exact .inl ⟨(List.cons.inj heq).1, h⟩
    · exact .inr ⟨before, after, hrest, h⟩
  · rintro (⟨rfl, h⟩ | ⟨before, after, rfl, h⟩)
    · exact ⟨[], rest, rfl, h⟩
    · exact ⟨first :: before, after, rfl, h⟩

/-- A place in joined lists is a place in one of them. -/
theorem exists_of_flatMap_eq_append_cons {f : α → List β} {l : List α} {before after : List β}
    {b : β} (h : l.flatMap f = before ++ b :: after) :
    ∃ earlier a later inner rest, l = earlier ++ a :: later ∧ f a = inner ++ b :: rest ∧
      before = earlier.flatMap f ++ inner := by
  induction l generalizing before with
  | nil => simp at h
  | cons first l ih =>
    rw [List.flatMap_cons] at h
    rcases List.append_eq_append_iff.1 h with ⟨before, rfl, hrest⟩ | ⟨tail, hfirst, htail⟩
    · obtain ⟨earlier, a, later, inner, rest, rfl, ha, rfl⟩ := ih hrest
      exact ⟨first :: earlier, a, later, inner, rest, rfl, ha, by simp⟩
    · cases tail with
      | nil =>
        have hrest : l.flatMap f = [] ++ b :: after := htail.symm
        obtain ⟨earlier, a, later, inner, rest, rfl, ha, hnil⟩ := ih hrest
        refine ⟨first :: earlier, a, later, inner, rest, rfl, ha, ?_⟩
        rw [List.flatMap_cons, List.append_assoc, ← hnil, hfirst]
        simp
      | cons b' tail =>
        obtain ⟨rfl, -⟩ := List.cons.inj htail
        exact ⟨[], first, l, before, tail, rfl, hfirst, rfl⟩

end Places

/-! ## Colours -/

namespace ColorEntry

/-- Entries are left out only for others with the same token. -/
theorem mem_tokens_firstOnly {seen entries : List ColorEntry} {token : String} :
    token ∈ (firstOnly seen entries).map (·.token) ↔
      token ∈ seen.map (·.token) ∨ token ∈ entries.map (·.token) := by
  induction entries generalizing seen with
  | nil => simp [firstOnly]
  | cons entry rest ih =>
    rw [firstOnly]
    by_cases hseen : (seen.map (·.token)).contains entry.token = true
    · have hmem : entry.token ∈ seen.map (·.token) := List.contains_iff_mem.1 hseen
      rw [if_pos hseen, ih, List.map_cons, List.mem_cons]
      constructor
      · exact fun h => h.imp_right .inr
      · rintro (h | rfl | h)
        · exact .inl h
        · exact .inl hmem
        · exact .inr h
    · rw [if_neg hseen, ih, List.map_cons, List.map_cons, List.mem_cons, List.mem_cons]
      tauto

theorem insertByHex_perm (entry : ColorEntry) (entries : List ColorEntry) :
    (insertByHex entry entries).Perm (entry :: entries) := by
  induction entries with
  | nil => exact List.Perm.refl _
  | cons e rest ih =>
    rw [insertByHex]
    split_ifs
    · exact List.Perm.refl _
    · exact (ih.cons e).trans (List.Perm.swap entry e rest)

theorem sortByHex_perm (entries : List ColorEntry) : (sortByHex entries).Perm entries := by
  induction entries with
  | nil => exact List.Perm.refl _
  | cons entry rest ih => exact (insertByHex_perm entry _).trans (ih.cons entry)

/-- An entry is kept iff no entry before it has its token. -/
theorem mem_firstOnly_iff {seen entries : List ColorEntry} {entry : ColorEntry} :
    entry ∈ firstOnly seen entries ↔ entry ∈ seen ∨ ∃ before after,
      entries = before ++ entry :: after ∧ entry.token ∉ (seen ++ before).map (·.token) := by
  induction entries generalizing seen with
  | nil => simp [firstOnly]
  | cons first rest ih =>
    rw [firstOnly, exists_eq_append_cons_iff, List.append_nil]
    by_cases hseen : (seen.map (·.token)).contains first.token = true
    · have hmem : first.token ∈ seen.map (·.token) := List.contains_iff_mem.1 hseen
      have hsame (before : List ColorEntry) : entry.token ∈ (seen ++ before).map (·.token) ↔
          entry.token ∈ (seen ++ first :: before).map (·.token) := by
        rw [List.map_append, List.map_append, List.map_cons, List.mem_append, List.mem_append,
          List.mem_cons]
        refine ⟨Or.imp_right .inr, ?_⟩
        rintro (h | heq | h)
        · exact .inl h
        · exact .inl (heq ▸ hmem)
        · exact .inr h
      have hdropped : ¬(first = entry ∧ entry.token ∉ seen.map (·.token)) :=
        fun ⟨heq, htoken⟩ => htoken (heq ▸ hmem)
      rw [if_pos hseen, ih, or_iff_right hdropped]
      exact or_congr_right
        (exists₂_congr fun before _ => and_congr_right' (not_congr (hsame before)))
    · have hmem : first.token ∉ seen.map (·.token) := fun h => hseen (List.contains_iff_mem.2 h)
      have hsame (before : List ColorEntry) :
          entry.token ∈ (first :: seen ++ before).map (·.token) ↔
            entry.token ∈ (seen ++ first :: before).map (·.token) :=
        (List.perm_middle.symm.map _).mem_iff
      have hkept : (first = entry ∧ entry.token ∉ seen.map (·.token)) ↔ entry = first :=
        ⟨fun h => h.1.symm, fun h => ⟨h.symm, h ▸ hmem⟩⟩
      rw [if_neg hseen, ih, List.mem_cons, hkept, or_comm (a := entry = first), or_assoc]
      exact or_congr_right (or_congr_right
        (exists₂_congr fun before _ => and_congr_right' (not_congr (hsame before))))

/-- No two entries have one token. -/
theorem nodup_firstOnly {seen entries : List ColorEntry} (h : (seen.map (·.token)).Nodup) :
    ((firstOnly seen entries).map (·.token)).Nodup := by
  induction entries generalizing seen with
  | nil => exact ((List.reverse_perm seen).map _).nodup_iff.2 h
  | cons entry rest ih =>
    rw [firstOnly]
    by_cases hseen : (seen.map (·.token)).contains entry.token = true
    · rw [if_pos hseen]
      exact ih h
    · rw [if_neg hseen]
      exact ih (List.nodup_cons.2 ⟨fun hmem => hseen (List.contains_iff_mem.2 hmem), h⟩)

theorem pairwise_insertByHex {entry : ColorEntry} {entries : List ColorEntry}
    (h : entries.Pairwise (·.hex ≤ ·.hex)) :
    (insertByHex entry entries).Pairwise (·.hex ≤ ·.hex) := by
  induction entries with
  | nil => exact List.pairwise_singleton _ _
  | cons e rest ih =>
    obtain ⟨hfirst, hrest⟩ := List.pairwise_cons.1 h
    rw [insertByHex]
    split_ifs with hle
    · exact List.pairwise_cons.2
        ⟨List.forall_mem_cons.2 ⟨hle, fun e' he' => String.le_trans hle (hfirst e' he')⟩, h⟩
    · have hge : e.hex ≤ entry.hex := (String.le_total _ _).resolve_left hle
      refine List.pairwise_cons.2 ⟨fun e' he' => ?_, ih hrest⟩
      rcases List.mem_cons.1 ((insertByHex_perm entry rest).mem_iff.1 he') with rfl | he'
      · exact hge
      · exact hfirst e' he'

/-- The entries are in order of their hexadecimal forms. -/
theorem pairwise_sortByHex (entries : List ColorEntry) :
    (sortByHex entries).Pairwise (·.hex ≤ ·.hex) := by
  induction entries with
  | nil => exact List.Pairwise.nil
  | cons entry rest ih => exact pairwise_insertByHex ih

end ColorEntry

/-- **The tokens of a report are those of all colours.** -/
theorem mem_tokens_colorReport {settings : Settings} {roots : List Node} {token : String} :
    token ∈ (colorReport settings roots).map (·.token) ↔
      token ∈ ((Node.itemsOfAll roots).flatMap Item.colors).map (·.text settings) := by
  rw [colorReport, ((ColorEntry.sortByHex_perm _).map _).mem_iff, ColorEntry.mem_tokens_firstOnly,
    List.map_map]
  exact or_iff_right List.not_mem_nil

theorem nodup_tokens_colorReport (settings : Settings) (roots : List Node) :
    ((colorReport settings roots).map (·.token)).Nodup :=
  ((ColorEntry.sortByHex_perm _).map _).nodup_iff.2 (ColorEntry.nodup_firstOnly List.nodup_nil)

/-- **Every entry is that of the first colour with its token.** -/
theorem exists_of_mem_colorReport {settings : Settings} {roots : List Node} {entry : ColorEntry}
    (h : entry ∈ colorReport settings roots) :
    ∃ earlier item later before fill after,
      Node.itemsOfAll roots = earlier ++ item :: later ∧
        item.colors = before ++ fill :: after ∧ entry = .ofFill settings fill ∧
        ∀ other ∈ earlier.flatMap Item.colors ++ before, other.text settings ≠ entry.token := by
  rw [colorReport, (ColorEntry.sortByHex_perm _).mem_iff, ColorEntry.mem_firstOnly_iff,
    or_iff_right List.not_mem_nil] at h
  obtain ⟨_, _, heq, hfirst⟩ := h
  obtain ⟨before, _, hfills, rfl, htail⟩ := List.map_eq_append_iff.1 heq
  obtain ⟨fill, after, rfl, rfl, rfl⟩ := List.map_eq_cons_iff.1 htail
  obtain ⟨earlier, item, later, inner, rest, hitems, hcolors, rfl⟩ :=
    exists_of_flatMap_eq_append_cons hfills
  refine ⟨earlier, item, later, inner, fill, rest, hitems, hcolors, rfl, fun other hother heq => ?_⟩
  refine hfirst ?_
  rw [List.nil_append, List.map_map]
  exact List.mem_map.2 ⟨other, hother, heq⟩

end Artboard
