import Artboard.Upload.Pipeline
import Mathlib.Tactic

/-!
# The cache as a table

A cache is read by content and holds one address for each content in it. Setting an address changes
what is read for its content and nothing else.
-/

namespace Artboard

namespace Cache

variable {c : Cache} {key k url : String}

/-- The contents whose address is known. -/
def keys (c : Cache) : List String := c.map Prod.fst

theorem get?_eq_none_iff : c.get? key = none ↔ key ∉ c.keys := by
  simp only [get?, List.lookup_eq_none_iff, bne_iff_ne, keys, List.mem_map, not_exists, not_and]
  exact forall₂_congr fun _ _ => ne_comm

/-- A cache that answers as the last of some pairs has their keys. -/
theorem mem_keys_of_last {pairs : List (String × String)}
    (h : ∀ key, c.get? key = pairs.reverse.lookup key) :
    key ∈ c.keys ↔ key ∈ pairs.map Prod.fst := by
  rw [← not_iff_not, ← get?_eq_none_iff, h, List.lookup_eq_none_iff]
  simp only [List.mem_reverse, bne_iff_ne, List.mem_map, not_exists, not_and]
  exact forall₂_congr fun _ _ => ne_comm

theorem get?_cons {e : String × String} :
    get? (e :: c) key = if key = e.1 then some e.2 else c.get? key := by
  obtain ⟨k', u⟩ := e
  by_cases h : key = k'
  · simp [get?, h]
  · simp [get?, List.lookup_cons, beq_false_of_ne h, h]

/-- **A known address reads back, and no other changes.** -/
theorem get?_put : (put key url c).get? k = if k = key then some url else c.get? k := by
  induction c with
  | nil => exact get?_cons
  | cons entry rest ih =>
    by_cases hk' : entry.1 = key
    · rw [put, if_pos hk', get?_cons, get?_cons, hk']
      split_ifs <;> rfl
    · rw [put, if_neg hk', get?_cons, get?_cons, ih]
      split_ifs with hk hkey
      · exact absurd (hk.symm.trans hkey) hk'
      all_goals rfl

theorem mem_keys_put : k ∈ keys (put key url c) ↔ k = key ∨ k ∈ c.keys := by
  rw [← not_iff_not, ← get?_eq_none_iff, get?_put, not_or, ← get?_eq_none_iff]
  by_cases hk : k = key <;> simp [hk]

theorem nodup_keys_put (h : c.keys.Nodup) : (keys (put key url c)).Nodup := by
  induction c with
  | nil => simp [put, keys]
  | cons entry rest ih =>
    obtain ⟨k', u⟩ := entry
    obtain ⟨hk', hrest⟩ := List.nodup_cons.1 h
    by_cases hk : k' = key
    · subst hk
      simpa [put, keys] using h
    · have hnew : k' ∉ keys (put key url rest) := fun hmem => (mem_keys_put.1 hmem).elim hk hk'
      simpa [put, hk, keys] using List.nodup_cons.2 ⟨hnew, ih hrest⟩

/-- A content that was not known is filed behind the others. -/
theorem put_append {c' : Cache} (h : key ∉ c.keys) :
    put key url (c ++ c') = c ++ put key url c' := by
  induction c with
  | nil => rfl
  | cons entry rest ih =>
    obtain ⟨hne, hrest⟩ : key ≠ entry.1 ∧ key ∉ keys rest := by simpa [keys] using h
    rw [List.cons_append, put, if_neg hne.symm, ih hrest, List.cons_append]

end Cache

end Artboard
