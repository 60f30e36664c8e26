import Artboard.Proofs.Json.Paths
import Mathlib.Data.List.Induction
import Mathlib.Data.String.Basic

/-!
# Maps read from objects

A map is read into entries that are sorted by keys (`ascending_of_asMap`); of equal keys the last
one counts (`lookup_asMap`). What is sorted already keeps its order (`asMap_of_ascending`).
-/

namespace Artboard.Json

/-! ## Sorted entries -/

section Entries

variable {α : Type} {entries : List (String × α)} {key k : String} {a : α}

/-- Whether entries are sorted by keys, and no key comes twice. -/
def Ascending (entries : List (String × α)) : Prop := (entries.map Prod.fst).Pairwise (· < ·)

theorem lookup_insertSorted :
    (insertSorted key a entries).lookup k = if key = k then some a else entries.lookup k := by
  induction entries with
  | nil => simp [insertSorted, lookup_cons_eq_ite]
  | cons entry rest ih =>
    obtain ⟨k₀, a₀⟩ := entry
    rw [insertSorted]
    split_ifs with hlt heq hkey <;> simp only [lookup_cons_eq_ite, ih] <;> grind

theorem mem_keys_insertSorted :
    k ∈ (insertSorted key a entries).map Prod.fst ↔ k = key ∨ k ∈ entries.map Prod.fst := by
  induction entries with
  | nil => simp [insertSorted]
  | cons entry rest ih =>
    obtain ⟨k₀, a₀⟩ := entry
    rw [insertSorted]
    split_ifs with hlt heq
    · simp
    · simp [heq]
    · rw [List.map_cons, List.mem_cons, ih, List.map_cons, List.mem_cons, or_left_comm]

theorem Ascending.insertSorted (h : Ascending entries) :
    Ascending (insertSorted key a entries) := by
  induction entries with
  | nil => simp [Json.insertSorted, Ascending]
  | cons entry rest ih =>
    obtain ⟨k₀, a₀⟩ := entry
    obtain ⟨hfirst, hrest⟩ := List.pairwise_cons.1 h
    rw [Json.insertSorted]
    split_ifs with hlt heq
    · refine List.pairwise_cons.2 ⟨fun k hk => ?_, h⟩
      obtain rfl | hk := List.mem_cons.1 hk
      · exact hlt
      · exact lt_trans hlt (hfirst k hk)
    · subst heq
      exact h
    · refine List.pairwise_cons.2 ⟨fun k hk => ?_, ih hrest⟩
      obtain rfl | hk := mem_keys_insertSorted.1 hk
      · exact lt_of_le_of_ne (not_lt.1 hlt) (Ne.symm heq)
      · exact hfirst k hk

theorem map_insertSorted {β : Type} (f : α → β) :
    (insertSorted key a entries).map (fun entry => (entry.1, f entry.2)) =
      insertSorted key (f a) (entries.map fun entry => (entry.1, f entry.2)) := by
  induction entries with
  | nil => rfl
  | cons entry rest ih =>
    obtain ⟨k₀, a₀⟩ := entry
    rw [List.map_cons, insertSorted, insertSorted]
    split_ifs
    · rfl
    · rfl
    · rw [List.map_cons, ih]

theorem insertSorted_of_forall_lt (h : ∀ k ∈ entries.map Prod.fst, k < key) :
    insertSorted key a entries = entries ++ [(key, a)] := by
  induction entries with
  | nil => rfl
  | cons entry rest ih =>
    obtain ⟨hfirst, hrest⟩ := List.forall_mem_cons.1 h
    rw [insertSorted, if_neg hfirst.asymm, if_neg hfirst.ne', ih hrest, List.cons_append]

end Entries

/-! ## Maps -/

section Maps

variable {α : Type} {read : Reader α} {levels : Nat} {entries : List (String × α)}
  {members : List (String × Json)} {key : String} {j : Json}

theorem asMap_object_eq (members : List (String × Json)) :
    asMap read (levels + 1) (.object members) = members.foldlM (fun entries m =>
      (read levels m.2).map fun a => insertSorted m.1 a entries) [] := rfl

theorem asMap_concat {m : String × Json} :
    asMap read (levels + 1) (.object (members ++ [m])) =
      (asMap read (levels + 1) (.object members)).bind fun entries =>
        (read levels m.2).map fun a => insertSorted m.1 a entries := by
  rw [asMap_object_eq, asMap_object_eq, List.foldlM_append]
  simp

theorem exists_object_of_asMap (h : asMap read levels j = some entries) :
    ∃ below members, levels = below + 1 ∧ j = .object members := by
  cases levels <;> cases j <;> simp [asMap] at h ⊢

theorem ascending_of_asMap (h : asMap read levels j = some entries) : Ascending entries := by
  obtain ⟨levels, members, rfl, rfl⟩ := exists_object_of_asMap h
  induction members using List.reverseRecOn generalizing entries with
  | nil => cases h; exact .nil
  | append_singleton members m ih =>
    rw [asMap_concat] at h
    obtain ⟨before, hbefore, h⟩ := Option.bind_eq_some_iff.1 h
    obtain ⟨a, -, rfl⟩ := Option.map_eq_some_iff.1 h
    exact (ih hbefore).insertSorted

/-- Of equal keys the last one counts. -/
theorem lookup_asMap (h : asMap read (levels + 1) (.object members) = some entries) :
    entries.lookup key = (lookup key members).bind (read levels) := by
  induction members using List.reverseRecOn generalizing entries with
  | nil => cases h; rfl
  | append_singleton members m ih =>
    rw [asMap_concat] at h
    obtain ⟨before, hbefore, h⟩ := Option.bind_eq_some_iff.1 h
    obtain ⟨a, ha, rfl⟩ := Option.map_eq_some_iff.1 h
    rw [lookup_insertSorted, lookup, List.reverse_concat, lookup_cons_eq_ite, ih hbefore]
    split_ifs
    · exact ha.symm
    · rfl

theorem asMap_map {β : Type} (f : α → β) (levels : Nat) :
    (asMap read levels j).map (List.map fun entry => (entry.1, f entry.2)) =
      asMap (fun levels j => (read levels j).map f) levels j := by
  cases levels with
  | zero => rfl
  | succ levels =>
    cases j with
    | object members =>
      induction members using List.reverseRecOn with
      | nil => rfl
      | append_singleton members m ih =>
        rw [asMap_concat, asMap_concat, ← ih, Option.map_bind, Option.bind_map]
        refine Option.bind_congr fun entries _ => ?_
        cases read levels m.2 <;> simp [map_insertSorted]
    | _ => rfl

/-- What is sorted keeps its order. -/
theorem asMap_of_ascending {read : Reader Json} (h : Ascending members) :
    asMap read (levels + 1) (.object members) = mapMembers? (fun _ => read levels) members := by
  induction members using List.reverseRecOn with
  | nil => rfl
  | append_singleton members m ih =>
    obtain ⟨key, j⟩ := m
    rw [Ascending, List.map_append, List.pairwise_append] at h
    obtain ⟨hbefore, -, hlast⟩ := h
    rw [asMap_concat, ih hbefore, mapMembers?_concat]
    refine Option.bind_congr fun entries hentries => ?_
    have hkeys := map_fst_mapMembers? hentries
    refine congrArg (Option.map · _) (funext fun a => insertSorted_of_forall_lt fun k hk => ?_)
    exact hlast k (hkeys ▸ hk) key (List.mem_singleton_self key)

end Maps

end Artboard.Json
