import Artboard.Settings.Change
import Mathlib.Data.List.Nodup
import Mathlib.Tactic.SplitIfs

/-!
# Places in JSON values

A path of keys leads into objects within objects. What stands at its end can be replaced if there is
something (`isSome_replaceAt`). Afterwards the new value stands there (`at?_replaceAt`), and what
stands at all paths beside it is the same as before (`at?_replaceAt_of_beside`).
-/

namespace Artboard.Json

variable {j j' value : Json} {key k : String} {path other : List String}
  {members : List (String × Json)}

/-! ## Members -/

theorem lookup_cons_eq_ite {α : Type} {a : α} {entries : List (String × α)} :
    ((k, a) :: entries).lookup key = if k = key then some a else entries.lookup key := by
  rw [List.lookup_cons]
  by_cases h : k = key
  · simp [h]
  · simp [h, beq_false_of_ne (Ne.symm h)]

theorem lookup_of_mem (hnodup : (members.map Prod.fst).Nodup) {m : String × Json}
    (hm : m ∈ members) : members.lookup m.1 = some m.2 := by
  induction members with
  | nil => simp at hm
  | cons first rest ih =>
    obtain ⟨hfirst, hrest⟩ := List.nodup_cons.1 hnodup
    rw [lookup_cons_eq_ite]
    split_ifs with hkey
    · obtain rfl | hm := List.mem_cons.1 hm
      · rfl
      · exact absurd (hkey ▸ List.mem_map_of_mem hm) hfirst
    · obtain rfl | hm := List.mem_cons.1 hm
      · exact absurd rfl hkey
      · exact ih hrest hm

theorem lookup_reverse (hnodup : (members.map Prod.fst).Nodup) :
    members.reverse.lookup key = members.lookup key := by
  cases h : members.lookup key with
  | none => simpa [List.lookup_eq_none_iff] using h
  | some j =>
    obtain ⟨before, behind, rfl, -⟩ := List.lookup_eq_some_iff.1 h
    refine lookup_of_mem (m := (key, j)) ?_ (by simp)
    rwa [List.map_reverse, List.nodup_reverse]

theorem lookup_filterMap_ite {known : List String} (hkey : key ∈ known) :
    (members.filterMap fun m => if m.1 ∈ known then some m else none).lookup key =
      members.lookup key := by
  induction members with
  | nil => rfl
  | cons m rest ih =>
    obtain ⟨name, j⟩ := m
    rw [List.filterMap_cons, lookup_cons_eq_ite]
    split_ifs with hknown hname hname
    · rw [lookup_cons_eq_ite, if_pos hname]
    · rw [lookup_cons_eq_ite, if_neg hname, ih]
    · exact absurd (hname ▸ hkey) hknown
    · exact ih

/-- The members with another value for a key. -/
def setMember (key : String) (j : Json) : List (String × Json) → List (String × Json)
  | [] => []
  | (name, old) :: rest =>
    if name = key then (name, j) :: rest else (name, old) :: setMember key j rest

@[simp] theorem map_fst_setMember : (setMember key j members).map Prod.fst = members.map Prod.fst := by
  induction members with
  | nil => rfl
  | cons m rest ih =>
    rw [setMember]
    split_ifs
    · rfl
    · rw [List.map_cons, List.map_cons, ih]

theorem lookup_setMember_self (h : (members.lookup key).isSome) :
    (setMember key j members).lookup key = some j := by
  induction members with
  | nil => simp at h
  | cons m rest ih =>
    rw [setMember]
    split_ifs with hname
    · rw [lookup_cons_eq_ite, if_pos hname]
    · rw [lookup_cons_eq_ite, if_neg hname] at h ⊢
      exact ih h

theorem lookup_setMember_of_ne (h : k ≠ key) :
    (setMember key j members).lookup k = members.lookup k := by
  induction members with
  | nil => rfl
  | cons m rest ih =>
    rw [setMember]
    split_ifs with hname
    · rw [lookup_cons_eq_ite, lookup_cons_eq_ite, hname, if_neg h.symm, if_neg h.symm]
    · rw [lookup_cons_eq_ite, lookup_cons_eq_ite, ih]

/-- The members with what is made of each value, if something is made of all. -/
def mapMembers? (f : String → Json → Option Json) :
    List (String × Json) → Option (List (String × Json))
  | [] => some []
  | (key, j) :: rest => (f key j).bind fun j => (mapMembers? f rest).map ((key, j) :: ·)

section mapMembers

variable {f : String → Json → Option Json} {mapped : List (String × Json)}

theorem mapMembers?_cons_eq_some_iff : mapMembers? f ((key, j) :: members) = some mapped ↔
    ∃ j' rest, f key j = some j' ∧ mapMembers? f members = some rest ∧
      mapped = (key, j') :: rest := by
  rw [mapMembers?]
  cases f key j <;> cases mapMembers? f members <;> simp [eq_comm]

theorem map_fst_mapMembers? (h : mapMembers? f members = some mapped) :
    mapped.map Prod.fst = members.map Prod.fst := by
  induction members generalizing mapped with
  | nil => cases h; rfl
  | cons m rest ih =>
    obtain ⟨j', rest', -, hrest, rfl⟩ := mapMembers?_cons_eq_some_iff.1 h
    rw [List.map_cons, List.map_cons, ih hrest]

theorem mapMembers?_concat : mapMembers? f (members ++ [(key, j)]) =
    (mapMembers? f members).bind fun mapped => (f key j).map fun j => mapped ++ [(key, j)] := by
  induction members with
  | nil => cases h : f key j <;> simp [mapMembers?, h]
  | cons m rest ih =>
    obtain ⟨name, old⟩ := m
    rw [List.cons_append, mapMembers?, ih, mapMembers?]
    cases f name old <;> cases mapMembers? f rest <;> simp [Function.comp_def]

theorem lookup_mapMembers? (h : mapMembers? f members = some mapped) :
    mapped.lookup key = (members.lookup key).bind (f key) := by
  induction members generalizing mapped with
  | nil => cases h; rfl
  | cons m rest ih =>
    obtain ⟨j', rest', hj, hrest, rfl⟩ := mapMembers?_cons_eq_some_iff.1 h
    rw [lookup_cons_eq_ite, lookup_cons_eq_ite, ih hrest]
    split_ifs with hname
    · rw [← hname, Option.bind_some, hj]
    · rfl

theorem mapMembers?_eq_self_iff :
    mapMembers? f members = some members ↔ ∀ m ∈ members, f m.1 m.2 = some m.2 := by
  induction members with
  | nil => simp [mapMembers?]
  | cons m rest ih =>
    obtain ⟨key, j⟩ := m
    rw [mapMembers?_cons_eq_some_iff, List.forall_mem_cons, ← ih]
    constructor
    · rintro ⟨_, _, hj, hrest, ⟨⟩⟩
      exact ⟨hj, hrest⟩
    · rintro ⟨hj, hrest⟩
      exact ⟨j, rest, hj, hrest, rfl⟩

/-- Where nothing else is made of the members, only the new one counts. -/
theorem mapMembers?_setMember (hsame : mapMembers? f members = some members)
    (hold : (members.lookup key).isSome) :
    mapMembers? f (setMember key j members) = (f key j).map (setMember key · members) := by
  induction members with
  | nil => simp at hold
  | cons m rest ih =>
    obtain ⟨name, old⟩ := m
    obtain ⟨_, _, hf, hrest, hcons⟩ := mapMembers?_cons_eq_some_iff.1 hsame
    cases hcons
    by_cases hname : name = key
    · rw [setMember, if_pos hname, mapMembers?, hrest, hname]
      cases f key j <;> simp [setMember]
    · rw [lookup_cons_eq_ite, if_neg hname] at hold
      simp [setMember, hname, mapMembers?, hf, ih hrest hold, Function.comp_def]

end mapMembers

/-! ## Paths -/

/-- The value at the end of a path of keys. -/
def at? : Json → List String → Option Json
  | j, [] => some j
  | .object members, key :: path => (members.lookup key).bind fun j => j.at? path
  | _, _ :: _ => none

@[simp] theorem at?_nil : j.at? [] = some j := by cases j <;> rfl

@[simp] theorem at?_object_cons :
    (object members).at? (key :: path) = (members.lookup key).bind fun j => j.at? path := rfl

theorem at?_object_singleton : (object members).at? [key] = members.lookup key := by
  rw [at?_object_cons]
  simp

theorem exists_object_of_at?_cons (h : (j.at? (key :: path)).isSome) :
    ∃ members, j = .object members := by
  cases j with
  | object members => exact ⟨members, rfl⟩
  | _ => simp [at?] at h

theorem at?_append : j.at? (path ++ other) = (j.at? path).bind fun j => j.at? other := by
  induction path generalizing j with
  | nil => simp
  | cons key path ih =>
    cases j with
    | object members =>
      rw [List.cons_append, at?_object_cons, at?_object_cons, Option.bind_assoc]
      exact Option.bind_congr fun j _ => ih
    | _ => rfl

theorem replaceMember_eq : replaceMember value key path members =
    ((members.lookup key).bind (replaceAt value path)).map (setMember key · members) := by
  induction members with
  | nil => rfl
  | cons m rest ih =>
    obtain ⟨name, old⟩ := m
    rw [replaceMember, List.lookup_cons]
    by_cases hname : name = key
    · subst hname
      simp [setMember]
    · rw [if_neg hname, beq_false_of_ne (Ne.symm hname), ih, Option.map_map]
      simp [setMember, hname, Function.comp_def]

@[simp] theorem replaceAt_nil : replaceAt value [] j = some value := by rw [replaceAt]

theorem replaceAt_object_cons : replaceAt value (key :: path) (.object members) =
    ((members.lookup key).bind (replaceAt value path)).map
      fun j => .object (setMember key j members) := by
  rw [replaceAt, replaceMember_eq, Option.map_map]
  rfl

/-- What can be replaced is what is there. -/
theorem isSome_replaceAt : (replaceAt value path j).isSome = (j.at? path).isSome := by
  induction path generalizing j with
  | nil => simp
  | cons key path ih =>
    cases j with
    | object members =>
      rw [replaceAt_object_cons, Option.isSome_map, at?_object_cons]
      cases members.lookup key with
      | none => rfl
      | some j => exact ih
    | _ => simp [replaceAt, at?]

theorem replaceAt_eq_none_iff (value : Json) : replaceAt value path j = none ↔ j.at? path = none := by
  rw [← Option.not_isSome_iff_eq_none, isSome_replaceAt, Option.not_isSome_iff_eq_none]

/-- A value with something replaced inside is an object with a member replaced. -/
theorem replaceAt_cons_eq_some_iff : replaceAt value (key :: path) j = some j' ↔
    ∃ members old new, j = .object members ∧ members.lookup key = some old ∧
      replaceAt value path old = some new ∧ j' = .object (setMember key new members) := by
  cases j with
  | object members =>
    rw [replaceAt_object_cons]
    constructor
    · intro h
      simp only [Option.map_eq_some_iff, Option.bind_eq_some_iff] at h
      obtain ⟨new, ⟨old, hold, hnew⟩, rfl⟩ := h
      exact ⟨members, old, new, rfl, hold, hnew, rfl⟩
    · rintro ⟨_, old, new, ⟨⟩, hold, hnew, rfl⟩
      rw [hold, Option.bind_some, hnew]
      rfl
  | _ => simp [replaceAt]

/-- **The new value stands where it was put.** -/
theorem at?_replaceAt (h : replaceAt value path j = some j') : j'.at? path = some value := by
  induction path generalizing j j' with
  | nil => simpa [eq_comm] using h
  | cons key path ih =>
    obtain ⟨members, old, new, rfl, hold, hnew, rfl⟩ := replaceAt_cons_eq_some_iff.1 h
    rw [at?_object_cons, lookup_setMember_self (by simp [hold])]
    exact ih hnew

/-- **What stands beside it stays.** -/
theorem at?_replaceAt_of_beside (h : replaceAt value path j = some j') (hinside : ¬path <+: other)
    (haround : ¬other <+: path) : j'.at? other = j.at? other := by
  induction path generalizing j j' other with
  | nil => exact absurd List.nil_prefix hinside
  | cons key path ih =>
    obtain ⟨members, old, new, rfl, hold, hnew, rfl⟩ := replaceAt_cons_eq_some_iff.1 h
    cases other with
    | nil => exact absurd List.nil_prefix haround
    | cons k other =>
      rw [at?_object_cons, at?_object_cons]
      by_cases hk : k = key
      · subst hk
        rw [lookup_setMember_self (by simp [hold]), hold]
        exact ih hnew (fun hp => hinside (List.cons_prefix_cons.2 ⟨rfl, hp⟩))
          fun hp => haround (List.cons_prefix_cons.2 ⟨rfl, hp⟩)
      · rw [lookup_setMember_of_ne hk]

end Artboard.Json
