import Artboard.Proofs.Json.Entries
import Mathlib.Data.List.Forall2

/-!
# Schemas of documents

A schema says what a document may hold at each place, and `settle` what is written there again once
it has been read: absent fields take what stands for them, unknown ones are dropped, and numbers
and words have one notation (`at?_of_settle_object` for what becomes of each key of an object).
A reader is described by a schema if it reads what the schema asks for (`Describes`).

Where a settled value has something replaced inside it, only the place of the replacement settles
anew (`settle_replaceAt`): reading such a document and writing it again changes that place and
nothing else.
-/

namespace Artboard.Json

/-- A field of a record: its name, the names that it had before, and what stands for it where it is
absent. -/
structure Field (α : Type) where
  name : String
  formerNames : List String := []
  absent : Json
  schema : α

inductive Schema where
  | flag
  | text
  | real
  /-- A whole number up to `greatest`. -/
  | count (greatest : Nat)
  | word (words : List String)
  | texts
  /-- Entries under keys of any name. -/
  | table (entries : Schema)
  | record (fields : List (Field Schema))

namespace Schema

def names (field : Field Schema) : List String := field.name :: field.formerNames

mutual

/-- What is written of a value after it was read. -/
def settle : Schema → Json → Option Json
  | .flag, j => (asBool 0 j).map .bool
  | .text, j => (asText 0 j).map .text
  | .real, j => (asReal 0 j).map ofReal
  | .count greatest, j => (asNat greatest 0 j).map fun (n : Nat) => .whole n
  | .word words, j => (choice (words.map fun word => (word, word)) 1 j).map .text
  | .texts, j => (asList asText 1 j).map fun items => .list (items.map .text)
  | .table entries, j => (asMap (fun _ j => entries.settle j) 1 j).map .object
  | .record fields, j => (record? (fields.map names) 1 j).bind fun r =>
    (settleFields fields r.present).map .object

/-- The members of a record whose fields are present as given. -/
def settleFields : List (Field Schema) → List (String × Json) → Option (List (String × Json))
  | [], _ => some []
  | ⟨name, _, absent, schema⟩ :: rest, present =>
    (match present.lookup name with
      | some j => schema.settle j
      | none => some absent).bind fun j =>
    (settleFields rest present).map ((name, j) :: ·)

end

/-- The schema of what is under a key. -/
def member? : Schema → String → Option Schema
  | .table entries, _ => some entries
  | .record fields, key => (fields.find? (·.name = key)).map (·.schema)
  | _, _ => none

/-- What stands for a key that is absent. -/
def absent? : Schema → String → Option Json
  | .record fields, key => (fields.find? (·.name = key)).map (·.absent)
  | _, _ => none

/-- The schema of what is at the end of a path. -/
def at? : Schema → List String → Option Schema
  | schema, [] => some schema
  | schema, key :: path => (schema.member? key).bind fun schema => schema.at? path

mutual

/-- Whether no record has two fields of one name. -/
def distinct : Schema → Bool
  | .table entries => entries.distinct
  | .record fields => (fields.flatMap names).Nodup && distinctFields fields
  | _ => true

def distinctFields : List (Field Schema) → Bool
  | [] => true
  | ⟨_, _, _, schema⟩ :: rest => schema.distinct && distinctFields rest

end

/-- Whether no field of a record has another name. -/
def plain : Schema → Bool
  | .record fields => fields.all (·.formerNames.isEmpty)
  | _ => true

variable {schema inner : Schema} {field : Field Schema} {fields : List (Field Schema)}
  {j value : Json} {members others present : List (String × Json)} {key : String}
  {path : List String}

@[simp] theorem at?_nil : schema.at? [] = some schema := rfl

@[simp] theorem at?_cons :
    schema.at? (key :: path) = (schema.member? key).bind fun schema => schema.at? path := rfl

theorem settleFields_cons : settleFields (field :: fields) present =
    (match present.lookup field.name with
      | some j => field.schema.settle j
      | none => some field.absent).bind fun j =>
    (settleFields fields present).map ((field.name, j) :: ·) := by
  rw [settleFields]

theorem distinctFields_iff : distinctFields fields ↔ ∀ field ∈ fields, field.schema.distinct := by
  induction fields with
  | nil => simp [distinctFields]
  | cons field rest ih => simp [distinctFields, ih]

theorem distinct_of_member? (h : schema.distinct) (hinner : schema.member? key = some inner) :
    inner.distinct := by
  cases schema with
  | table entries =>
    cases hinner
    simpa [distinct] using h
  | record fields =>
    simp only [distinct, Bool.and_eq_true] at h
    obtain ⟨field, hfield, rfl⟩ := Option.map_eq_some_iff.1 hinner
    exact distinctFields_iff.1 h.2 field (List.mem_of_find?_eq_some hfield)
  | _ => simp [member?] at hinner

/-! ## Records -/

section Records

variable (hdistinct : (fields.flatMap names).Nodup)
include hdistinct

/-- No two fields share a name. -/
theorem eq_of_mem_names {other : Field Schema} (hfield : field ∈ fields) (hother : other ∈ fields)
    (hkey : key ∈ names field) (hkey' : key ∈ names other) : field = other := by
  induction fields with
  | nil => simp at hfield
  | cons first rest ih =>
    obtain ⟨-, hrest, hdisjoint⟩ := List.nodup_append.1 hdistinct
    obtain rfl | hfield := List.mem_cons.1 hfield <;> obtain rfl | hother := List.mem_cons.1 hother
    · rfl
    · exact absurd rfl (hdisjoint key hkey key (List.mem_flatMap.2 ⟨other, hother, hkey'⟩))
    · exact absurd rfl (hdisjoint key hkey' key (List.mem_flatMap.2 ⟨field, ‹_›, hkey⟩))
    · exact ih hrest hfield hother

theorem find?_eq_of_mem_names {p : Field Schema → Bool} (hfield : field ∈ fields) (hp : p field)
    (hnames : ∀ other, p other → key ∈ names other) : fields.find? p = some field := by
  cases h : fields.find? p with
  | none => exact absurd hp (List.find?_eq_none.1 h field hfield)
  | some other =>
    have hother := List.mem_of_find?_eq_some h
    rw [eq_of_mem_names hdistinct hfield hother (hnames field hp)
      (hnames other (List.find?_some h))]

theorem find?_name (hfield : field ∈ fields) :
    fields.find? (·.name = field.name) = some field :=
  find?_eq_of_mem_names hdistinct hfield (decide_eq_true rfl)
    fun _ hother => List.mem_cons.2 (.inl (of_decide_eq_true hother).symm)

theorem nameOf?_of_mem (hfield : field ∈ fields) (hkey : key ∈ names field) :
    Record.nameOf? (fields.map names) key = some field.name := by
  have hfind : fields.find? ((·.contains key) ∘ names) = some field :=
    find?_eq_of_mem_names hdistinct hfield (List.contains_iff_mem.2 hkey)
      fun _ hother => List.contains_iff_mem.1 hother
  rw [Record.nameOf?, List.find?_map, hfind]
  rfl

theorem known_of_keys (hkeys : members.map Prod.fst = fields.map Field.name) :
    Record.known (fields.map names) members = members := by
  have hknown : ∀ m ∈ members, (Record.nameOf? (fields.map names) m.1).map (·, m.2) = some m := by
    intro m hm
    obtain ⟨field, hfield, hname⟩ := List.mem_map.1 (hkeys ▸ List.mem_map_of_mem (f := Prod.fst) hm)
    rw [nameOf?_of_mem hdistinct hfield (by simp [names, hname]), hname]
    rfl
  exact (List.filterMap_congr hknown).trans List.filterMap_some

theorem nodup_map_name : (fields.map Field.name).Nodup := by
  induction fields with
  | nil => simp
  | cons first rest ih =>
    obtain ⟨-, hrest, hdisjoint⟩ := List.nodup_append.1 hdistinct
    refine List.nodup_cons.2 ⟨fun hname => ?_, ih hrest⟩
    obtain ⟨field, hfield, hname⟩ := List.mem_map.1 hname
    exact hdisjoint first.name (by simp [names]) first.name
      (List.mem_flatMap.2 ⟨field, hfield, by simp [names, hname]⟩) rfl

end Records

theorem once_iff : Record.once present ↔ (present.map Prod.fst).Nodup := by
  induction present with
  | nil => simp [Record.once]
  | cons m rest ih =>
    obtain ⟨name, j⟩ := m
    rw [Record.once, List.map_cons, List.nodup_cons, Bool.and_eq_true, ih]
    simp

theorem settleFields_eq_mapMembers? {f : String → Json → Option Json}
    (hf : ∀ field ∈ fields, f field.name = field.schema.settle)
    (hpresent : ∀ m ∈ members, present.lookup m.1 = some m.2)
    (hkeys : members.map Prod.fst = fields.map Field.name) :
    settleFields fields present = mapMembers? f members := by
  induction fields generalizing members with
  | nil =>
    obtain rfl := List.map_eq_nil_iff.1 hkeys
    rfl
  | cons field rest ih =>
    obtain ⟨m, members, rfl, hm, hkeys⟩ := List.map_eq_cons_iff.1 hkeys
    obtain ⟨hfirst, hothers⟩ := List.forall_mem_cons.1 hpresent
    obtain ⟨hfield, hrest⟩ := List.forall_mem_cons.1 hf
    rw [settleFields_cons, mapMembers?, ih hrest hothers hkeys, ← hm, hfirst, hm, hfield]

theorem map_fst_settleFields (h : settleFields fields present = some members) :
    members.map Prod.fst = fields.map Field.name := by
  induction fields generalizing members with
  | nil => cases h; rfl
  | cons field rest ih =>
    rw [settleFields_cons] at h
    obtain ⟨j, -, h⟩ := Option.bind_eq_some_iff.1 h
    obtain ⟨others, hothers, rfl⟩ := Option.map_eq_some_iff.1 h
    rw [List.map_cons, List.map_cons, ih hothers]

/-! ## Settled objects -/

/-- Only tables and records are written as objects. -/
theorem table_or_record_of_settle (h : schema.settle j = some (.object members)) :
    (∃ entries, schema = .table entries) ∨ ∃ fields, schema = .record fields := by
  cases schema with
  | table entries => exact .inl ⟨entries, rfl⟩
  | record fields => exact .inr ⟨fields, rfl⟩
  | real =>
    obtain ⟨x, -, hx⟩ := Option.map_eq_some_iff.1 h
    rw [ofReal] at hx
    split at hx <;> cases hx
  | _ => obtain ⟨_, -, ⟨⟩⟩ := Option.map_eq_some_iff.1 h

/-- In a record with all its fields, all is present as it stands there. -/
theorem settle_record_present (hdistinct : (fields.flatMap names).Nodup)
    (hkeys : members.map Prod.fst = fields.map Field.name) :
    (record fields).settle (.object members) = (settleFields fields members).map .object := by
  rw [settle, record?, known_of_keys hdistinct hkeys,
    if_pos (once_iff.2 (hkeys ▸ nodup_map_name hdistinct))]
  rfl

/-- An object with the keys of a settled one settles member by member. -/
theorem settle_object_of_keys (hdistinct : schema.distinct)
    (hsettled : schema.settle j = some (.object members))
    (hkeys : others.map Prod.fst = members.map Prod.fst) :
    schema.settle (.object others) =
      (mapMembers? (fun key j => (schema.member? key).bind fun inner => inner.settle j)
        others).map .object := by
  obtain ⟨entries, rfl⟩ | ⟨fields, rfl⟩ := table_or_record_of_settle hsettled
  · obtain ⟨_, hentries, ⟨⟩⟩ := Option.map_eq_some_iff.1 hsettled
    have hsorted : Ascending others := by
      rw [Ascending, hkeys]
      exact ascending_of_asMap hentries
    exact congrArg (Option.map Json.object) (asMap_of_ascending hsorted)
  · simp only [distinct, Bool.and_eq_true, decide_eq_true_eq] at hdistinct
    obtain ⟨r, -, hr⟩ := Option.bind_eq_some_iff.1 hsettled
    obtain ⟨_, hfields, ⟨⟩⟩ := Option.map_eq_some_iff.1 hr
    have hnames := hkeys.trans (map_fst_settleFields hfields)
    have hnodup := hnames ▸ nodup_map_name hdistinct.1
    rw [settle_record_present hdistinct.1 hnames]
    refine congrArg (Option.map Json.object) (settleFields_eq_mapMembers? (fun field hfield => ?_)
      (fun m hm => lookup_of_mem hnodup hm) hnames)
    rw [member?, find?_name hdistinct.1 hfield]
    rfl

/-- What a settled record has for a field. -/
def Fills (field : Field Schema) (m : String × Json) : Prop :=
  m.1 = field.name ∧ field.schema.settle m.2 = some m.2

theorem settleFields_eq_some (hpresent : ∀ m ∈ members, present.lookup m.1 = some m.2)
    (h : List.Forall₂ Fills fields members) : settleFields fields present = some members := by
  induction h with
  | nil => rfl
  | @cons field m _ _ hm _ ih =>
    obtain ⟨hfirst, hrest⟩ := List.forall_mem_cons.1 hpresent
    rw [settleFields_cons, ← hm.1, hfirst, ih hrest]
    dsimp only
    rw [hm.2]
    rfl

/-- A record with something settled for each field is settled. -/
theorem settle_record_eq_self (hdistinct : (fields.flatMap names).Nodup)
    (h : List.Forall₂ Fills fields members) :
    (record fields).settle (.object members) = some (.object members) := by
  have hkeys : members.map Prod.fst = fields.map Field.name := by
    clear hdistinct
    induction h with
    | nil => rfl
    | cons hm _ ih => rw [List.map_cons, List.map_cons, hm.1, ih]
  have hnodup := hkeys ▸ nodup_map_name hdistinct
  rw [settle_record_present hdistinct hkeys,
    settleFields_eq_some (fun m hm => lookup_of_mem hnodup hm) h]
  rfl

theorem settle_table_eq_self (hsorted : Ascending members)
    (hmembers : ∀ m ∈ members, schema.settle m.2 = some m.2) :
    (table schema).settle (.object members) = some (.object members) := by
  rw [settle, asMap_of_ascending hsorted, mapMembers?_eq_self_iff.2 hmembers]
  rfl

theorem settle_ofReal {x : Float} (h : x.isFinite) : real.settle (ofReal x) = some (ofReal x) := by
  simp [settle, ofReal, h, asReal]

theorem settle_whole {n greatest : Nat} (h : n ≤ greatest) :
    (count greatest).settle (.whole n) = some (.whole n) := by
  simp [settle, asNat, h]

theorem settle_word {words : List String} {s : String} (h : s ∈ words) :
    (word words).settle (.text s) = some (.text s) := by
  have hlookup : (words.map fun word => (word, word)).lookup s = some s := by
    induction words with
    | nil => simp at h
    | cons first rest ih =>
      rw [List.map_cons, lookup_cons_eq_ite]
      split_ifs with hfirst
      · rw [hfirst]
      · exact ih ((List.mem_cons.1 h).resolve_left (Ne.symm hfirst))
  rw [settle, choice, hlookup]
  rfl

theorem settle_texts (items : List String) :
    texts.settle (.list (items.map .text)) = some (.list (items.map .text)) := by
  have hitems : (items.map Json.text).mapM (asText 0) = some items := by
    rw [List.mapM_map]
    exact List.mapM_pure (m := Option) (f := id) |>.trans (by simp)
  rw [settle, asList, hitems]
  rfl

/-! ## Keys of an object -/

theorem nameOf?_of_plain (hplain : (record fields).plain) :
    Record.nameOf? (fields.map names) key =
      if key ∈ fields.map Field.name then some key else none := by
  have hnames : fields.map names = (fields.map Field.name).map ([·]) := by
    rw [List.map_map]
    refine List.map_congr_left fun field hfield => ?_
    have hformer : field.formerNames = [] := by
      simpa using List.all_eq_true.1 (show fields.all _ = true from hplain) field hfield
    rw [names, hformer]
    rfl
  rw [Record.nameOf?, hnames, List.find?_map]
  generalize fields.map Field.name = known
  induction known with
  | nil => rfl
  | cons name rest ih =>
    rw [List.find?_cons]
    by_cases hkey : key = name
    · simp [hkey]
    · simpa [hkey] using ih

theorem lookup_known (hplain : (record fields).plain) (hkey : key ∈ fields.map Field.name)
    (honce : Record.once (Record.known (fields.map names) members)) :
    (Record.known (fields.map names) members).lookup key = lookup key members := by
  have hknown : Record.known (fields.map names) = List.filterMap fun m =>
      if m.1 ∈ fields.map Field.name then some m else none := by
    funext members
    refine List.filterMap_congr fun m _ => ?_
    dsimp only
    rw [nameOf?_of_plain hplain]
    split_ifs <;> rfl
  rw [← lookup_reverse (once_iff.1 honce), hknown, ← List.filterMap_reverse,
    lookup_filterMap_ite hkey, lookup]

theorem lookup_settleFields (h : settleFields fields present = some members) :
    members.lookup key = (fields.find? (·.name = key)).bind fun field =>
      match present.lookup key with
      | some j => field.schema.settle j
      | none => some field.absent := by
  induction fields generalizing members with
  | nil => cases h; rfl
  | cons field rest ih =>
    rw [settleFields_cons] at h
    obtain ⟨j, hj, h⟩ := Option.bind_eq_some_iff.1 h
    obtain ⟨others, hothers, rfl⟩ := Option.map_eq_some_iff.1 h
    rw [lookup_cons_eq_ite, List.find?_cons, ih hothers]
    by_cases hname : field.name = key
    · subst hname
      simp [hj]
    · simp [hname]

/-- **What becomes of each key of an object:** its last value settles, and if it has none, what
stands for it takes its place. -/
theorem at?_of_settle_object {new : Json} (hplain : schema.plain)
    (h : schema.settle (.object members) = some new) :
    new.at? [key] = match lookup key members with
      | some j => (schema.member? key).bind fun inner => inner.settle j
      | none => schema.absent? key := by
  cases schema with
  | table entries =>
    obtain ⟨entries, hentries, rfl⟩ := Option.map_eq_some_iff.1 h
    rw [at?_object_cons, lookup_asMap hentries]
    cases lookup key members <;> simp [member?, absent?]
  | record fields =>
    obtain ⟨r, hr, h⟩ := Option.bind_eq_some_iff.1 h
    obtain ⟨out, hout, rfl⟩ := Option.map_eq_some_iff.1 h
    rw [record?] at hr
    split_ifs at hr with honce
    cases hr
    rw [at?_object_cons, lookup_settleFields hout, member?, absent?]
    cases hfield : fields.find? (·.name = key) with
    | none => cases lookup key members <;> rfl
    | some field =>
      have hname : field.name = key := by simpa using List.find?_some hfield
      have hkey := hname ▸ List.mem_map_of_mem (f := Field.name) (List.mem_of_find?_eq_some hfield)
      rw [lookup_known hplain hkey honce]
      cases lookup key members <;> simp
  | _ =>
    have hnew : new.at? [key] = none := by
      refine Option.eq_none_iff_forall_ne_some.2 fun j hj => ?_
      obtain ⟨out, rfl⟩ := exists_object_of_at?_cons (Option.isSome_of_mem hj)
      obtain ⟨_, ⟨⟩⟩ | ⟨_, ⟨⟩⟩ := table_or_record_of_settle h
    rw [hnew]
    cases lookup key members <;> rfl

theorem absent?_record : (record fields).absent? key =
    (fields.map fun field => (field.name, field.absent)).lookup key := by
  induction fields with
  | nil => rfl
  | cons field rest ih =>
    rw [List.map_cons, lookup_cons_eq_ite, ← ih, absent?, absent?, List.find?_cons]
    by_cases hname : field.name = key <;> simp [hname]

/-! ## Replacements -/

/-- **Where something is replaced inside a settled value, only its place settles anew.** -/
theorem settle_replaceAt (hdistinct : schema.distinct) (hsettled : schema.settle j = some j) :
    (replaceAt value path j).bind schema.settle =
      ((schema.at? path).bind fun inner => inner.settle value).bind
        fun new => replaceAt new path j := by
  induction path generalizing schema j with
  | nil => simp
  | cons key path ih =>
    cases j with
    | object members =>
      have hsame := hsettled ▸ settle_object_of_keys hdistinct hsettled rfl
      obtain ⟨_, hsame, ⟨⟩⟩ := Option.map_eq_some_iff.1 hsame.symm
      rw [at?_cons]
      cases hold : members.lookup key with
      | none => simp [replaceAt_object_cons, hold]
      | some old =>
        have hinner : members.lookup key = (members.lookup key).bind _ := lookup_mapMembers? hsame
        rw [hold, Option.bind_some, eq_comm] at hinner
        obtain ⟨inner, hmember, hinner⟩ := Option.bind_eq_some_iff.1 hinner
        have hset (new : Json) : schema.settle (.object (setMember key new members)) =
            (inner.settle new).map fun new => .object (setMember key new members) := by
          rw [settle_object_of_keys hdistinct hsettled map_fst_setMember,
            mapMembers?_setMember hsame (by simp [hold]), hmember, Option.bind_some,
            Option.map_map]
          rfl
        have hplace (new : Json) : replaceAt new (key :: path) (.object members) =
            (replaceAt new path old).map fun new => .object (setMember key new members) := by
          rw [replaceAt_object_cons, hold, Option.bind_some]
        calc (replaceAt value (key :: path) (.object members)).bind schema.settle
          _ = ((replaceAt value path old).bind inner.settle).map
                fun new => .object (setMember key new members) := by
              rw [hplace, Option.bind_map, Option.map_bind]
              exact congrArg _ (funext hset)
          _ = (((inner.at? path).bind fun inner => inner.settle value).bind
                fun new => replaceAt new path old).map
                  fun new => .object (setMember key new members) := by
              rw [ih (distinct_of_member? hdistinct hmember) hinner]
          _ = _ := by
              rw [hmember, Option.bind_some, Option.map_bind]
              exact congrArg _ (funext fun new => (hplace new).symm)
    | _ => simp [replaceAt]

/-! ## Readers -/

section Readers

variable {α : Type} {read : Reader α} {write : α → Json} {levels : Nat}

/-- The reader reads what the schema asks for, and what it reads is written as the schema says. -/
def Describes (schema : Schema) (levels : Nat) (read : Reader α) (write : α → Json) : Prop :=
  ∀ j, (read levels j).map write = schema.settle j

theorem describes_asBool : flag.Describes levels asBool .bool := fun j => by cases j <;> rfl

theorem describes_asText : text.Describes levels asText .text := fun j => by cases j <;> rfl

theorem describes_asReal : real.Describes levels asReal ofReal := fun j => by cases j <;> rfl

theorem describes_asNat (greatest : Nat) :
    (count greatest).Describes levels (asNat greatest) fun n => .whole n := fun j => by
  have hlevels : asNat greatest levels j = asNat greatest 0 j := by cases j <;> rfl
  rw [hlevels, settle]

theorem lookup_map {β : Type} (f : α → β) (table : List (String × α)) :
    (table.map fun entry => (entry.1, f entry.2)).lookup key = (table.lookup key).map f := by
  induction table with
  | nil => rfl
  | cons entry rest ih =>
    rw [List.map_cons, lookup_cons_eq_ite, lookup_cons_eq_ite, ih]
    split_ifs <;> rfl

theorem choice_map {β : Type} (f : α → β) (table : List (String × α)) :
    (choice table (levels + 1) j).map f =
      choice (table.map fun entry => (entry.1, f entry.2)) 1 j := by
  unfold choice
  split <;> simp [lookup_map]

theorem describes_choice {table : List (String × α)} {name : α → String}
    (hname : ∀ entry ∈ table, name entry.2 = entry.1) :
    (word (table.map Prod.fst)).Describes (levels + 1) (choice table) fun a => .text (name a) := by
  intro j
  rw [settle, choice_map, choice_map, List.map_map, List.map_map]
  refine congrArg (choice · 1 j) (List.map_congr_left fun entry hentry => ?_)
  simp [hname entry hentry]

theorem describes_texts : texts.Describes (levels + 1) (asList asText)
    fun items => .list (items.map .text) := fun j => by
  have hlevels : asText levels = asText 0 := by
    funext j
    cases j <;> rfl
  cases j with
  | list items => rw [asList, hlevels]; rfl
  | _ => rfl

theorem Describes.asMap (h : schema.Describes levels read write) :
    (table schema).Describes (levels + 1) (asMap read) fun entries =>
      .object (entries.map fun entry => (entry.1, write entry.2)) := by
  intro j
  have hsame : Json.asMap (fun levels j => (read levels j).map write) (levels + 1) j =
      Json.asMap (fun _ j => schema.settle j) 1 j := by
    cases j with
    | object members => simp only [asMap_object_eq, h _]
    | _ => rfl
  rw [settle, ← hsame, ← asMap_map, Option.map_map]
  rfl

/-! Records are read field by field. -/

theorem settle_record (levels : Nat) : (record fields).settle j =
    (record? (fields.map names) (levels + 1) j).bind fun r =>
      (settleFields fields r.present).map .object := by
  rw [settle]
  cases j with
  | object members => rw [record?, record?]; split_ifs <;> rfl
  | list items => rw [record?, record?]; split_ifs <;> rfl
  | _ => rfl

theorem eq_mk_of_record? {known : List (List String)} {r : Record}
    (h : record? known (levels + 1) j = some r) : ∃ present, r = ⟨levels, present⟩ := by
  unfold record? at h
  split at h <;> grind

/-- Reading one more field and then the rest, where the rest is known once the field is. -/
theorem Describes.map_bind_field {name : String} {formerNames : List String} {absent : α}
    {rest : α → Option β} {write' : β → γ} {pack : List (String × Json) → γ}
    (h : schema.Describes levels read write)
    (hrest : ∀ a, (rest a).map write' =
      (settleFields fields present).map fun members => pack ((name, write a) :: members)) :
    (((Record.mk levels present).field name read absent).bind rest).map write' =
      (settleFields (⟨name, formerNames, write absent, schema⟩ :: fields) present).map pack := by
  have hcons : settleFields (⟨name, formerNames, write absent, schema⟩ :: fields) present =
      ((Record.mk levels present).field name read absent).bind fun a =>
        (settleFields fields present).map ((name, write a) :: ·) := by
    rw [Schema.settleFields_cons, Record.field]
    cases present.lookup name with
    | none => rfl
    | some j =>
      dsimp only
      rw [← h, Option.bind_map]
      rfl
  rw [hcons, Option.map_bind, Option.map_bind]
  refine Option.bind_congr fun a _ => ?_
  rw [Function.comp_apply, Function.comp_apply, hrest, Option.map_map]
  rfl

end Readers

end Schema

end Artboard.Json
