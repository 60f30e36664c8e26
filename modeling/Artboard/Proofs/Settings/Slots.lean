import Artboard.Proofs.Json.Schema
import Artboard.Settings.Change

/-!
# Slots of the settings document

The settings document has a schema (`Settings.schema`), and reading settings and writing them again
is what the schema makes of a document (`Settings.describes_read`). Settings with finite numbers come
back as they were (`Storable.settle_toJson`), so changing them through their document changes one
slot and nothing else (`Storable.change_replaces_slot`).
-/

namespace Artboard

open Json Schema

variable {levels : Nat}

/-! ## The schema of settings -/

namespace Rounding

def schema : Schema :=
  let absent : Rounding := {}
  .record [
    { name := "values", absent := .bool absent.values, schema := .flag },
    { name := "colors", absent := .bool absent.colors, schema := .flag },
    { name := "thresholdPercent", absent := .ofReal absent.thresholdPercent, schema := .real }]

theorem describes_read : schema.Describes (levels + 1) read toJson := by
  intro j
  rw [schema, settle_record levels]
  refine Option.map_bind.trans (Option.bind_congr fun r hr => ?_)
  obtain ⟨present, rfl⟩ := eq_mk_of_record? hr
  exact describes_asBool.map_bind_field fun values => describes_asBool.map_bind_field fun colors =>
    describes_asReal.map_bind_field fun thresholdPercent => rfl

end Rounding

theorem Strategy.name_of_mem_names : ∀ entry ∈ Strategy.names, entry.2.name = entry.1 := by
  simp [Strategy.names, Strategy.name]

theorem Strategy.settle_name (strategy : Strategy) :
    (word (Strategy.names.map Prod.fst)).settle (.text strategy.name) =
      some (.text strategy.name) :=
  settle_word (by cases strategy <;> decide)

theorem Mode.name_of_mem_names : ∀ entry ∈ Mode.names, entry.2.name = entry.1 := by
  simp [Mode.names, Mode.name]

namespace UploadSettings

def schema : Schema :=
  let absent : UploadSettings := {}
  let strategy := Schema.word (Strategy.names.map Prod.fst)
  .record [
    { name := "enabled", absent := .bool absent.enabled, schema := .flag },
    { name := "endpoint", absent := .text absent.endpoint, schema := .text },
    { name := "uploadSecret", absent := .text absent.secret, schema := .text },
    { name := "cacheTTLHours", absent := .ofReal absent.cacheHours, schema := .real },
    { name := "maxConcurrentUploads", absent := .whole absent.maxConcurrent,
      schema := .count maxLimit },
    { name := "bitmapStrategy", absent := .text absent.bitmaps.name, schema := strategy },
    { name := "vectorStrategy", absent := .text absent.vectors.name, schema := strategy }]

theorem describes_read : schema.Describes (levels + 2) read toJson := by
  intro j
  rw [schema, settle_record (levels + 1)]
  refine Option.map_bind.trans (Option.bind_congr fun r hr => ?_)
  obtain ⟨present, rfl⟩ := eq_mk_of_record? hr
  exact describes_asBool.map_bind_field fun enabled =>
    describes_asText.map_bind_field fun endpoint => describes_asText.map_bind_field fun secret =>
    describes_asReal.map_bind_field fun cacheHours =>
    (describes_asNat _).map_bind_field fun maxConcurrent =>
    (describes_choice Strategy.name_of_mem_names).map_bind_field fun bitmaps =>
    (describes_choice Strategy.name_of_mem_names).map_bind_field fun vectors => rfl

end UploadSettings

namespace Settings

def schema : Schema :=
  let absent : Settings := {}
  .record [
    { name := "generationMode", formerNames := ["tailwindGenerationMode"],
      absent := .text absent.mode.name, schema := .word (Mode.names.map Prod.fst) },
    { name := "rounding", absent := absent.rounding.toJson, schema := Rounding.schema },
    { name := "useColorVariables", absent := .bool absent.useColorVariables, schema := .flag },
    { name := "embedImages", absent := .bool absent.embedImages, schema := .flag },
    { name := "embedVectors", absent := .bool absent.embedVectors, schema := .flag },
    { name := "customClassPrefix", formerNames := ["customTailwindPrefix"],
      absent := .text absent.classPrefix, schema := .text },
    { name := "baseFontSize", absent := .ofReal absent.baseFontSize, schema := .real },
    { name := "baseFontFamily", absent := .text absent.baseFontFamily, schema := .text },
    { name := "fontFamilyCustomConfig", absent := familiesJson absent.fontFamilies,
      schema := .table .texts },
    { name := "showLayerNames", absent := .bool absent.showLayerNames, schema := .flag },
    { name := "assetUpload", absent := absent.uploads.toJson, schema := UploadSettings.schema }]

theorem describes_readFamilies :
    (table .texts).Describes (levels + 2) readFamilies familiesJson := describes_texts.asMap

/-- What settings are read from a document is what the schema makes of it. -/
theorem describes_read : schema.Describes (levels + 3) read toJson := by
  intro j
  rw [schema, settle_record (levels + 2)]
  refine Option.map_bind.trans (Option.bind_congr fun r hr => ?_)
  obtain ⟨present, rfl⟩ := eq_mk_of_record? hr
  exact (describes_choice Mode.name_of_mem_names).map_bind_field fun mode =>
    Rounding.describes_read.map_bind_field fun rounding =>
    describes_asBool.map_bind_field fun useColorVariables =>
    describes_asBool.map_bind_field fun embedImages =>
    describes_asBool.map_bind_field fun embedVectors =>
    describes_asText.map_bind_field fun classPrefix =>
    describes_asReal.map_bind_field fun baseFontSize =>
    describes_asText.map_bind_field fun baseFontFamily =>
    describes_readFamilies.map_bind_field fun fontFamilies =>
    describes_asBool.map_bind_field fun showLayerNames =>
    UploadSettings.describes_read.map_bind_field fun uploads => rfl

/-! ## Settings that a document can hold -/

/-- Settings whose numbers have a notation, and whose font families are in order. -/
structure Storable (s : Settings) : Prop where
  threshold_finite : s.rounding.thresholdPercent.isFinite = true
  fontSize_finite : s.baseFontSize.isFinite = true
  cacheHours_finite : s.uploads.cacheHours.isFinite = true
  maxConcurrent_le : s.uploads.maxConcurrent ≤ UploadSettings.maxLimit
  fontFamilies_ascending : Ascending s.fontFamilies

theorem storable_init : ({} : Settings).Storable where
  threshold_finite := by decide
  fontSize_finite := by decide
  cacheHours_finite := by decide
  maxConcurrent_le := by decide
  fontFamilies_ascending := .nil

theorem distinct_schema : schema.distinct = true := by decide

theorem Storable.settle_rounding {s : Settings} (h : s.Storable) :
    Rounding.schema.settle s.rounding.toJson = some s.rounding.toJson :=
  settle_record_eq_self (by decide) <|
    .cons ⟨rfl, rfl⟩ <| .cons ⟨rfl, rfl⟩ <|
    .cons ⟨rfl, settle_ofReal h.threshold_finite⟩ .nil

theorem settle_familiesJson {families : List (String × List String)} (h : Ascending families) :
    (table .texts).settle (familiesJson families) = some (familiesJson families) := by
  refine settle_table_eq_self ?_ (List.forall_mem_map.2 fun entry _ => settle_texts entry.2)
  rwa [Ascending, List.map_map]

theorem Storable.settle_uploads {s : Settings} (h : s.Storable) :
    UploadSettings.schema.settle s.uploads.toJson = some s.uploads.toJson :=
  settle_record_eq_self (by decide) <|
    .cons ⟨rfl, rfl⟩ <| .cons ⟨rfl, rfl⟩ <| .cons ⟨rfl, rfl⟩ <|
    .cons ⟨rfl, settle_ofReal h.cacheHours_finite⟩ <|
    .cons ⟨rfl, settle_whole h.maxConcurrent_le⟩ <|
    .cons ⟨rfl, Strategy.settle_name _⟩ <| .cons ⟨rfl, Strategy.settle_name _⟩ .nil

/-- Storable settings are read as they were written. -/
theorem Storable.settle_toJson {s : Settings} (h : s.Storable) :
    schema.settle s.toJson = some s.toJson :=
  settle_record_eq_self (by decide) <|
    .cons ⟨rfl, settle_word (by cases s.mode <;> decide)⟩ <|
    .cons ⟨rfl, h.settle_rounding⟩ <| .cons ⟨rfl, rfl⟩ <| .cons ⟨rfl, rfl⟩ <|
    .cons ⟨rfl, rfl⟩ <| .cons ⟨rfl, rfl⟩ <| .cons ⟨rfl, settle_ofReal h.fontSize_finite⟩ <|
    .cons ⟨rfl, rfl⟩ <| .cons ⟨rfl, settle_familiesJson h.fontFamilies_ascending⟩ <|
    .cons ⟨rfl, rfl⟩ <| .cons ⟨rfl, h.settle_uploads⟩ .nil

/-! ## Changes -/

variable {s changed : Settings} {key : String} {value : Json}

/-- What a value at a path of the document is read as, written again. -/
def settled? (path : List String) (value : Json) : Option Json :=
  (schema.at? path).bind fun inner => inner.settle value

theorem map_toJson_ofJson? (document : Json) :
    (ofJson? document).map toJson = schema.settle document := describes_read document

theorem change_eq_ok_iff : s.change key value = .ok changed ↔
    ∃ document, Json.replaceAt value (path key) s.toJson = some document ∧
      ofJson? document = some changed ∧ changed.fault? = none := by
  unfold change
  cases Json.replaceAt value (path key) s.toJson with
  | none => simp
  | some document =>
    cases hread : ofJson? document with
    | none => simp [hread]
    | some changed' =>
      cases hfault : changed'.fault? with
      | none => grind
      | some fault => grind

theorem change_eq_unknownKey_iff {k : String} : s.change key value = .error (.unknownKey k) ↔
    k = key ∧ s.toJson.at? (path key) = none := by
  rw [← Json.replaceAt_eq_none_iff value]
  unfold change
  split <;> grind

theorem at?_of_settled?_object {slot sub : String} {inner : Schema} {new : Json}
    {members : List (String × Json)} (hinner : schema.member? slot = some inner)
    (hplain : inner.plain)
    (habsent : ({} : Settings).toJson.at? [slot, sub] = inner.absent? sub)
    (hnew : settled? [slot] (.object members) = some new) :
    new.at? [sub] = match Json.lookup sub members with
      | some j => settled? [slot, sub] j
      | none => ({} : Settings).toJson.at? [slot, sub] := by
  have hslot (path : List String) (j : Json) : settled? (slot :: path) j =
      (inner.at? path).bind fun inner => inner.settle j := by
    rw [settled?, at?_cons, hinner, Option.bind_some]
  rw [hslot] at hnew
  rw [at?_of_settle_object hplain hnew, habsent]
  cases Json.lookup sub members with
  | none => rfl
  | some j => simp only [hslot, at?_cons, Schema.at?_nil, Option.bind_fun_some]

/-- The slots that hold objects take each key on its own, and what is missing is as it is in the
standard settings. -/
theorem at?_of_settled? {slot : String} {members : List (String × Json)} {new : Json}
    (hslot : slot ∈ ["rounding", "fontFamilyCustomConfig", "assetUpload"])
    (hnew : settled? [slot] (.object members) = some new) (sub : String) :
    new.at? [sub] = match Json.lookup sub members with
      | some j => settled? [slot, sub] j
      | none => ({} : Settings).toJson.at? [slot, sub] := by
  simp only [List.mem_cons, List.not_mem_nil, or_false] at hslot
  obtain rfl | rfl | rfl := hslot
  · refine at?_of_settled?_object rfl rfl ?_ hnew
    rw [Rounding.schema, absent?_record]
    exact at?_object_singleton
  · exact at?_of_settled?_object rfl rfl rfl hnew
  · refine at?_of_settled?_object rfl rfl ?_ hnew
    rw [UploadSettings.schema, absent?_record]
    exact at?_object_singleton

theorem Storable.bind_replaceAt (h : s.Storable) (path : List String) (value : Json) :
    (Json.replaceAt value path s.toJson).bind (fun document => (ofJson? document).map toJson) =
      (settled? path value).bind fun new => Json.replaceAt new path s.toJson := by
  rw [settled?, ← settle_replaceAt distinct_schema h.settle_toJson]
  exact Option.bind_congr fun document _ => map_toJson_ofJson? document

/-- **A change is the change of one slot.** It names a slot of the document, and the document of
the changed settings is the old one with that slot replaced by what the value is read as there:
all that is neither inside nor around the slot is as before, whatever the names of the font families
are. Where the slot holds an object, its members are read each on its own; the ones that are missing
are as in the standard settings, and unknown ones are dropped. The key is refused as unknown exactly
if there is nothing at its path. -/
theorem Storable.change_replaces_slot (h : s.Storable) (key : String) (value : Json) :
    (∀ changed, s.change key value = .ok changed →
      ∃ old new, s.toJson.at? (path key) = some old ∧ settled? (path key) value = some new ∧
        Json.replaceAt new (path key) s.toJson = some changed.toJson ∧
        changed.toJson.at? (path key) = some new ∧
        (∀ other, ¬path key <+: other → ¬other <+: path key →
          changed.toJson.at? other = s.toJson.at? other) ∧
        ∀ slot ∈ ["rounding", "fontFamilyCustomConfig", "assetUpload"], path key = [slot] →
          ∀ members, value = .object members → ∀ sub,
            new.at? [sub] = match Json.lookup sub members with
              | some j => settled? [slot, sub] j
              | none => ({} : Settings).toJson.at? [slot, sub]) ∧
    ∀ k, s.change key value = .error (.unknownKey k) ↔ k = key ∧ s.toJson.at? (path key) = none := by
  refine ⟨fun changed hchange => ?_, fun k => change_eq_unknownKey_iff⟩
  obtain ⟨document, hdocument, hread, -⟩ := change_eq_ok_iff.1 hchange
  obtain ⟨old, hold⟩ : ∃ old, s.toJson.at? (path key) = some old := by
    rw [← Option.isSome_iff_exists, ← Json.isSome_replaceAt, hdocument]
    rfl
  have hbind := h.bind_replaceAt (path key) value
  rw [hdocument, Option.bind_some, hread, Option.map_some, eq_comm] at hbind
  obtain ⟨new, hnew, hreplaced⟩ := Option.bind_eq_some_iff.1 hbind
  refine ⟨old, new, hold, hnew, hreplaced, Json.at?_replaceAt hreplaced, fun other hin haround =>
    Json.at?_replaceAt_of_beside hreplaced hin haround, ?_⟩
  rintro slot hslot hpath members rfl sub
  rw [hpath] at hnew
  exact at?_of_settled? hslot hnew sub

theorem change_replaces_slot_uploads :
    let s : Settings :=
      { uploads := { endpoint := "up" }, fontFamilies := [("body", ["Inter"])] }
    s.Storable ∧ ∃ changed new, s.change "assetUpload"
        (.object [("maxConcurrentUploads", .whole 3), ("region", .null)]) = .ok changed ∧
      changed.toJson.at? ["assetUpload"] = some new ∧
      new.at? ["maxConcurrentUploads"] = some (.whole 3) ∧
      new.at? ["endpoint"] = some (.text "") ∧ new.at? ["region"] = none ∧
      changed.toJson.at? ["fontFamilyCustomConfig", "body"] = some (.list [.text "Inter"]) := by
  intro s
  have hs : s.Storable :=
    ⟨by decide, by decide, by decide, by decide, List.pairwise_singleton _ _⟩
  refine ⟨hs, { s with uploads := { maxConcurrent := 3 } }, ?_⟩
  have hpath : path "assetUpload" = ["assetUpload"] := by decide
  have hchange : s.change "assetUpload"
      (.object [("maxConcurrentUploads", .whole 3), ("region", .null)]) =
        .ok { s with uploads := { maxConcurrent := 3 } } := by
    unfold s
    decide
  obtain ⟨_, new, -, -, -, hnew, hbeside, hsub⟩ := (hs.change_replaces_slot _ _).1 _ hchange
  specialize hsub "assetUpload" (by decide) hpath _ rfl
  rw [hpath] at hnew hbeside
  refine ⟨new, hchange, hnew, hsub _, hsub _, hsub _, ?_⟩
  exact hbeside ["fontFamilyCustomConfig", "body"] (by decide) (by decide)

end Settings

end Artboard
