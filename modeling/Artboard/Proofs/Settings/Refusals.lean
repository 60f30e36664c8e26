import Artboard.Proofs.Settings.Loading
import Artboard.Proofs.Settings.Ranges

/-!
# Refused changes

A change is checked on the whole of the changed settings, while loading checks nothing. So whether a
good value is taken depends on more than its slot (`change_of_loaded`): with a threshold or a base
font size out of range, which are tolerated and clamped when they are read, no slot beside these two
can be changed (`change_refused_for_threshold`).

A slot beside the two leaves the check as it was (`Storable.fault?_eq`), since keys are told apart by
their paths (`path_injective`) and there is nothing below a number.
-/

namespace Artboard

namespace Json

variable {j : Json} {path other : List String}

theorem ofReal_inj {x y : Float} (hx : x.isFinite = true) (h : ofReal y = ofReal x) : y = x := by
  unfold ofReal at h
  grind

/-- There is nothing below a number. -/
theorem not_prefix_of_at?_ofReal {x : Float} (hx : j.at? path = some (ofReal x))
    (hother : (j.at? other).isSome) (hne : other ≠ path) : ¬path <+: other := by
  rintro ⟨below, rfl⟩
  cases below with
  | nil => simp at hne
  | cons key below =>
    rw [at?_append, hx, Option.bind_some] at hother
    obtain ⟨members, hmembers⟩ := exists_object_of_at?_cons hother
    unfold ofReal at hmembers
    split at hmembers <;> cases hmembers

end Json

namespace Settings

open Json

variable {s changed : Settings} {key : String} {value : Json}

/-! ## Paths of keys -/

theorem path_injective : Function.Injective path := by
  intro key key' h
  have hpieces := List.map_injective_iff.2 (fun _ _ => String.ofList_inj.1) h
  have hchars := congrArg (Text.joinWith ['.']) hpieces
  rwa [Text.joinWith_pieces, Text.joinWith_pieces, String.toList_inj] at hchars

theorem path_ne_nil (key : String) : path key ≠ [] := by
  simp [path, Text.pieces_ne_nil]

theorem at?_threshold :
    s.toJson.at? ["rounding", "thresholdPercent"] = some (.ofReal s.rounding.thresholdPercent) :=
  at?_nil

theorem at?_fontSize : s.toJson.at? ["baseFontSize"] = some (.ofReal s.baseFontSize) := at?_nil

/-- The keys of the slots that are checked, and of the one around them. -/
def checkedKeys : List String := ["rounding", "rounding.thresholdPercent", "baseFontSize"]

/-- Any other slot lies beside the threshold. -/
theorem beside_threshold (hslot : (s.toJson.at? (path key)).isSome) (hkey : key ∉ checkedKeys) :
    ¬path key <+: ["rounding", "thresholdPercent"] ∧
      ¬["rounding", "thresholdPercent"] <+: path key := by
  have haround : path "rounding" = ["rounding"] := by decide
  have hpath : path "rounding.thresholdPercent" = ["rounding", "thresholdPercent"] := by
    decide
  have hne : path key ≠ ["rounding", "thresholdPercent"] := by
    rw [← hpath]
    rintro h
    simp [checkedKeys, path_injective h] at hkey
  refine ⟨fun hprefix => ?_, not_prefix_of_at?_ofReal at?_threshold hslot hne⟩
  obtain hnil | ⟨below, hbelow, hprefix⟩ := List.prefix_cons_iff.1 hprefix
  · exact path_ne_nil key hnil
  obtain rfl | ⟨last, rfl, hlast⟩ := List.prefix_cons_iff.1 hprefix
  · rw [← haround] at hbelow
    simp [checkedKeys, path_injective hbelow] at hkey
  · rw [List.prefix_nil.1 hlast] at hbelow
    exact hne hbelow

/-- Any other slot lies beside the base font size. -/
theorem beside_fontSize (hslot : (s.toJson.at? (path key)).isSome) (hkey : key ∉ checkedKeys) :
    ¬path key <+: ["baseFontSize"] ∧ ¬["baseFontSize"] <+: path key := by
  have hpath : path "baseFontSize" = ["baseFontSize"] := by decide
  have hne : path key ≠ ["baseFontSize"] := by
    rw [← hpath]
    rintro h
    simp [checkedKeys, path_injective h] at hkey
  refine ⟨fun hprefix => ?_, not_prefix_of_at?_ofReal at?_fontSize hslot hne⟩
  obtain hnil | ⟨below, hbelow, hprefix⟩ := List.prefix_cons_iff.1 hprefix
  · exact path_ne_nil key hnil
  · rw [List.prefix_nil.1 hprefix] at hbelow
    exact hne hbelow

theorem fault?_congr {s t : Settings}
    (hthreshold : t.rounding.thresholdPercent = s.rounding.thresholdPercent)
    (hsize : t.baseFontSize = s.baseFontSize) : t.fault? = s.fault? := by
  rw [fault?, fault?, hthreshold, hsize]

/-- The check sees nothing of a change in another slot. -/
theorem Storable.fault?_eq (h : s.Storable) (hkey : key ∉ checkedKeys) {new : Json}
    (hchanged : Json.replaceAt new (path key) s.toJson = some changed.toJson) :
    changed.fault? = s.fault? := by
  have hslot : (s.toJson.at? (path key)).isSome := by
    rw [← Json.isSome_replaceAt, hchanged]
    rfl
  obtain ⟨hthreshold, hthreshold'⟩ := beside_threshold hslot hkey
  obtain ⟨hsize, hsize'⟩ := beside_fontSize hslot hkey
  have hthreshold := Json.at?_replaceAt_of_beside hchanged hthreshold hthreshold'
  have hsize := Json.at?_replaceAt_of_beside hchanged hsize hsize'
  rw [at?_threshold, at?_threshold, Option.some_inj] at hthreshold
  rw [at?_fontSize, at?_fontSize, Option.some_inj] at hsize
  exact fault?_congr (ofReal_inj h.threshold_finite hthreshold) (ofReal_inj h.fontSize_finite hsize)

/-- **Whether a change of another slot succeeds depends on the threshold and the base font size that
are there.** A value that is read at its slot is put there if both are in range, and otherwise
refused with the fault of the settings as they were, in the name of the slot that was to change. -/
theorem change_of_loaded {text : String} (hloaded : ofText? text = some s)
    (hslot : (s.toJson.at? (path key)).isSome) (hkey : key ∉ checkedKeys) (value : Json) :
    (s.change key value).map (fun changed => changed.toJson.at? (path key)) =
      match settled? (path key) value with
      | none => .error (.misfit key)
      | some new =>
        match s.fault? with
        | some fault => .error (.outOfRange key fault)
        | none => .ok (some new) := by
  have hs := storable_of_ofText? hloaded
  have hbind := hs.bind_replaceAt (path key) value
  obtain ⟨document, hdocument⟩ : ∃ document, Json.replaceAt value (path key) s.toJson =
      some document := by
    rwa [← Option.isSome_iff_exists, Json.isSome_replaceAt]
  rw [hdocument, Option.bind_some] at hbind
  rw [change, hdocument]
  dsimp only
  cases hnew : settled? (path key) value with
  | none =>
    rw [hnew, Option.bind_none, Option.map_eq_none_iff] at hbind
    rw [hbind]
    rfl
  | some new =>
    obtain ⟨replaced, hreplaced⟩ : ∃ replaced, Json.replaceAt new (path key) s.toJson =
        some replaced := by
      rwa [← Option.isSome_iff_exists, Json.isSome_replaceAt]
    rw [hnew, Option.bind_some, hreplaced, Option.map_eq_some_iff] at hbind
    obtain ⟨changed, hread, rfl⟩ := hbind
    rw [hread]
    dsimp only
    rw [hs.fault?_eq hkey hreplaced]
    cases s.fault? with
    | none => exact congrArg Except.ok (Json.at?_replaceAt hreplaced)
    | some fault => rfl

theorem change_of_loaded_vectors :
    ofText? "\x7b\x7d" = some {} ∧
      (({} : Settings).change "embedVectors" (.bool true)).map
        (fun changed => changed.toJson.at? (path "embedVectors")) = .ok (some (.bool true)) := by
  have hloaded : ofText? "\x7b\x7d" = some {} := by decide
  have hnew : settled? (path "embedVectors") (.bool true) = some (.bool true) := rfl
  refine ⟨hloaded, (change_of_loaded hloaded ?_ ?_ (.bool true)).trans ?_⟩
  · decide
  · decide
  · rw [hnew, fault?_eq_none_iff.2 inRange_init]

/-- A threshold beyond the range is loaded, and read as 50. After that no other slot can change. -/
theorem change_refused_for_threshold :
    ∃ s : Settings, ofText? "\x7b\"rounding\":\x7b\"thresholdPercent\":80\x7d\x7d" = some s ∧
      s.rounding.threshold = 50 ∧ (s.toJson.at? (path "embedVectors")).isSome ∧
      settled? (path "embedVectors") (.bool true) = some (.bool true) ∧
      s.change "embedVectors" (.bool true) = .error (.outOfRange "embedVectors" (.threshold 80)) ∧
      ({} : Settings).change "embedVectors" (.bool true) = .ok { embedVectors := true } := by
  refine ⟨{ rounding := { thresholdPercent := 80 } }, ?_, ?_, ?_, rfl, ?_, ?_⟩
  all_goals decide

end Settings

end Artboard
