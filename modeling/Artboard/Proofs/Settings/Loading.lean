import Artboard.Proofs.Json.Numbers
import Artboard.Proofs.Settings.Slots

/-!
# Loaded settings

Settings that were read from a text can be stored again (`storable_of_ofText?`): the text has only
finite numbers, and the numbers that stand in for absent ones are finite too. They need not be in
range.
-/

namespace Artboard

open Json

variable {levels : Nat} {j : Json} {r : Record} {name : String}

namespace Json

/-! ## Fields -/

/-- What is present in a record comes from its value. -/
theorem representable_of_record? {known : List (List String)} (hj : j.Representable)
    (h : record? known levels j = some r) : ∀ m ∈ r.present, m.2.Representable := by
  unfold record? at h
  split at h
  case h_1 levels members =>
    cases hj with
    | object hmembers =>
      dsimp only at h
      split_ifs at h
      cases h
      intro m hm
      obtain ⟨⟨key, j⟩, hmem, hname⟩ := List.mem_filterMap.1 hm
      obtain ⟨name, -, rfl⟩ := Option.map_eq_some_iff.1 hname
      exact hmembers (key, j) hmem
  case h_2 levels items =>
    cases hj with
    | list hitems =>
      split_ifs at h
      cases h
      exact fun m hm => hitems m.2 (List.of_mem_zip hm).2
  case h_3 => cases h

/-- What holds of the absent value and of all that is read, holds of the field. -/
theorem field_induction {α : Type} {read : Reader α} {absent a : α} {p : α → Prop}
    (hr : ∀ m ∈ r.present, m.2.Representable) (habsent : p absent)
    (hread : ∀ levels j a, j.Representable → read levels j = some a → p a)
    (h : r.field name read absent = some a) : p a := by
  unfold Record.field at h
  split at h
  case h_1 j hlookup =>
    obtain ⟨before, behind, hpresent, -⟩ := List.lookup_eq_some_iff.1 hlookup
    exact hread _ j a (hr (name, j) (by simp [hpresent])) h
  case h_2 =>
    cases h
    exact habsent

theorem isFinite_of_asReal {x : Float} (hj : j.Representable) (h : asReal levels j = some x) :
    x.isFinite = true := by
  cases hj with
  | whole hn =>
    cases h
    exact Number.isFinite_ofInt hn
  | real hx =>
    cases h
    exact hx
  | _ => cases h

theorem le_of_asNat {greatest n : Nat} (h : asNat greatest levels j = some n) : n ≤ greatest := by
  unfold asNat at h
  grind

end Json

/-! ## Settings -/

theorem Rounding.finite_of_read {rounding : Rounding} (hj : j.Representable)
    (h : Rounding.read levels j = some rounding) :
    rounding.thresholdPercent.isFinite = true := by
  simp only [Rounding.read, Option.bind_eq_bind, Option.bind_eq_some_iff] at h
  obtain ⟨r, hr, -, -, -, -, threshold, hthreshold, ⟨⟩⟩ := h
  exact field_induction (p := fun x => x.isFinite = true) (representable_of_record? hj hr)
    (by decide) (fun _ _ _ => isFinite_of_asReal) hthreshold

theorem UploadSettings.finite_of_read {uploads : UploadSettings} (hj : j.Representable)
    (h : UploadSettings.read levels j = some uploads) :
    uploads.cacheHours.isFinite = true ∧ uploads.maxConcurrent ≤ UploadSettings.maxLimit := by
  simp only [UploadSettings.read, Option.bind_eq_bind, Option.bind_eq_some_iff] at h
  obtain ⟨r, hr, -, -, -, -, -, -, hours, hhours, limit, hlimit, -, -, -, -, ⟨⟩⟩ := h
  have hpresent := representable_of_record? hj hr
  constructor
  · exact field_induction (p := fun x => x.isFinite = true) hpresent
      (by decide) (fun _ _ _ => isFinite_of_asReal) hhours
  · exact field_induction (p := fun n => n ≤ UploadSettings.maxLimit) hpresent (by decide)
      (fun _ _ _ _ => le_of_asNat) hlimit

namespace Settings

/-- **Settings that were loaded can be stored.** -/
theorem storable_of_ofText? {text : String} {s : Settings} (h : ofText? text = some s) :
    s.Storable := by
  obtain ⟨j, hj, h⟩ := Option.bind_eq_some_iff.1 h
  have hj := representable_of_parse? hj
  rw [ofJson?, read] at h
  obtain ⟨r, hr, h⟩ := Option.bind_eq_some_iff.1 h
  simp only [Option.bind_eq_bind, Option.bind_eq_some_iff] at h
  obtain ⟨-, -, rounding, hrounding, -, -, -, -, -, -, -, -, size, hsize, -, -, families,
    hfamilies, -, -, uploads, huploads, ⟨⟩⟩ := h
  have hpresent := representable_of_record? hj hr
  have hstored := field_induction
    (p := fun u => u.cacheHours.isFinite = true ∧ u.maxConcurrent ≤ UploadSettings.maxLimit)
    hpresent ⟨storable_init.cacheHours_finite, storable_init.maxConcurrent_le⟩
    (fun _ _ _ => UploadSettings.finite_of_read) huploads
  exact {
    threshold_finite := field_induction (p := fun r => r.thresholdPercent.isFinite = true)
      hpresent storable_init.threshold_finite (fun _ _ _ => Rounding.finite_of_read) hrounding
    fontSize_finite := field_induction (p := fun x => x.isFinite = true) hpresent
      storable_init.fontSize_finite (fun _ _ _ => isFinite_of_asReal) hsize
    cacheHours_finite := hstored.1
    maxConcurrent_le := hstored.2
    fontFamilies_ascending := field_induction (p := Ascending) hpresent
      storable_init.fontFamilies_ascending (fun _ _ _ _ => ascending_of_asMap) hfamilies }

end Settings

end Artboard
