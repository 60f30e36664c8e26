import Artboard.Geometry.Snap
import Mathlib.Algebra.Order.Ring.Abs
import Mathlib.Algebra.Order.Ring.Rat
import Mathlib.Data.List.Nodup
import Mathlib.Tactic.Linarith
import Mathlib.Tactic.NormNum
import Mathlib.Tactic.SplitIfs

/-!
# Snapping is rounding

Numbers are read exactly here, as rationals. On an ascending scale, snapping is rounding to the
nearest value, the smaller one of two equally near ones, for as long as the threshold allows it
(`rounds_of_ascending`).

The nearest entry is found in one pass that replaces the best entry so far only by a strictly nearer
one. Later entries have greater values, so what stays on a tie is the smaller value
(`isNearest_foldl`). The threshold has no say in which entry is the nearest: a higher one gives more
labels, and never other ones.
-/

namespace Artboard.Scale

variable {β : Type} {raw raw' percent : ℚ} {scale rest : List (ℚ × β)} {best next entry : ℚ × β}

/-! ## Exact readings -/

theorem gap_eq_abs (x y : ℚ) : Quantity.gap x y = |x - y| := by
  simp only [Quantity.gap, Quantity.magnitude, Quantity.lt, Quantity.zero, Quantity.neg,
    Quantity.sub, decide_eq_true_eq]
  split_ifs with h
  · rw [abs_of_neg h]
  · rw [abs_of_nonneg (not_lt.1 h)]

theorem nearer_eq :
    nearer raw best next = if |raw - next.1| < |raw - best.1| then next else best := by
  simp only [nearer, gap_eq_abs, Quantity.lt, decide_eq_true_eq]

theorem within_iff (hraw : 0 < raw) {value : ℚ} :
    within raw value percent = true ↔ |raw - value| * 100 ≤ percent * raw := by
  have hmagnitude : Quantity.magnitude raw = raw := by
    simp [Quantity.magnitude, Quantity.lt, Quantity.zero, hraw.le]
  simp [within, gap_eq_abs, hmagnitude, Quantity.equal, Quantity.zero, Quantity.le, Quantity.mul,
    Quantity.hundred, hraw.ne']

/-! ## The nearest entry -/

/-- Each value is greater than those in front of it. -/
def Ascending (scale : List (ℚ × β)) : Prop := scale.Pairwise fun a b => a.1 < b.1

/-- No entry is nearer to `raw`, and among those as near this one has the smallest value. -/
structure IsNearest (raw : ℚ) (scale : List (ℚ × β)) (entry : ℚ × β) : Prop where
  mem : entry ∈ scale
  least : ∀ other ∈ scale, |raw - entry.1| ≤ |raw - other.1|
  smallest : ∀ other ∈ scale, |raw - other.1| = |raw - entry.1| → entry.1 ≤ other.1

namespace IsNearest

/-- An entry of an ascending scale is known by its value. -/
theorem eq (hscale : Ascending scale) {other : ℚ × β} (hentry : IsNearest raw scale entry)
    (hother : IsNearest raw scale other) : entry = other := by
  have hgap : |raw - entry.1| = |raw - other.1| :=
    (hentry.least _ hother.mem).antisymm (hother.least _ hentry.mem)
  have hvalue : entry.1 = other.1 :=
    (hentry.smallest _ hother.mem hgap.symm).antisymm (hother.smallest _ hentry.mem hgap)
  have hnodup : (scale.map Prod.fst).Nodup := (List.pairwise_map.2 hscale).imp fun h => h.ne
  exact List.inj_on_of_nodup_map hnodup hentry.mem hother.mem hvalue

/-- A greater value has no smaller entry nearest to it: if `entry'` were below `entry`, then `raw`
would be above the middle between the two, and `raw'` would not. -/
theorem mono {entry' : ℚ × β} (hentry : IsNearest raw scale entry)
    (hentry' : IsNearest raw' scale entry') (hraw : raw ≤ raw') : entry.1 ≤ entry'.1 := by
  by_contra! hbelow
  have hnear : |raw - entry.1| < |raw - entry'.1| := by
    refine (hentry.least _ hentry'.mem).lt_of_ne fun heq => ?_
    exact hbelow.not_ge (hentry.smallest _ hentry'.mem heq.symm)
  have hnear' : |raw' - entry'.1| ≤ |raw' - entry.1| := hentry'.least _ hentry.mem
  have habove : entry.1 + entry'.1 < 2 * raw := by
    rw [← sq_lt_sq] at hnear
    nlinarith
  have hunder : 2 * raw' ≤ entry.1 + entry'.1 := by
    rw [← sq_le_sq] at hnear'
    nlinarith
  linarith

/-- A value on the scale is nearest to itself. -/
theorem of_mem (h : entry ∈ scale) : IsNearest entry.1 scale entry where
  mem := h
  least other _ := by simp
  smallest other _ heq := by
    rw [sub_self, abs_zero, abs_eq_zero, sub_eq_zero] at heq
    exact heq.le

end IsNearest

/-- The pass over a scale keeps the nearest entry so far, the smaller one on a tie. -/
theorem isNearest_foldl (hscale : Ascending (best :: rest)) :
    IsNearest raw (best :: rest) (rest.foldl (nearer raw) best) := by
  induction rest generalizing best with
  | nil =>
    have hall {p : ℚ × β → Prop} (h : p best) : ∀ other ∈ [best], p other :=
      List.forall_mem_singleton.2 h
    exact ⟨List.mem_singleton_self _, hall le_rfl, hall fun _ => le_rfl⟩
  | cons next rest ih =>
    obtain ⟨hbest, hrest⟩ := List.pairwise_cons.1 hscale
    obtain ⟨hnext, hfurther⟩ := List.forall_mem_cons.1 hbest
    rw [List.foldl_cons, nearer_eq]
    split_ifs with hcloser
    · -- The best entry so far loses to `next`, so it is further away than what wins in the end.
      have h := ih hrest
      have hlost := (h.least next List.mem_cons_self).trans_lt hcloser
      exact ⟨List.mem_cons_of_mem _ h.mem, List.forall_mem_cons.2 ⟨hlost.le, h.least⟩,
        List.forall_mem_cons.2 ⟨fun heq => absurd heq hlost.ne', h.smallest⟩⟩
    · -- The entry `next` is no nearer than the best one, and its value is greater.
      have h := ih (List.pairwise_cons.2 ⟨hfurther, (List.pairwise_cons.1 hrest).2⟩)
      obtain ⟨hleast, hleasts⟩ := List.forall_mem_cons.1 h.least
      obtain ⟨hsmallest, hsmallests⟩ := List.forall_mem_cons.1 h.smallest
      have hkept := not_lt.1 hcloser
      refine ⟨?_, ?_, ?_⟩
      · exact List.cons_subset_cons _ (List.subset_cons_self _ _) h.mem
      · exact List.forall_mem_cons.2
          ⟨hleast, List.forall_mem_cons.2 ⟨hleast.trans hkept, hleasts⟩⟩
      · refine List.forall_mem_cons.2
          ⟨hsmallest, List.forall_mem_cons.2 ⟨fun heq => ?_, hsmallests⟩⟩
        exact (hsmallest ((hkept.trans heq.le).antisymm hleast)).trans hnext.le

theorem nearest_eq_some_iff (hscale : Ascending scale) :
    nearest raw scale = some entry ↔ IsNearest raw scale entry := by
  cases scale with
  | nil => exact iff_of_false nofun fun h => List.not_mem_nil h.mem
  | cons first rest =>
    have h : IsNearest raw (first :: rest) (rest.foldl (nearer raw) first) := isNearest_foldl hscale
    rw [nearest, Option.some_inj]
    exact ⟨fun heq => heq ▸ h, fun hentry => h.eq hscale hentry⟩

theorem snap_eq_some_iff (hscale : Ascending scale) (hraw : 0 < raw) {label : β} :
    snap raw scale percent = some label ↔
      ∃ value, IsNearest raw scale (value, label) ∧ |raw - value| * 100 ≤ percent * raw := by
  simp only [← nearest_eq_some_iff hscale, ← within_iff hraw]
  unfold snap
  rcases nearest raw scale with _ | ⟨value, other⟩
  · simp
  · simp [and_comm]

/-! ## Rounding -/

/-- Snapping onto the scale is rounding to its nearest value, within a threshold. -/
structure Rounds (scale : List (ℚ × β)) : Prop where
  /-- What is snapped onto is determined. -/
  unique : ∀ raw, scale ≠ [] → ∃! entry, IsNearest raw scale entry
  /-- A label is given iff it is that of the nearest entry and that entry is near enough. -/
  label_iff : ∀ raw percent label, 0 < raw → (snap raw scale percent = some label ↔
    ∃ value, IsNearest raw scale (value, label) ∧ |raw - value| * 100 ≤ percent * raw)
  none_iff : ∀ raw percent, 0 < raw → (snap raw scale percent = none ↔
    ∀ entry, IsNearest raw scale entry → percent * raw < |raw - entry.1| * 100)
  /-- A higher threshold leaves the labels there are. -/
  keeps : ∀ raw percent percent' label, 0 < raw → percent ≤ percent' →
    snap raw scale percent = some label → snap raw scale percent' = some label
  /-- A value of the scale stays as it is. -/
  fixes : ∀ raw percent label, 0 < raw → 0 ≤ percent → (raw, label) ∈ scale →
    snap raw scale percent = some label
  /-- Of two values the greater one does not get the smaller entry. -/
  mono : ∀ raw raw' percent percent' label label', 0 < raw → raw ≤ raw' →
    snap raw scale percent = some label → snap raw' scale percent' = some label' →
    ∃ value value', IsNearest raw scale (value, label) ∧ IsNearest raw' scale (value', label') ∧
      value ≤ value'

/-- **Snapping onto an ascending scale is rounding to the nearest value,** whatever the values, the
labels and the threshold are. -/
theorem rounds_of_ascending (hscale : Ascending scale) : Rounds scale where
  unique raw hne := by
    obtain ⟨first, rest, rfl⟩ := List.exists_cons_of_ne_nil hne
    exact ⟨_, isNearest_foldl hscale, fun entry hentry => hentry.eq hscale (isNearest_foldl hscale)⟩
  label_iff raw percent label hraw := snap_eq_some_iff hscale hraw
  none_iff raw percent hraw := by
    rw [Option.eq_none_iff_forall_ne_some]
    simp only [ne_eq, snap_eq_some_iff hscale hraw, not_exists, not_and, not_le, Prod.forall]
    exact forall_comm
  keeps raw percent percent' label hraw hpercent h := by
    obtain ⟨value, hnearest, hwithin⟩ := (snap_eq_some_iff hscale hraw).1 h
    have hhigher : percent * raw ≤ percent' * raw := mul_le_mul_of_nonneg_right hpercent hraw.le
    exact (snap_eq_some_iff hscale hraw).2 ⟨value, hnearest, hwithin.trans hhigher⟩
  fixes raw percent label hraw hpercent hmem := by
    refine (snap_eq_some_iff hscale hraw).2 ⟨raw, .of_mem hmem, ?_⟩
    rw [sub_self, abs_zero, zero_mul]
    exact mul_nonneg hpercent hraw.le
  mono raw raw' percent percent' label label' hraw hle h h' := by
    obtain ⟨value, hnearest, -⟩ := (snap_eq_some_iff hscale hraw).1 h
    obtain ⟨value', hnearest', -⟩ := (snap_eq_some_iff hscale (hraw.trans_le hle)).1 h'
    exact ⟨value, value', hnearest, hnearest', hnearest.mono hnearest' hle⟩

/-- A scale with a tie in the middle of 4 and 8, and with 48 exactly four per cent below 50. -/
theorem rounds_of_some_spacings :
    let scale : List (ℚ × String) := [(0, "0"), (4, "1"), (8, "2"), (48, "12"), (64, "16")]
    Ascending scale ∧ Rounds scale ∧ snap 6 scale 50 = some "1" ∧ snap 50 scale 4 = some "12" ∧
      snap 50 scale (399 / 100) = none := by
  intro scale
  have hscale : Ascending scale := by
    simp [Ascending, scale]
    norm_num
  exact ⟨hscale, rounds_of_ascending hscale, by decide +kernel, by decide +kernel,
    by decide +kernel⟩

end Artboard.Scale
