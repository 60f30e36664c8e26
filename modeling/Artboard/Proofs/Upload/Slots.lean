import Artboard.Upload.Slots
import Mathlib.Algebra.Order.Floor.Div
import Mathlib.Data.Rat.Floor
import Mathlib.Tactic

/-!
# Accounting for the permits

A request under a limit of `k` takes at least the `k`-th part of all permits, so what the slot
holders take together bounds how many of them there can be, whatever limits they carry.

**The invariant** (`Slots.Balanced`). The free permits and those of the holders make up the whole
pool, and the counter of uploads in flight counts the holders. Each operation on the slots keeps it.
-/

namespace Artboard

namespace Ticket

variable (r : Ticket)

/-- The limit that a request carries, 0 being read as 1. -/
def atMost : Nat := max r.limit 1

theorem atMost_pos : 0 < r.atMost := Nat.lt_of_lt_of_le Nat.one_pos (Nat.le_max_right _ _)

theorem effectiveLimit_eq : r.effectiveLimit = min r.atMost permits := rfl

theorem effectiveLimit_pos : 0 < r.effectiveLimit :=
  Nat.lt_min.2 ⟨r.atMost_pos, by decide⟩

theorem weight_eq_ceilDiv : r.weight = permits ⌈/⌉ r.effectiveLimit := rfl

/-- The weight is the share of the permits, rounded up. -/
theorem weight_eq_ceil : r.weight = ⌈(permits : ℚ) / (min r.atMost permits : ℕ)⌉₊ := by
  rw [weight_eq_ceilDiv, effectiveLimit_eq]
  have hpos : 0 < min r.atMost permits := r.effectiveLimit_pos
  refine eq_of_forall_ge_iff fun n => ?_
  rw [ceilDiv_le_iff_le_mul hpos, Nat.ceil_le, div_le_iff₀ (by exact_mod_cast hpos), mul_comm]
  exact_mod_cast Iff.rfl

theorem weight_pos : 0 < r.weight := by
  refine Nat.pos_of_ne_zero fun h => ?_
  have hle : permits ≤ r.effectiveLimit * 0 :=
    (ceilDiv_le_iff_le_mul r.effectiveLimit_pos).1 (r.weight_eq_ceilDiv ▸ h).le
  rw [Nat.mul_zero] at hle
  exact absurd hle (by decide)

theorem weight_le_permits : r.weight ≤ permits := by
  rw [weight_eq_ceilDiv, ceilDiv_le_iff_le_mul r.effectiveLimit_pos]
  exact Nat.le_mul_of_pos_left _ r.effectiveLimit_pos

/-- As many requests as the limit says take all permits together. -/
theorem permits_le_atMost_mul_weight : permits ≤ r.atMost * r.weight := by
  by_cases h : r.atMost ≤ permits
  · have hmul := (ceilDiv_le_iff_le_mul r.effectiveLimit_pos).1 r.weight_eq_ceilDiv.ge
    rwa [effectiveLimit_eq, Nat.min_eq_left h] at hmul
  · exact (Nat.le_of_not_le h).trans (Nat.le_mul_of_pos_right _ r.weight_pos)

/-- One over the limit is at most the share of the permits that a request takes. -/
theorem inv_atMost_le : (1 : ℚ) / r.atMost ≤ r.weight / permits := by
  rw [div_le_div_iff₀ (by exact_mod_cast r.atMost_pos) (by norm_num [permits]), one_mul, mul_comm]
  exact_mod_cast r.permits_le_atMost_mul_weight

end Ticket

/-! ## Together -/

/-- The permits that some requests take together. -/
def totalWeight (rs : List Ticket) : Nat := (rs.map Ticket.weight).sum

@[simp] theorem totalWeight_nil : totalWeight [] = 0 := rfl

@[simp] theorem totalWeight_append (rs ss : List Ticket) :
    totalWeight (rs ++ ss) = totalWeight rs + totalWeight ss := by
  simp [totalWeight]

@[simp] theorem totalWeight_singleton (r : Ticket) : totalWeight [r] = r.weight := by
  simp [totalWeight]

theorem totalWeight_erase {rs : List Ticket} {r : Ticket} (h : r ∈ rs) :
    r.weight + totalWeight (rs.erase r) = totalWeight rs := by
  simpa [totalWeight] using ((List.perm_cons_erase h).map Ticket.weight).sum_eq.symm

/-- Requests that fit into the pool together have limits whose reciprocals sum up to at most 1. -/
theorem sum_inv_atMost_le {rs : List Ticket} (h : totalWeight rs ≤ permits) :
    (rs.map fun r => (1 : ℚ) / r.atMost).sum ≤ 1 := by
  have hpos : (0 : ℚ) < permits := by norm_num [permits]
  calc (rs.map fun r => (1 : ℚ) / r.atMost).sum
      ≤ (rs.map fun r => (r.weight : ℚ) / permits).sum :=
        List.sum_le_sum fun r _ => r.inv_atMost_le
    _ = (totalWeight rs : ℚ) / permits := by
        simp [totalWeight, div_eq_mul_inv, List.sum_map_mul_right, Nat.cast_list_sum,
          Function.comp_def]
    _ ≤ 1 := (div_le_one hpos).2 (by exact_mod_cast h)

/-- At most `k` requests that carry a limit of at most `k` fit into the pool together. -/
theorem countP_atMost_le {rs : List Ticket} (h : totalWeight rs ≤ permits) (k : Nat) :
    rs.countP (fun r => r.atMost ≤ k) ≤ k := by
  rcases Nat.eq_zero_or_pos k with rfl | hk
  · refine (List.countP_eq_zero.2 fun r _ => ?_).le
    simpa using r.atMost_pos.ne'
  · have hfew : permits * rs.countP (fun r => r.atMost ≤ k) ≤ k * totalWeight rs := by
      clear h
      induction rs with
      | nil => simp
      | cons r rest ih =>
        have hr := r.permits_le_atMost_mul_weight
        have hsum : totalWeight (r :: rest) = r.weight + totalWeight rest := by simp [totalWeight]
        rw [List.countP_cons, hsum, Nat.mul_add, Nat.mul_add, Nat.add_comm]
        refine Nat.add_le_add ?_ ih
        by_cases hle : r.atMost ≤ k
        · simpa [hle] using hr.trans (Nat.mul_le_mul_right _ hle)
        · simp [hle]
    have hall : permits * rs.countP (fun r => r.atMost ≤ k) ≤ permits * k :=
      hfew.trans ((Nat.mul_le_mul_left k h).trans (Nat.mul_comm k permits).le)
    exact Nat.le_of_mul_le_mul_left hall (by decide)

/-- A request with limit 1 leaves no permits to others. -/
theorem eq_singleton_of_atMost_one {rs : List Ticket} (h : totalWeight rs ≤ permits) {r : Ticket}
    (hr : r ∈ rs) (hone : r.atMost = 1) : rs = [r] := by
  have hall : permits ≤ r.weight := by simpa [hone] using r.permits_le_atMost_mul_weight
  have hrest : totalWeight (rs.erase r) = 0 := by
    have := totalWeight_erase hr
    omega
  have hnil : rs.erase r = [] := by
    cases hrs : rs.erase r with
    | nil => rfl
    | cons s rest =>
      have := s.weight_pos
      simp [hrs, totalWeight] at hrest
      omega
  exact List.perm_singleton.1 (hnil ▸ List.perm_cons_erase hr)

/-! ## The invariant -/

namespace Slots

/-- No permit is lost or handed out twice, and the uploads in flight are counted. -/
structure Balanced (s : Slots) : Prop where
  permits_eq : s.free + totalWeight s.holding = permits
  inFlight_eq : s.inFlight = s.holding.length

theorem balanced_init : Balanced {} := ⟨rfl, rfl⟩

variable {s : Slots}

theorem Balanced.totalWeight_le (h : s.Balanced) : totalWeight s.holding ≤ permits :=
  h.permits_eq ▸ Nat.le_add_left _ _

theorem Balanced.ask (h : s.Balanced) (r : Ticket) : (s.ask r).Balanced :=
  ⟨h.permits_eq, h.inFlight_eq⟩

theorem Balanced.withdraw (h : s.Balanced) (r : Ticket) : (s.withdraw r).Balanced :=
  ⟨h.permits_eq, h.inFlight_eq⟩

/-- Who is admitted was the first in the queue, and its permits were free. -/
theorem grant_eq_some {r : Ticket} {s' : Slots} :
    s.grant = some (r, s') ↔ ∃ rest, s.waiting = r :: rest ∧ r.weight ≤ s.free ∧
      s' = ⟨s.free - r.weight, s.inFlight + 1, rest, s.holding ++ [r]⟩ := by
  unfold grant
  cases hw : s.waiting with
  | nil => simp
  | cons head rest =>
    by_cases hfree : head.weight ≤ s.free <;> simp only [hfree, if_true, if_false]
    · constructor
      · rintro ⟨rfl, rfl⟩
        exact ⟨rest, rfl, hfree, rfl⟩
      · rintro ⟨rest', hcons, -, rfl⟩
        obtain ⟨rfl, rfl⟩ := List.cons.inj hcons
        rfl
    · constructor
      · rintro ⟨⟩
      · rintro ⟨rest', hcons, hle, -⟩
        obtain ⟨rfl, rfl⟩ := List.cons.inj hcons
        exact absurd hle hfree

theorem Balanced.grant (h : s.Balanced) {r : Ticket} {s' : Slots} (hg : s.grant = some (r, s')) :
    s'.Balanced := by
  obtain ⟨rest, -, hfree, rfl⟩ := grant_eq_some.1 hg
  have hsum := h.permits_eq
  refine ⟨?_, by simp [h.inFlight_eq]⟩
  simp only [totalWeight_append, totalWeight_singleton]
  omega

theorem Balanced.release (h : s.Balanced) (r : Ticket) : (s.release r).Balanced := by
  unfold Slots.release
  split_ifs with hr
  · have hsum := h.permits_eq
    have hsplit := totalWeight_erase hr
    refine ⟨?_, by simp [h.inFlight_eq, List.length_erase_of_mem hr]⟩
    show s.free + r.weight + totalWeight (s.holding.erase r) = permits
    omega
  · exact h

/-- Nobody in the queue takes more than all permits, so an idle pool has an empty queue. -/
theorem Balanced.waiting_eq_nil (h : s.Balanced) (hstuck : s.grant = none)
    (hidle : s.inFlight = 0) : s.waiting = [] := by
  have hnone : s.holding = [] := List.eq_nil_of_length_eq_zero (h.inFlight_eq ▸ hidle)
  have hfree : s.free = permits := by simpa [hnone] using h.permits_eq
  cases hw : s.waiting with
  | nil => rfl
  | cons r rest => simp [Slots.grant, hw, hfree, r.weight_le_permits] at hstuck

/-- If the first in the queue is not admitted, too few permits are free for it. -/
theorem free_lt_of_grant_eq_none (h : s.grant = none) {r : Ticket}
    (hr : s.waiting.head? = some r) : s.free < r.weight := by
  unfold Slots.grant at h
  cases hw : s.waiting with
  | nil => simp [hw] at hr
  | cons head rest =>
    obtain rfl : head = r := by simpa [hw] using hr
    simpa [hw] using h

end Slots

end Artboard
