import Artboard.Proofs.Upload.Queue

/-!
# Room in the pool

Where all requests carry one limit, each takes the same number of permits, and as many uploads have
room in the pool as that number goes into all permits (`roomFor`). Nobody waits before they all run
(`waits_only_when_full`).

The share of a request is rounded up, so the room is the limit itself for the divisors of the number
of permits, every limit up to 16 among them, and less for all others.
-/

namespace Artboard

/-- How many uploads under one limit have room in the pool. -/
def roomFor (limit : Nat) : Nat := permits / (permits ⌈/⌉ min (max limit 1) permits)

theorem permits_pos : 0 < permits := by decide

/-! ## Room and limit -/

namespace Ticket

variable (r : Ticket)

theorem roomFor_limit : roomFor r.limit = permits / r.weight := by
  rw [weight_eq_ceilDiv, effectiveLimit_eq, atMost, roomFor]

/-- Never more uploads than the limit says. -/
theorem roomFor_le_atMost : roomFor r.limit ≤ r.atMost := by
  rw [roomFor_limit]
  refine Nat.div_le_of_le_mul ?_
  rw [Nat.mul_comm]
  exact r.permits_le_atMost_mul_weight

end Ticket

variable {k : Nat}

theorem roomFor_le (hk : 1 ≤ k) : roomFor k ≤ k := by
  have h := Ticket.roomFor_le_atMost ⟨0, "", k⟩
  rwa [Ticket.atMost, Nat.max_eq_left hk] at h

/-- A limit that divides the permits is reached. -/
theorem roomFor_of_dvd (h : k ∣ permits) : roomFor k = k := by
  obtain ⟨share, hshare⟩ := h
  have hk : 0 < k := Nat.pos_of_mul_pos_right (hshare ▸ permits_pos)
  have hpos : 0 < share := Nat.pos_of_mul_pos_left (hshare ▸ permits_pos)
  have hle : k ≤ permits := hshare ▸ Nat.le_mul_of_pos_right k hpos
  have hceil : permits ⌈/⌉ k = share := by
    rw [hshare, ← smul_eq_mul]
    exact smul_ceilDiv hk share
  rw [roomFor, Nat.max_eq_left hk, Nat.min_eq_left hle, hceil, hshare, Nat.mul_div_cancel _ hpos]

/-- No other limit is. -/
theorem dvd_of_roomFor_eq (hk : 1 ≤ k) (h : roomFor k = k) : k ∣ permits := by
  set share := permits ⌈/⌉ min (max k 1) permits with hshare
  have hfits : k * share ≤ permits := by
    rw [← h, roomFor, ← hshare]
    exact Nat.div_mul_le_self permits share
  have hcovers : permits ≤ k * share := by
    have := Ticket.permits_le_atMost_mul_weight ⟨0, "", k⟩
    rwa [Ticket.weight_eq_ceilDiv, Ticket.effectiveLimit_eq, Ticket.atMost, ← hshare,
      Nat.max_eq_left hk] at this
  exact ⟨share, Nat.le_antisymm hcovers hfits⟩

theorem roomFor_eq_iff (hk : 1 ≤ k) : roomFor k = k ↔ k ∣ permits :=
  ⟨dvd_of_roomFor_eq hk, roomFor_of_dvd⟩

theorem dvd_permits_of_le (hk : 1 ≤ k) (h : k ≤ 16) : k ∣ permits := by
  interval_cases k <;> decide

/-! ## Pools that are used up -/

/-- Requests that take alike take together what one takes, as often as there are requests. -/
theorem totalWeight_of_limit {rs : List Ticket} {r : Ticket} (h : ∀ s ∈ rs, s.limit = r.limit) :
    totalWeight rs = rs.length * r.weight := by
  have hweights : rs.map Ticket.weight = rs.map fun _ => r.weight := by
    refine List.map_congr_left fun s hs => ?_
    rw [Ticket.weight, Ticket.weight, Ticket.effectiveLimit, Ticket.effectiveLimit, h s hs]
  simp [totalWeight, hweights]

namespace Slots

variable {s : Slots}

/-- Requests that hold slots under one limit have room in the pool. -/
theorem Balanced.inFlight_le (h : s.Balanced) {r : Ticket}
    (hlimit : ∀ u ∈ s.holding, u.limit = r.limit) : s.inFlight ≤ roomFor r.limit := by
  have hsum := h.totalWeight_le
  rw [totalWeight_of_limit hlimit, ← h.inFlight_eq] at hsum
  rw [r.roomFor_limit]
  exact (Nat.le_div_iff_mul_le r.weight_pos).2 hsum

/-- If the first in the queue is not admitted to holders under its own limit, there is no room for
one more. -/
theorem Balanced.inFlight_eq_roomFor (h : s.Balanced) (hstuck : s.grant = none) {r : Ticket}
    (hr : s.waiting.head? = some r) (hlimit : ∀ u ∈ s.holding, u.limit = r.limit) :
    s.inFlight = roomFor r.limit := by
  refine Nat.le_antisymm (h.inFlight_le hlimit) ?_
  have hfree := free_lt_of_grant_eq_none hstuck hr
  have hsum := h.permits_eq
  rw [totalWeight_of_limit hlimit, ← h.inFlight_eq] at hsum
  have hnext : permits < (s.inFlight + 1) * r.weight := by
    rw [Nat.add_one_mul]
    omega
  rw [r.roomFor_limit]
  exact Nat.le_of_lt_succ ((Nat.div_lt_iff_lt_mul r.weight_pos).2 hnext)

end Slots

namespace Traffic

variable {turns : List Turn}

/-- The requests of a run carry the limits that they were made with. -/
theorem limit_of_mem_asked
    (hlimit : ∀ key limit enabled, .event (.request key limit enabled) ∈ turns → limit = k)
    {r : Ticket} (hr : r ∈ (run {} turns).2.asked) : r.limit = k := by
  have hmem : (r.key, r.limit) ∈ turns.filterMap Turn.asks? :=
    asked_run {} turns ▸ List.mem_map_of_mem (f := fun r => (r.key, r.limit)) hr
  obtain ⟨turn, hturn, hasks⟩ := List.mem_filterMap.1 hmem
  cases turn with
  | poll id => cases hasks
  | event event =>
    cases event with
    | request key limit enabled =>
      obtain ⟨rfl, rfl⟩ := Prod.mk.inj (Option.some.inj hasks)
      exact hlimit _ _ _ hturn
    | outcome id url => cases hasks
    | cancel id => cases hasks

/-- Who waits missed the cache, and was neither admitted nor dropped since. -/
theorem Ordered.mem_waiting_iff {j : Journal} {t : Traffic} (ho : Ordered j t) {r : Ticket} :
    r ∈ t.waiting ↔ .queued r ∈ j ∧ r ∉ j.admitted ∧ .dropped r ∉ j := by
  constructor
  · intro hr
    exact ⟨Journal.mem_queued.1 (ho.fair.mem_queued (.inr hr)),
      ho.fair.not_admitted ho.numbered hr, ho.fair.not_dropped ho.numbered hr⟩
  · rintro ⟨hqueued, hadmitted, hdropped⟩
    have hmem : r ∈ j.admitted ++ t.waiting := by
      rw [ho.fair.split, List.mem_filter, decide_eq_true_iff]
      exact ⟨Journal.mem_queued.2 hqueued, .inr hdropped⟩
    exact (List.mem_append.1 hmem).resolve_left hadmitted

/-- **No room is left unused.** After turns in which all requests carry the limit `k`, at most as
many uploads run as have room in the pool. Once every request has gone on as far as it can, one that
missed the cache still waits only if that many are under way. The room is `k` if `k` divides the
number of permits, as every limit up to 16 does, and less than `k` otherwise. -/
theorem waits_only_when_full (hk : 1 ≤ k)
    (hlimit : ∀ key limit enabled, .event (.request key limit enabled) ∈ turns → limit = k) :
    let t := (run {} turns).1
    let j := (run {} turns).2
    t.pipeline.slots.inFlight ≤ roomFor k ∧
      (t.Settled → ∀ r, .queued r ∈ j → r ∉ j.admitted → .dropped r ∉ j →
        t.pipeline.slots.inFlight = roomFor k) ∧
      t.settle.1.Settled ∧
      roomFor k ≤ k ∧ (roomFor k = k ↔ k ∣ permits) ∧ (k ≤ 16 → roomFor k = k) := by
  intro t j
  have ho : Ordered j t := ordered_run turns
  have hb : t.pipeline.slots.Balanced := balanced_run turns
  have hopen : ∀ r ∈ t.openRequests, r.limit = k :=
    fun r hr => limit_of_mem_asked hlimit (ho.numbered.opened r hr)
  have hheld : ∀ r ∈ t.holding, r.limit = k := fun r hr => hopen r (List.mem_append_left _ hr)
  refine ⟨hb.inFlight_le (r := ⟨0, "", k⟩) hheld, fun hs r hqueued hadmitted hdropped => ?_,
    settled_settle ho, roomFor_le hk, roomFor_eq_iff hk,
    fun h => roomFor_of_dvd (dvd_permits_of_le hk h)⟩
  have hwaits : r ∈ t.waiting := ho.mem_waiting_iff.2 ⟨hqueued, hadmitted, hdropped⟩
  obtain ⟨first, rest, hw⟩ := List.exists_cons_of_ne_nil (List.ne_nil_of_mem hwaits)
  have hhead : t.waiting.head? = some first := List.head?_eq_some_iff.2 ⟨rest, hw⟩
  have hfirst : first.limit = k :=
    hopen first (List.mem_append_right _ (List.mem_of_mem_head? hhead))
  have hstuck : t.pipeline.slots.grant = none := Pipeline.grant_eq_none.1 (hs.grant_eq_none ho)
  have hfull := hb.inFlight_eq_roomFor hstuck hhead fun u hu => (hheld u hu).trans hfirst.symm
  rwa [hfirst] at hfull

/-! ## Crowds -/

/-- Requests for different contents under one limit, each polled as soon as it is made. -/
def crowd (count limit : Nat) : List Turn :=
  (List.range count).flatMap fun i => [.event (.request (toString i) limit true), .poll i]

theorem limit_of_mem_crowd {count limit : Nat} :
    ∀ key l enabled, .event (.request key l enabled) ∈ crowd count limit → l = limit := by
  intro key l enabled h
  obtain ⟨i, -, hi⟩ := List.mem_flatMap.1 h
  simp only [List.mem_cons, Turn.event.injEq, TrafficEvent.request.injEq, reduceCtorEq,
    List.not_mem_nil, or_false] at hi
  exact hi.2.1

/-- Three uploads under a limit of three leave a fourth request waiting. -/
theorem waits_only_when_full_crowd :
    let t := (run {} (crowd 4 3)).1
    t.Settled ∧ t.waiting.map Ticket.id = [3] ∧ t.pipeline.slots.inFlight = 3 ∧ roomFor 3 = 3 := by
  have hs : (run {} (crowd 4 3)).1.Settled :=
    settled_of_awaiting (by unfold Awaiting; decide) (by decide)
  have hlimit := @limit_of_mem_crowd 4 3
  obtain ⟨-, hfull, -, -, -, hroom⟩ := waits_only_when_full (by decide) hlimit
  refine ⟨hs, by decide, ?_, hroom (by decide)⟩
  rw [hfull hs ⟨3, "3", 3⟩ (by decide) (by decide) (by decide),
    hroom (by decide)]

/-- Under a limit of 17 a request waits though no more than 16 uploads are under way. -/
theorem seventeenth_waits :
    let t := (run {} (crowd 17 17)).1
    (∀ key limit enabled, .event (.request key limit enabled) ∈ crowd 17 17 → limit = 17) ∧
      t.Settled ∧ t.waiting = [⟨16, "16", 17⟩] ∧ t.pipeline.slots.inFlight = 16 :=
  ⟨limit_of_mem_crowd,
    settled_of_awaiting (by unfold Awaiting; decide) (by decide),
    by decide, by decide⟩

end Traffic

end Artboard
