import Artboard.Proofs.Upload.Order

/-!
# How many uploads run at once

However requests with different limits come together, no limit is exceeded: `holders_share_pool`.
The permits are kept in balance move by move, and the bounds follow from the balance alone.
-/

namespace Artboard.Traffic

variable {j : Journal} {t t' : Traffic}

/-! ## The permits of a run -/

theorem balanced_move (h : t.pipeline.slots.Balanced) (m : Move t j t') :
    t'.pipeline.slots.Balanced := by
  cases m with
  | learn | refuse | reuse => exact h
  | join limit => exact h.ask _
  | drop => exact (h.withdraw _).release _
  | leave grant => exact (h.grant (Pipeline.slots_grant_of_grant grant)).release _
  | call grant => exact h.grant (Pipeline.slots_grant_of_grant grant)
  | finish url => exact Pipeline.finish_slots _ _ url ▸ h.release _

theorem balanced_run (turns : List Turn) : (run {} turns).1.pipeline.slots.Balanced :=
  run_keeps (I := fun _ t => t.pipeline.slots.Balanced) Slots.balanced_init balanced_move turns

/-! ## What was asked for -/

/-- The content and the limit of the request that is made in a turn. -/
def Turn.asks? : Turn → Option (String × Nat)
  | .event (.request key limit _) => some (key, limit)
  | _ => none

theorem asked_conclude (t : Traffic) (r : Ticket) : (t.conclude r).2.asked = [] := by
  obtain ⟨url, -, hc⟩ | ⟨-, hc⟩ := t.conclude_cases r <;> rw [hc] <;> rfl

theorem asked_poll (t : Traffic) (id : Nat) : (t.poll id).2.asked = [] := by
  obtain ⟨r, -, hp⟩ | ⟨r, p, -, hp⟩ | hp := t.poll_cases id <;> rw [hp]
  · exact asked_conclude t r
  · obtain ⟨url, -, hc⟩ | ⟨-, hc⟩ := proceed_cases { t with pipeline := p } r <;> rw [hc]
    · rfl
    · exact asked_conclude { t with pipeline := p } r
  · rfl

theorem asked_receive (t : Traffic) (event : TrafficEvent) :
    (t.receive event).2.asked.map (fun r => (r.key, r.limit)) =
      ((Turn.event event).asks?).toList := by
  cases event with
  | request key limit enabled =>
    simp only [receive, request]
    cases enabled with
    | false => rfl
    | true => cases h : t.pipeline.cache.get? key <;> simp [Journal.asked, Turn.asks?]
  | outcome id url => rfl
  | cancel id =>
    simp only [receive, cancel]
    split <;> rfl

/-- The tickets of a run are those of its requests, in order. -/
theorem asked_run (t : Traffic) (turns : List Turn) :
    (t.run turns).2.asked.map (fun r => (r.key, r.limit)) = turns.filterMap Turn.asks? := by
  induction turns generalizing t with
  | nil => rfl
  | cons turn rest ih =>
    show (Journal.asked ((t.take turn).2 ++ ((t.take turn).1.run rest).2)).map _ = _
    rw [Journal.asked_append, List.map_append, ih]
    cases turn with
    | poll id => simp [take, asked_poll, Turn.asks?, List.filterMap_cons]
    | event event =>
      show (t.receive event).2.asked.map _ ++ _ = _
      rw [asked_receive]
      cases h : (Turn.event event).asks? <;> simp [h]

/-! ## Limits -/

/-- **The uploads under way respect every limit.** After any turns the slot holders are the requests
whose upload is under way. Their shares of the permits, rounded up, fit into the pool; so the
reciprocals of their limits sum up to at most 1, at most `k` of them have a limit of at most `k`,
and one with limit 1 is alone. The limits are those that the requests were made with, 0 read as
1. -/
theorem holders_share_pool (turns : List Turn) :
    let t := (run {} turns).1
    let j := (run {} turns).2
    (∀ r, r ∈ t.holding ↔ .called r ∈ j ∧ (∀ url, .ended r url ∉ j) ∧ .dropped r ∉ j) ∧
      t.holding ⊆ j.asked ∧
      j.asked.map (fun r => (r.key, r.limit)) = turns.filterMap Turn.asks? ∧
      (t.holding.map fun r => ⌈(permits : ℚ) / (min (max r.limit 1) permits : ℕ)⌉₊).sum ≤ permits ∧
      (t.holding.map fun r => (1 : ℚ) / (max r.limit 1 : ℕ)).sum ≤ 1 ∧
      (∀ k, t.holding.countP (fun r => max r.limit 1 ≤ k) ≤ k) ∧
      (∀ r ∈ t.holding, max r.limit 1 = 1 → t.holding = [r]) ∧
      t.pipeline.slots.inFlight = t.holding.length := by
  intro t j
  have ho : Ordered j t := ordered_run turns
  have hb : t.pipeline.slots.Balanced := balanced_run turns
  have hle : totalWeight t.holding ≤ permits := hb.totalWeight_le
  refine ⟨ho.held.holds, fun r hr => ?_, asked_run {} turns, ?_, sum_inv_atMost_le hle,
    countP_atMost_le hle, fun r hr => eq_singleton_of_atMost_one hle hr, hb.inFlight_eq⟩
  · exact ho.numbered.opened r (List.mem_append_left _ hr)
  · have hweights : t.holding.map Ticket.weight =
        t.holding.map fun r => ⌈(permits : ℚ) / (min (max r.limit 1) permits : ℕ)⌉₊ :=
      List.map_congr_left fun r _ => r.weight_eq_ceil
    exact hweights ▸ hle

end Artboard.Traffic
