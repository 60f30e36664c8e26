import Artboard.Proofs.Upload.Capacity
import Artboard.Proofs.Upload.Contents

/-!
# The queue for slots

The traffic is settled when no poll changes anything. Polling every open request once, in the order
of asking, settles it (`settled_settle`): first the uploads whose outcome is known end, then the
queue moves up until its first request does not get a slot.

Slots come back. An upload whose outcome is known keeps its slot only until the traffic is settled
(`Settled.awaiting`), and a request that was cancelled is never open again (`Closed`).

Main result: `queue_is_fair`. Slots are never lost, the queue is first come, first served, and a
settled queue waits only for permits that others hold.
-/

namespace Artboard.Traffic

variable {j : Journal} {t : Traffic} {r : Ticket}

/-- No open request can go on. -/
def Settled (t : Traffic) : Prop := ∀ id, t.poll id = (t, [])

/-- Every upload under way still waits for its outcome. -/
def Awaiting (t : Traffic) : Prop := ∀ r ∈ t.holding, t.outcomes.lookup r.id = none

/-! ## Polls -/

theorem conclude_of_unknown (h : t.outcomes.lookup r.id = none) : t.conclude r = (t, []) := by
  simp [conclude, h]

theorem conclude_of_known {url : Option String} (h : t.outcomes.lookup r.id = some url) :
    t.conclude r =
      ({ t with pipeline := t.pipeline.finish r url }, [.ended r url, .answered r url]) := by
  simp [conclude, h]

theorem settled_of_awaiting (h : Awaiting t) (hstuck : t.pipeline.grant = none) : Settled t := by
  intro id
  obtain ⟨r, holds, hp⟩ | ⟨r, p, grant, -⟩ | hp := t.poll_cases id
  · rw [hp, conclude_of_unknown (h r holds)]
  · rw [hstuck] at grant
    cases grant
  · exact hp

/-- A poll of a slot holder finds that holder. -/
theorem poll_of_holding (ho : Ordered j t) (hr : r ∈ t.holding) : t.poll r.id = t.conclude r := by
  unfold poll
  split
  · rename_i s hs
    have hid : s.id = r.id := by simpa using List.find?_some hs
    have hmem : s ∈ t.openRequests := List.mem_append_left _ (List.mem_of_find?_eq_some hs)
    rw [ho.numbered.id_injective (ho.numbered.opened s hmem)
      (ho.numbered.opened r (List.mem_append_left _ hr)) hid]
  · rename_i hnone
    exact absurd (List.find?_eq_none.1 hnone r hr) (by simp)

/-- Nobody who waits has the number of a slot holder. -/
theorem find_holding_of_waiting (ho : Ordered j t) (hr : r ∈ t.waiting) :
    t.holding.find? (·.id == r.id) = none := by
  refine List.find?_eq_none.2 fun s hs hid => ?_
  obtain rfl : s = r := ho.numbered.id_injective
    (ho.numbered.opened s (List.mem_append_left _ hs))
    (ho.numbered.opened r (List.mem_append_right _ hr)) (by simpa using hid)
  exact ho.held.not_holding ho.numbered ho.fair hr hs

/-- A poll of the first in the queue admits it if its permits are free. -/
theorem poll_of_head (ho : Ordered j t) {rest : List Ticket} (hw : t.waiting = r :: rest) :
    t.poll r.id =
      match t.pipeline.grant with
      | some (_, pipeline) => proceed { t with pipeline } r
      | none => (t, []) := by
  unfold poll
  rw [find_holding_of_waiting ho (by simp [hw])]
  cases hg : t.pipeline.grant with
  | none => rfl
  | some admitted =>
    obtain ⟨s, p⟩ := admitted
    obtain ⟨rest', hw', -, -⟩ := Pipeline.grant_eq_some.1 hg
    obtain ⟨rfl, -⟩ := List.cons.inj (hw'.symm.trans hw)
    simp

theorem poll_of_grant (ho : Ordered j t) {p : Pipeline} (hg : t.pipeline.grant = some (r, p)) :
    t.poll r.id = proceed { t with pipeline := p } r := by
  obtain ⟨rest, hw, -, -⟩ := Pipeline.grant_eq_some.1 hg
  rw [poll_of_head ho hw, hg]

/-- A poll of who waits does nothing unless it is admitted. -/
theorem poll_of_not_granted (ho : Ordered j t) (hr : r ∈ t.waiting)
    (h : ∀ p, t.pipeline.grant ≠ some (r, p)) : t.poll r.id = (t, []) := by
  unfold poll
  rw [find_holding_of_waiting ho hr]
  cases hg : t.pipeline.grant with
  | none => rfl
  | some admitted =>
    obtain ⟨s, p⟩ := admitted
    obtain ⟨rest, hw, -, -⟩ := Pipeline.grant_eq_some.1 hg
    refine if_neg fun hid => h p ?_
    obtain rfl : s = r := ho.numbered.id_injective
      (ho.numbered.opened s (List.mem_append_right _ (by simp [hw])))
      (ho.numbered.opened r (List.mem_append_right _ hr)) hid
    exact hg

theorem Settled.run_polls (h : Settled t) (rs : List Ticket) : (t.run (polls rs)).1 = t := by
  induction rs with
  | nil => rfl
  | cons r rs ih =>
    show ((t.poll r.id).1.run (polls rs)).1 = t
    rw [h r.id]
    exact ih

/-- In settled traffic the first in the queue is not admitted. -/
theorem Settled.grant_eq_none (ho : Ordered j t) (h : Settled t) : t.pipeline.grant = none := by
  cases hg : t.pipeline.grant with
  | none => rfl
  | some admitted =>
    obtain ⟨r, p⟩ := admitted
    obtain ⟨rest, hw, -, -⟩ := Pipeline.grant_eq_some.1 hg
    have hpoll := congrArg Prod.snd ((poll_of_head ho hw).symm.trans (h r.id))
    rw [hg] at hpoll
    simp only [proceed] at hpoll
    split at hpoll <;> simp at hpoll

/-- In settled traffic nobody holds a slot whose upload could end. -/
theorem Settled.awaiting (ho : Ordered j t) (h : Settled t) : Awaiting t := by
  intro r hr
  cases hknown : t.outcomes.lookup r.id with
  | none => rfl
  | some url =>
    have hpoll := (conclude_of_known hknown).symm.trans
      ((poll_of_holding ho hr).symm.trans (h r.id))
    cases congrArg Prod.snd hpoll

/-! ## Polling everyone -/

/-- Polls of the holders end the uploads whose outcome is known. -/
theorem awaiting_run_polls (ho : Ordered j t) {rs : List Ticket} (hnodup : rs.Nodup)
    (hrs : rs ⊆ t.holding) (hall : ∀ r ∈ t.holding, t.outcomes.lookup r.id = none ∨ r ∈ rs) :
    Awaiting (t.run (polls rs)).1 ∧ (t.run (polls rs)).1.waiting = t.waiting := by
  induction rs generalizing j t with
  | nil => exact ⟨fun r hr => (hall r hr).resolve_right List.not_mem_nil, rfl⟩
  | cons r rs ih =>
    obtain ⟨hr, hnodup⟩ := List.nodup_cons.1 hnodup
    have hold : r ∈ t.holding := hrs List.mem_cons_self
    have hrest : rs ⊆ t.holding := fun s hs => hrs (List.mem_cons_of_mem r hs)
    have hpoll : t.poll r.id = t.conclude r := poll_of_holding ho hold
    show Awaiting ((t.poll r.id).1.run (polls rs)).1 ∧
      ((t.poll r.id).1.run (polls rs)).1.waiting = t.waiting
    cases hknown : t.outcomes.lookup r.id with
    | none =>
      rw [hpoll, conclude_of_unknown hknown]
      refine ih ho hnodup hrest fun s hs => ?_
      rcases hall s hs with hs | hs
      · exact .inl hs
      · rcases List.mem_cons.1 hs with rfl | hs
        · exact .inl hknown
        · exact .inr hs
    | some url =>
      rw [hpoll, conclude_of_known hknown]
      have hholding : ({ t with pipeline := t.pipeline.finish r url } : Traffic).holding =
          t.holding.erase r := by simp [holding]
      obtain ⟨hawait, hwait⟩ := ih (ho.move (.finish url hold)) hnodup
        (fun s hs => by
          rw [hholding, ho.held.nodup.mem_erase_iff]
          exact ⟨fun hsr => hr (hsr ▸ hs), hrest hs⟩)
        (fun s hs => by
          rw [hholding, ho.held.nodup.mem_erase_iff] at hs
          exact (hall s hs.2).imp_right fun hmem => (List.mem_cons.1 hmem).resolve_left hs.1)
      exact ⟨hawait, hwait.trans (by simp [waiting])⟩

/-- A request that was just admitted leaves the holders waiting for their outcomes. -/
theorem awaiting_proceed (h : Awaiting t) {p : Pipeline} {rest : List Ticket}
    (hg : t.pipeline.grant = some (r, p)) (hw : t.waiting = r :: rest) :
    Awaiting (proceed { t with pipeline := p } r).1 ∧
      (proceed { t with pipeline := p } r).1.waiting = rest := by
  obtain ⟨rest', hw', -, rfl⟩ := Pipeline.grant_eq_some.1 hg
  obtain ⟨-, rfl⟩ := List.cons.inj (hw'.symm.trans hw)
  have herase : ∀ s ∈ (t.holding ++ [r]).erase r, t.outcomes.lookup s.id = none := by
    intro s hs
    have hperm := (List.perm_append_singleton r t.holding).erase r
    rw [List.erase_cons_head] at hperm
    exact h s (hperm.subset hs)
  unfold proceed
  split
  · refine ⟨fun s hs => herase s ?_, Slots.release_waiting _ _⟩
    simpa [holding, Pipeline.leave] using hs
  · cases hknown : t.outcomes.lookup r.id with
    | none =>
      rw [conclude_of_unknown (by exact hknown)]
      refine ⟨fun s hs => ?_, rfl⟩
      rcases List.mem_append.1 hs with hs | hs
      · exact h s hs
      · exact List.mem_singleton.1 hs ▸ hknown
    | some url =>
      rw [conclude_of_known (by exact hknown)]
      refine ⟨fun s hs => herase s ?_, by simp [waiting]⟩
      simpa [holding] using hs

/-- Polls of those who wait move the queue up as far as it can. -/
theorem settled_run_polls (ho : Ordered j t) (h : Awaiting t) {rs : List Ticket}
    (hw : t.waiting = rs) : (t.run (polls rs)).1.Settled := by
  induction rs generalizing j t with
  | nil =>
    have hnone : t.pipeline.slots.grant = none := by
      unfold Slots.grant
      rw [show t.pipeline.slots.waiting = [] from hw]
    exact settled_of_awaiting h (Pipeline.grant_eq_none.2 hnone)
  | cons r rs ih =>
    cases hg : t.pipeline.grant with
    | none =>
      have hsettled := settled_of_awaiting h hg
      rwa [hsettled.run_polls]
    | some admitted =>
      obtain ⟨s, p⟩ := admitted
      obtain ⟨rest, hw', -, -⟩ := Pipeline.grant_eq_some.1 hg
      obtain ⟨rfl, -⟩ := List.cons.inj (hw'.symm.trans hw)
      have hpoll := poll_of_head ho hw
      rw [hg] at hpoll
      obtain ⟨hawait, hwait⟩ := awaiting_proceed h hg hw
      show ((t.poll s.id).1.run (polls rs)).1.Settled
      rw [hpoll]
      exact ih (Moves.keep Ordered.move ho (moves_proceed hg)) hawait hwait

theorem settled_settle (ho : Ordered j t) : t.settle.1.Settled := by
  obtain ⟨hawait, hwait⟩ := awaiting_run_polls ho ho.held.nodup (List.Subset.refl _)
    fun r hr => .inr hr
  have hpolls : polls t.openRequests = polls t.holding ++ polls t.waiting := List.map_append ..
  rw [settle, hpolls, run_append]
  exact settled_run_polls (Moves.keep Ordered.move ho (moves_run t _)) hawait hwait

theorem settled_step (ho : Ordered j t) (event : TrafficEvent) : (t.step event).1.Settled :=
  settled_settle (Moves.keep Ordered.move ho (moves_take t (.event event)))

/-! ## Slots that come back -/

/-- What the uploader answered stays known. -/
theorem outcomes_subset_take (t : Traffic) (turn : Turn) :
    t.outcomes ⊆ (t.take turn).1.outcomes := by
  cases turn with
  | poll id =>
    rw [take, (outcomes_poll t id).1]
    exact List.Subset.refl _
  | event event =>
    cases event with
    | request key limit enabled =>
      simp only [take, receive, request]
      cases enabled with
      | false => simp
      | true => cases t.pipeline.cache.get? key <;> simp
    | outcome id url => exact List.subset_cons_self _ _
    | cancel id =>
      simp only [take, receive, cancel]
      split <;> simp

theorem outcome_mem_run {turns : List Turn} {id : Nat} {url : Option String}
    (h : (id, url) ∈ t.outcomes ∨ .event (.outcome id url) ∈ turns) :
    (id, url) ∈ (t.run turns).1.outcomes := by
  induction turns generalizing t with
  | nil => exact h.resolve_right List.not_mem_nil
  | cons turn rest ih =>
    refine ih ?_
    rcases h with h | h
    · exact .inl (outcomes_subset_take t turn h)
    · rcases List.mem_cons.1 h with rfl | h
      · exact .inl List.mem_cons_self
      · exact .inr h

/-- The request `id` was made, and is not open any more. -/
def Closed (id : Nat) (t : Traffic) : Prop := id < t.asked ∧ ∀ r ∈ t.openRequests, r.id ≠ id

namespace Closed

variable {id : Nat}

theorem move (h : Closed id t) {j' : Journal} {t' : Traffic} (m : Move t j' t') : Closed id t' := by
  refine ⟨h.1.trans_le m.asked_le, fun r hr => ?_⟩
  rcases m.opened hr with hopen | ⟨-, hnew⟩
  · exact h.2 r hopen
  · exact hnew ▸ h.1.ne'

theorem moves (h : Closed id t) {j' : Journal} {t' : Traffic} (ms : Moves t j' t') :
    Closed id t' :=
  Moves.keep (I := fun _ t => Closed id t) (fun h m => h.move m) (j := []) h ms

/-- A request that is cancelled neither waits nor holds a slot. -/
theorem cancel (ho : Ordered j t) (hid : id < t.asked) : Closed id (t.cancel id).1 := by
  unfold Traffic.cancel
  split
  · rename_i r hr
    have hr' : r.id = id := by simpa using List.find?_some hr
    have hopen := List.mem_of_find?_eq_some hr
    refine ⟨hid, fun s hs hsid => ?_⟩
    have m := Move.drop hopen
    have hsopen : s ∈ t.openRequests := (m.opened hs).resolve_right fun hnew => by omega
    obtain rfl : s = r := ho.numbered.id_injective (ho.numbered.opened s hsopen)
      (ho.numbered.opened r hopen) (hsid.trans hr'.symm)
    exact (ho.move m).not_dropped hs List.mem_concat_self
  · rename_i hnone
    exact ⟨hid, fun s hs hsid => by simpa [hsid] using List.find?_eq_none.1 hnone s hs⟩

end Closed

/-! ## Fairness -/

/-- **The queue is fair and never stuck, and every slot comes back.** After any turns the free
permits and those of the slot holders make up the pool, and each holder is a request whose upload is
under way: the uploader was called for it, its upload did not end, and it was not dropped. A
request that was cancelled neither waits nor holds a slot from then on. Those admitted so far, and
then those that wait, are all that missed the cache in the order of asking, except for those that
were dropped while they waited.

Every step is a run of turns and settles the traffic. Then no holder has an outcome, the first in
the queue needs more permits than are free, and so nobody waits unless an upload is under way. -/
theorem queue_is_fair (turns : List Turn) :
    let t := (run {} turns).1
    let j := (run {} turns).2
    t.pipeline.slots.free + (t.holding.map Ticket.weight).sum = permits ∧
      t.holding.Nodup ∧
      (∀ r, r ∈ t.holding ↔ .called r ∈ j ∧ (∀ url, .ended r url ∉ j) ∧ .dropped r ∉ j) ∧
      (∀ before id after, turns = before ++ .event (.cancel id) :: after →
        id < (run {} before).1.asked → ∀ r ∈ t.holding ++ t.waiting, r.id ≠ id) ∧
      j.asked.map Ticket.id = List.range t.asked ∧
      j.queued.Sublist j.asked ∧
      j.admitted ++ t.waiting =
        j.queued.filter (fun r => r ∈ j.admitted ∨ .dropped r ∉ j) ∧
      (t.Settled → (∀ r ∈ t.holding, ∀ url, .event (.outcome r.id url) ∉ turns) ∧
        (∀ r, t.waiting.head? = some r → t.pipeline.slots.free < r.weight) ∧
        (t.pipeline.slots.inFlight = 0 → t.waiting = [])) ∧
      t.settle.1.Settled ∧
      ∀ event, (t.step event).1.Settled ∧ ∃ more, t.step event = t.run more := by
  intro t j
  have ho : Ordered j t := ordered_run turns
  have hb : t.pipeline.slots.Balanced := balanced_run turns
  refine ⟨hb.permits_eq, ho.held.nodup, ho.held.holds, fun before id after hturns hid => ?_,
    ho.numbered.ids, ho.numbered.queued, ho.fair, fun hs => ⟨fun r hr url hknown => ?_, ?_⟩,
    settled_settle ho, fun event => ⟨settled_step ho event, _, step_eq_run t event⟩⟩
  · have hclosed : Closed id ((run {} before).1.run (.event (.cancel id) :: after)).1 :=
      (Closed.cancel (ordered_run before) hid).moves (moves_run _ after)
    rw [← run_append, ← hturns] at hclosed
    exact hclosed.2
  · have hunknown := hs.awaiting ho r hr
    rw [List.lookup_eq_none_iff] at hunknown
    simpa using hunknown _ (outcome_mem_run (.inr hknown))
  · have hstuck : t.pipeline.slots.grant = none := Pipeline.grant_eq_none.1 (hs.grant_eq_none ho)
    exact ⟨fun r => Slots.free_lt_of_grant_eq_none hstuck, hb.waiting_eq_nil hstuck⟩

end Artboard.Traffic
