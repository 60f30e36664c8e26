import Artboard.Proofs.Upload.Capacity
import Artboard.Proofs.Upload.Contents
import Artboard.Proofs.Upload.Queue

/-!
# How the cache grows

From a moment on at which no request was open, the cache only grows: behind what it was then there
is one entry for each content whose upload has succeeded since (`Grown`). Whoever asks for a content
that was known at that moment is answered at once, so no open request does.

When every open request is cancelled, none is left (`openRequests_cancel_all`), and all slots are
free again.
-/

namespace Artboard

namespace Traffic

theorem run_append_eq (t : Traffic) (turns more : List Turn) :
    t.run (turns ++ more) =
      (((t.run turns).1.run more).1, (t.run turns).2 ++ ((t.run turns).1.run more).2) := by
  induction turns generalizing t with
  | nil => rfl
  | cons turn rest ih =>
    show (((t.take turn).1.run (rest ++ more)).1,
      (t.take turn).2 ++ ((t.take turn).1.run (rest ++ more)).2) = _
    rw [ih]
    exact congrArg (Prod.mk _) (List.append_assoc ..).symm

variable {j j' : Journal} {t t' : Traffic} {r : Ticket} {old : Cache}

/-! ## Growth -/

/-- What the cache has gained since it was `old`; `j` is what happened since then. -/
structure Grown (old : Cache) (j : Journal) (t : Traffic) : Prop where
  gained : ∃ fresh, t.pipeline.cache = old ++ fresh ∧
    ∀ key, fresh.get? key = j.successes.reverse.lookup key
  missed : ∀ r ∈ t.openRequests, r.key ∉ old.keys

namespace Grown

theorem refl (h : t.openRequests = []) : Grown t.pipeline.cache [] t :=
  ⟨⟨[], (List.append_nil _).symm, fun _ => rfl⟩, by simp [h]⟩

/-- Who joins the queue missed the cache. -/
theorem missed_move (h : Grown old j t) (m : Move t j' t') :
    ∀ r ∈ t'.openRequests, r.key ∉ old.keys := by
  intro r hr
  rcases m.opened hr with hopen | ⟨hqueued, -⟩
  · exact h.missed r hopen
  cases m with
  | @join key limit miss =>
    obtain rfl : r = ⟨t.asked, key, limit⟩ := by simpa [Journal.queued] using hqueued
    obtain ⟨fresh, hcache, -⟩ := h.gained
    have hkey := Cache.get?_eq_none_iff.1 miss
    rw [hcache, Cache.keys, List.map_append] at hkey
    exact fun hold => hkey (List.mem_append_left _ hold)
  | _ => simp [Journal.queued] at hqueued

theorem move (h : Grown old j t) (m : Move t j' t') : Grown old (j ++ j') t' := by
  refine ⟨?_, h.missed_move m⟩
  obtain ⟨fresh, hcache, hfresh⟩ := h.gained
  by_cases hnone : Journal.successes j' = []
  · exact ⟨fresh, (m.cache_eq hnone).trans hcache, fun key => by simpa [hnone] using hfresh key⟩
  cases m with
  | @finish r result holds =>
    cases result with
    | none => exact absurd rfl hnone
    | some url =>
      have hmiss := h.missed r (List.mem_append_left _ holds)
      refine ⟨Cache.put r.key url fresh, ?_, fun key => ?_⟩
      · show Cache.put r.key url t.pipeline.cache = _
        rw [hcache, Cache.put_append hmiss]
      · rw [Cache.get?_put, Journal.successes_append, List.reverse_append, hfresh]
        exact (Cache.get?_cons (c := j.successes.reverse) (e := (r.key, url))).symm
  | _ => exact absurd rfl hnone

theorem run (h : t.openRequests = []) (turns : List Turn) :
    Grown t.pipeline.cache (t.run turns).2 (t.run turns).1 :=
  Moves.keep (j := []) Grown.move (refl h) (moves_run t turns)

end Grown

/-! ## Outcomes -/

theorem outcomes_run {turns : List Turn} {known : Nat × Option String}
    (h : known ∈ (t.run turns).1.outcomes) :
    known ∈ t.outcomes ∨ .event (.outcome known.1 known.2) ∈ turns := by
  induction turns generalizing t with
  | nil => exact .inl h
  | cons turn rest ih =>
    rcases ih (t := (t.take turn).1) h with h | h
    · rcases (outcomes_take t turn).1 known h with h | h
      · exact .inl h
      · exact .inr (List.mem_cons.2 (.inl h.symm))
    · exact .inr (List.mem_cons_of_mem turn h)

/-- A request that ends its upload is not open any more. -/
theorem Closed.finish (ho : Ordered j t) (holds : r ∈ t.holding) (url : Option String) :
    Closed r.id { t with pipeline := t.pipeline.finish r url } := by
  have m := Move.finish url holds
  have hopen : r ∈ t.openRequests := List.mem_append_left _ holds
  have hid : r.id < t.asked :=
    List.mem_range.1 (ho.numbered.ids ▸ List.mem_map_of_mem (ho.numbered.opened r hopen))
  refine ⟨hid, fun s hs hsid => ?_⟩
  have hsopen : s ∈ t.openRequests := (m.opened hs).resolve_right (by simp [Journal.queued])
  obtain rfl : s = r := ho.numbered.id_injective (ho.numbered.opened s hsopen)
    (ho.numbered.opened r hopen) hsid
  exact Spent.not_ended (ho.move m) hs url (by simp)

/-! ## Idle traffic -/

theorem slots_of_openRequests (hb : t.pipeline.slots.Balanced) (h : t.openRequests = []) :
    t.pipeline.slots = {} := by
  obtain ⟨hholding, hwaiting⟩ := List.append_eq_nil_iff.1 h
  obtain ⟨hpermits, hflight⟩ := hb
  generalize t.pipeline.slots = slots at hholding hwaiting hpermits hflight
  obtain ⟨free, inFlight, waiting, holding⟩ := slots
  obtain ⟨rfl, rfl⟩ : holding = [] ∧ waiting = [] := ⟨hholding, hwaiting⟩
  obtain rfl : free = permits := hpermits
  obtain rfl : inFlight = 0 := hflight
  rfl

theorem asked_cancel (t : Traffic) (id : Nat) : (t.cancel id).1.asked = t.asked := by
  unfold cancel
  split <;> rfl

theorem openRequests_cancel (t : Traffic) (id : Nat) :
    (t.cancel id).1.openRequests ⊆ t.openRequests := by
  unfold cancel
  split
  · rename_i r hr
    intro s hs
    have m := Move.drop (List.mem_of_find?_eq_some hr)
    exact (m.opened hs).resolve_right (by simp [Journal.queued])
  · exact List.Subset.refl _

/-- The cancellations of some requests, one after the other. -/
abbrev cancels (ids : List Nat) : List Turn := ids.map fun id => .event (.cancel id)

theorem openRequests_run_cancels (t : Traffic) (ids : List Nat) :
    (t.run (cancels ids)).1.openRequests ⊆ t.openRequests := by
  induction ids generalizing t with
  | nil => exact List.Subset.refl _
  | cons id rest ih => exact List.Subset.trans (ih (t.cancel id).1) (openRequests_cancel t id)

theorem closed_run_cancels (ho : Ordered j t) {ids : List Nat} (hids : ∀ id ∈ ids, id < t.asked) :
    ∀ id ∈ ids, Closed id (t.run (cancels ids)).1 := by
  induction ids generalizing j t with
  | nil => exact List.forall_mem_nil _
  | cons id rest ih =>
    obtain ⟨hid, hrest⟩ := List.forall_mem_cons.1 hids
    have hclosed := Closed.cancel ho hid
    refine List.forall_mem_cons.2 ⟨?_, ih (Moves.keep Ordered.move ho (moves_cancel t id)) ?_⟩
    · exact hclosed.moves (moves_run _ _)
    · exact fun other hother => (hrest other hother).trans_eq (asked_cancel t id).symm

/-- **Who cancels every open request gives all slots back.** -/
theorem openRequests_cancel_all (ho : Ordered j t) :
    (t.run (cancels (t.openRequests.map Ticket.id))).1.openRequests = [] := by
  refine List.eq_nil_iff_forall_not_mem.2 fun r hr => ?_
  have hids : ∀ id ∈ t.openRequests.map Ticket.id, id < t.asked := by
    intro id hid
    obtain ⟨s, hs, rfl⟩ := List.mem_map.1 hid
    exact List.mem_range.1 (ho.numbered.ids ▸ List.mem_map_of_mem (ho.numbered.opened s hs))
  have hopen := openRequests_run_cancels t _ hr
  exact (closed_run_cancels ho hids r.id (List.mem_map_of_mem hopen)).2 r hr rfl

theorem run_cancels_dropped (t : Traffic) (ids : List Nat) :
    ∀ e ∈ (t.run (cancels ids)).2, ∃ r, e = .dropped r := by
  induction ids generalizing t with
  | nil => exact List.forall_mem_nil _
  | cons id rest ih =>
    refine List.forall_mem_append.2 ⟨?_, ih (t.cancel id).1⟩
    show ∀ e ∈ (t.cancel id).2, _
    unfold cancel
    split
    · exact List.forall_mem_singleton.2 ⟨_, rfl⟩
    · exact List.forall_mem_nil _

theorem successes_run_cancels (t : Traffic) (ids : List Nat) :
    (t.run (cancels ids)).2.successes = [] := by
  refine List.filterMap_eq_nil_iff.2 fun e he => ?_
  obtain ⟨r, rfl⟩ := run_cancels_dropped t ids e he
  rfl

/-- Who held a slot is dropped then. -/
theorem dropped_cancel_all (ho : Ordered j t) (holds : r ∈ t.holding) :
    .dropped r ∈ (t.run (cancels (t.openRequests.map Ticket.id))).2 := by
  have hnone := openRequests_cancel_all ho
  have hafter := Moves.keep Ordered.move ho
    (moves_run t (cancels (t.openRequests.map Ticket.id)))
  have hends := run_cancels_dropped t (t.openRequests.map Ticket.id)
  generalize t.run (cancels (t.openRequests.map Ticket.id)) = passed at *
  obtain ⟨t', j'⟩ := passed
  have hclosed : r ∉ t'.holding := fun hr =>
    List.ne_nil_of_mem (List.mem_append_left t'.waiting hr) hnone
  obtain ⟨hcalled, hended, hdropped⟩ := (ho.held.holds r).1 holds
  by_contra hkept
  refine hclosed ((hafter.held.holds r).2 ⟨List.mem_append_left _ hcalled, fun url hr => ?_, ?_⟩)
  · rcases List.mem_append.1 hr with hr | hr
    · exact hended url hr
    · obtain ⟨_, he⟩ := hends _ hr
      cases he
  · exact fun hr => (List.mem_append.1 hr).elim hdropped hkept

end Traffic

end Artboard
