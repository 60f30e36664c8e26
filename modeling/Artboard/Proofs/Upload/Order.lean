import Artboard.Proofs.Upload.Moves

/-!
# Order of the traffic

What the journal says of the queue and of the slot holders, at any time.

- `Numbered`: requests are numbered in the order of asking, and only requests that were made are
  ever heard of.
- `Fair`: those admitted so far and those that wait, one after the other, are all that missed the
  cache, in the order of asking, except for those that were dropped while they waited.
- `Held`: the slot holders are the requests whose upload is under way.
-/

namespace Artboard.Traffic

variable {j j' : Journal} {t t' : Traffic} {r : Ticket}

/-! ## Numbers -/

structure Numbered (j : Journal) (t : Traffic) : Prop where
  ids : j.asked.map Ticket.id = List.range t.asked
  known : ∀ e ∈ j, e.ticket ∈ j.asked
  queued : j.queued.Sublist j.asked
  opened : ∀ r ∈ t.openRequests, r ∈ j.asked

theorem numbered_init : Numbered [] {} := ⟨rfl, by simp, List.nil_sublist _, by simp [openRequests]⟩

namespace Numbered

theorem asked_nodup (h : Numbered j t) : j.asked.Nodup :=
  List.Nodup.of_map Ticket.id (h.ids ▸ List.nodup_range)

theorem queued_nodup (h : Numbered j t) : j.queued.Nodup := h.queued.nodup h.asked_nodup

theorem id_injective (h : Numbered j t) {r s : Ticket} (hr : r ∈ j.asked) (hs : s ∈ j.asked)
    (hid : r.id = s.id) : r = s :=
  List.inj_on_of_nodup_map (h.ids ▸ List.nodup_range) hr hs hid

/-- Nothing was heard yet of the next request. -/
theorem fresh (h : Numbered j t) {e : TrafficEntry} (he : e.ticket.id = t.asked) : e ∉ j := by
  intro hmem
  have hid : e.ticket.id ∈ j.asked.map Ticket.id := List.mem_map_of_mem (h.known e hmem)
  rw [h.ids, List.mem_range, he] at hid
  exact lt_irrefl _ hid

theorem ask (h : Numbered j t) (m : Move t j' t') (hid : r.id = t.asked)
    (hcount : t'.asked = t.asked + 1) (hasked : Journal.asked j' = [r])
    (hknown : ∀ e ∈ j', e.ticket = r) (hqueued : (Journal.queued j').Sublist [r]) :
    Numbered (j ++ j') t' where
  ids := by simp [hasked, h.ids, hid, hcount, List.range_succ]
  known e he := by
    rw [Journal.asked_append, hasked, List.mem_append, List.mem_singleton]
    exact (List.mem_append.1 he).imp (h.known e) (hknown e)
  queued := by
    rw [Journal.queued_append, Journal.asked_append, hasked]
    exact h.queued.append hqueued
  opened s hs := by
    rw [Journal.asked_append, hasked, List.mem_append]
    exact (m.opened hs).imp (h.opened s) fun hnew => hqueued.subset hnew.1

theorem proceed (h : Numbered j t) (m : Move t j' t') (hcount : t'.asked = t.asked)
    (hasked : Journal.asked j' = []) (hknown : ∀ e ∈ j', e.ticket ∈ t.openRequests)
    (hqueued : Journal.queued j' = []) : Numbered (j ++ j') t' where
  ids := by simp [hasked, h.ids, hcount]
  known e he := by
    rw [Journal.asked_append, hasked, List.append_nil]
    exact (List.mem_append.1 he).elim (h.known e) fun hnew => h.opened _ (hknown e hnew)
  queued := by simpa [hasked, hqueued] using h.queued
  opened s hs := by
    rw [Journal.asked_append, hasked, List.append_nil]
    refine h.opened s ((m.opened hs).resolve_right fun hnew => ?_)
    exact List.not_mem_nil (hqueued ▸ hnew.1)

theorem move (h : Numbered j t) (m : Move t j' t') : Numbered (j ++ j') t' := by
  have hm := m
  cases m with
  | learn => exact h.proceed hm rfl rfl (by simp) rfl
  | refuse key limit =>
    exact h.ask (r := ⟨t.asked, key, limit⟩) hm rfl rfl rfl (by simp [TrafficEntry.ticket])
      (List.nil_sublist _)
  | @reuse key _ limit =>
    exact h.ask (r := ⟨t.asked, key, limit⟩) hm rfl rfl rfl (by simp [TrafficEntry.ticket])
      (List.nil_sublist _)
  | @join key limit =>
    exact h.ask (r := ⟨t.asked, key, limit⟩) hm rfl rfl rfl (by simp [TrafficEntry.ticket])
      (List.Sublist.refl _)
  | drop isOpen => exact h.proceed hm rfl rfl (by simpa [TrafficEntry.ticket] using isOpen) rfl
  | leave grant =>
    obtain ⟨rest, hw, -, rfl⟩ := Pipeline.grant_eq_some.1 grant
    exact h.proceed hm rfl rfl (by simp [TrafficEntry.ticket, openRequests, hw]) rfl
  | call grant =>
    obtain ⟨rest, hw, -, rfl⟩ := Pipeline.grant_eq_some.1 grant
    exact h.proceed hm rfl rfl (by simp [TrafficEntry.ticket, openRequests, hw]) rfl
  | finish url holds =>
    exact h.proceed hm rfl rfl (by simp [TrafficEntry.ticket, openRequests, holds]) rfl

end Numbered

/-! ## The queue -/

/-- Nobody overtakes, and nobody is skipped but who was dropped. -/
def Fair (j : Journal) (t : Traffic) : Prop :=
  j.admitted ++ t.waiting = j.queued.filter fun r => r ∈ j.admitted ∨ .dropped r ∉ j

theorem fair_init : Fair [] {} := rfl

namespace Fair

theorem split (h : Fair j t) :
    j.admitted ++ t.waiting = j.queued.filter fun r => r ∈ j.admitted ∨ .dropped r ∉ j := h

theorem nodup (hn : Numbered j t) (h : Fair j t) : (j.admitted ++ t.waiting).Nodup := by
  rw [h.split]
  exact hn.queued_nodup.filter _

theorem waiting_nodup (hn : Numbered j t) (h : Fair j t) : t.waiting.Nodup :=
  (h.nodup hn).of_append_right

theorem not_admitted (hn : Numbered j t) (h : Fair j t) (hr : r ∈ t.waiting) : r ∉ j.admitted :=
  fun hadm => List.disjoint_of_nodup_append (h.nodup hn) hadm hr

theorem mem_queued (h : Fair j t) (hr : r ∈ j.admitted ∨ r ∈ t.waiting) : r ∈ j.queued := by
  have hmem : r ∈ j.admitted ++ t.waiting := List.mem_append.2 hr
  rw [h.split] at hmem
  exact List.mem_of_mem_filter hmem

theorem not_dropped (hn : Numbered j t) (h : Fair j t) (hr : r ∈ t.waiting) : .dropped r ∉ j := by
  have hmem : r ∈ j.admitted ++ t.waiting := List.mem_append_right _ hr
  rw [h.split] at hmem
  have hkept := List.of_mem_filter hmem
  rw [decide_eq_true_iff] at hkept
  exact hkept.resolve_left (h.not_admitted hn hr)

theorem same (h : Fair j t) (hadm : Journal.admitted j' = []) (hqueued : Journal.queued j' = [])
    (hdropped : ∀ r, .dropped r ∉ j') (hw : t'.waiting = t.waiting) : Fair (j ++ j') t' := by
  simpa [Fair, hadm, hqueued, hdropped, hw] using h

/-- The first in the queue is admitted. -/
theorem advance (h : Fair j t) {rest : List Ticket} (hw : t.waiting = r :: rest)
    (hadm : Journal.admitted j' = [r]) (hqueued : Journal.queued j' = [])
    (hdropped : ∀ r, .dropped r ∉ j') (hw' : t'.waiting = rest) : Fair (j ++ j') t' := by
  have hkept : ∀ s ∈ j.queued, decide (s ∈ j.admitted ∨ TrafficEntry.dropped s ∉ j) =
      decide ((s ∈ j.admitted ∨ s = r) ∨ TrafficEntry.dropped s ∉ j) := by
    intro s _
    by_cases hs : s = r
    · have hmem : s ∈ j.admitted ++ t.waiting := by simp [hw, hs]
      rw [h.split] at hmem
      have := List.of_mem_filter hmem
      simp_all
    · simp [hs]
  calc (j ++ j').admitted ++ t'.waiting = j.admitted ++ t.waiting := by simp [hadm, hw, hw']
    _ = j.queued.filter fun s => s ∈ j.admitted ∨ .dropped s ∉ j := h
    _ = j.queued.filter fun s => (s ∈ j.admitted ∨ s = r) ∨ .dropped s ∉ j :=
      List.filter_congr hkept
    _ = _ := by simp [hadm, hqueued, hdropped]

/-- Who is dropped while waiting is skipped. -/
theorem drop (hn : Numbered j t) (h : Fair j t) (hw : t'.waiting = t.waiting.erase r) :
    Fair (j ++ [.dropped r]) t' := by
  have hold : t.waiting.erase r = t.waiting.filter fun s => s ∈ j.admitted ∨ s ≠ r := by
    rw [(h.waiting_nodup hn).erase_eq_filter]
    refine List.filter_congr fun s hs => ?_
    have hadm := h.not_admitted hn hs
    rcases eq_or_ne s r with rfl | hr
    · simp [hadm]
    · simp [hadm, hr]
  have hkeep : j.admitted = j.admitted.filter fun s => s ∈ j.admitted ∨ s ≠ r :=
    (List.filter_eq_self.2 fun s hs => by simp [hs]).symm
  calc Journal.admitted (j ++ [.dropped r]) ++ t'.waiting = j.admitted ++ t.waiting.erase r := by
        rw [Journal.admitted_append, hw, show Journal.admitted [.dropped r] = [] from rfl,
          List.append_nil]
    _ = (j.admitted ++ t.waiting).filter fun s => s ∈ j.admitted ∨ s ≠ r := by
        rw [List.filter_append, ← hkeep, ← hold]
    _ = (j.queued.filter fun s => s ∈ j.admitted ∨ .dropped s ∉ j).filter
          fun s => s ∈ j.admitted ∨ s ≠ r := by rw [h.split]
    _ = _ := by
        rw [List.filter_filter]
        rw [Journal.queued_append, Journal.admitted_append,
          show Journal.queued [.dropped r] = [] from rfl,
          show Journal.admitted [.dropped r] = [] from rfl, List.append_nil, List.append_nil]
        refine List.filter_congr fun s _ => ?_
        rcases eq_or_ne s r with rfl | hr
        · by_cases hs : s ∈ j.admitted <;> simp [hs]
        · by_cases hs : s ∈ j.admitted <;> simp [hs, hr]

theorem move (hn : Numbered j t) (h : Fair j t) (m : Move t j' t') : Fair (j ++ j') t' := by
  cases m with
  | learn | refuse | reuse => exact h.same rfl rfl (by simp) rfl
  | finish =>
    refine h.same rfl rfl (by simp) ?_
    simp [waiting]
  | @join key limit =>
    have hfresh : .dropped ⟨t.asked, key, limit⟩ ∉ j := hn.fresh rfl
    show (j ++ _).admitted ++ (t.waiting ++ [_]) = _
    rw [Journal.admitted_append, show Journal.admitted [_, _] = [] from rfl, List.append_nil,
      ← List.append_assoc, h.split]
    simp [Journal.queued, hfresh]
  | drop => exact h.drop hn (Slots.release_waiting _ _)
  | leave grant =>
    obtain ⟨rest, hw, -, rfl⟩ := Pipeline.grant_eq_some.1 grant
    exact h.advance hw rfl rfl (by simp) (Slots.release_waiting _ _)
  | call grant =>
    obtain ⟨rest, hw, -, rfl⟩ := Pipeline.grant_eq_some.1 grant
    exact h.advance hw rfl rfl (by simp) rfl

end Fair

/-! ## The slot holders -/

structure Held (j : Journal) (t : Traffic) : Prop where
  holds : ∀ r, r ∈ t.holding ↔
    .called r ∈ j ∧ (∀ url, .ended r url ∉ j) ∧ .dropped r ∉ j
  nodup : t.holding.Nodup
  called : ∀ r, .called r ∈ j → r ∈ j.admitted
  ended : ∀ r url, .ended r url ∈ j → .called r ∈ j

theorem held_init : Held [] {} := ⟨by simp [holding], List.nodup_nil, by simp, by simp⟩

namespace Held

theorem not_holding (hn : Numbered j t) (hf : Fair j t) (h : Held j t) (hr : r ∈ t.waiting) :
    r ∉ t.holding :=
  fun hmem => hf.not_admitted hn hr (h.called r ((h.holds r).1 hmem).1)

theorem same (h : Held j t) (hcalled : ∀ r, .called r ∉ j') (hended : ∀ r url, .ended r url ∉ j')
    (hdropped : ∀ r, .dropped r ∉ j') (hh : t'.holding = t.holding) : Held (j ++ j') t' where
  holds r := by simpa [hcalled, hended, hdropped, hh] using h.holds r
  nodup := hh ▸ h.nodup
  called r hr := by
    rw [Journal.admitted_append]
    exact List.mem_append_left _ (h.called r (by simpa [hcalled] using hr))
  ended r url hr := List.mem_append_left _ (h.ended r url (by simpa [hended] using hr))

theorem drop (h : Held j t) (hh : t'.holding = t.holding.erase r) :
    Held (j ++ [.dropped r]) t' where
  holds s := by
    rw [hh, h.nodup.mem_erase_iff, h.holds s]
    simp only [List.mem_append, List.mem_singleton, reduceCtorEq, or_false,
      TrafficEntry.dropped.injEq, not_or]
    tauto
  nodup := hh ▸ h.nodup.erase r
  called s hs := by
    rw [Journal.admitted_append]
    exact List.mem_append_left _ (h.called s (by simpa using hs))
  ended s url hs := List.mem_append_left _ (h.ended s url (by simpa using hs))

theorem call (hn : Numbered j t) (hf : Fair j t) (h : Held j t) (hr : r ∈ t.waiting)
    (hh : t'.holding = t.holding ++ [r]) : Held (j ++ [.admitted r, .called r]) t' where
  holds s := by
    have hnew := hf.not_admitted hn hr
    have hended : ∀ url, .ended r url ∉ j := fun url he => hnew (h.called r (h.ended r url he))
    rw [hh, List.mem_append, List.mem_singleton, h.holds s]
    rcases eq_or_ne s r with rfl | hs
    · simp [hended, hf.not_dropped hn hr]
    · simp [hs]
  nodup := by
    rw [hh, List.nodup_append]
    exact ⟨h.nodup, List.nodup_singleton r, fun s hs u hu => by
      rintro rfl
      exact h.not_holding hn hf hr (List.mem_singleton.1 hu ▸ hs)⟩
  called s hs := by
    rw [Journal.admitted_append, List.mem_append]
    rcases List.mem_append.1 hs with hs | hs
    · exact .inl (h.called s hs)
    · obtain rfl : s = r := by simpa using hs
      exact .inr (List.mem_singleton_self s)
  ended s url hs := List.mem_append_left _ (h.ended s url (by simpa using hs))

theorem finish (h : Held j t) (hr : r ∈ t.holding) {url : Option String}
    (hh : t'.holding = t.holding.erase r) : Held (j ++ [.ended r url, .answered r url]) t' where
  holds s := by
    rw [hh, h.nodup.mem_erase_iff, h.holds s]
    rcases eq_or_ne s r with rfl | hs
    · simp only [ne_eq, not_true_eq_false, false_and, false_iff]
      exact fun hnone => hnone.2.1 url (by simp)
    · simp [hs]
  nodup := hh ▸ h.nodup.erase r
  called s hs := by
    rw [Journal.admitted_append]
    exact List.mem_append_left _ (h.called s (by simpa using hs))
  ended s url' hs := by
    refine List.mem_append_left _ ?_
    rcases List.mem_append.1 hs with hs | hs
    · exact h.ended s url' hs
    · obtain ⟨rfl, -⟩ : s = r ∧ url' = url := by simpa using hs
      exact ((h.holds s).1 hr).1

theorem move (hn : Numbered j t) (hf : Fair j t) (h : Held j t) (m : Move t j' t') :
    Held (j ++ j') t' := by
  cases m with
  | learn | refuse | reuse | join => exact h.same (by simp) (by simp) (by simp) rfl
  | drop => exact h.drop (Slots.release_holding _ _)
  | @leave r p url grant =>
    obtain ⟨rest, hw, -, rfl⟩ := Pipeline.grant_eq_some.1 grant
    have hnew : r ∉ t.holding := h.not_holding hn hf (by simp [hw])
    refine h.same (by simp) (by simp) (by simp) ((Slots.release_holding _ _).trans ?_)
    show (t.holding ++ [r]).erase r = t.holding
    rw [List.erase_append_right _ hnew, List.erase_cons_head, List.append_nil]
  | call grant =>
    obtain ⟨rest, hw, -, rfl⟩ := Pipeline.grant_eq_some.1 grant
    exact h.call hn hf (by simp [hw]) rfl
  | finish url holds => exact h.finish holds (by simp [holding])

end Held

/-! ## All three -/

structure Ordered (j : Journal) (t : Traffic) : Prop where
  numbered : Numbered j t
  fair : Fair j t
  held : Held j t

theorem ordered_init : Ordered [] {} := ⟨numbered_init, fair_init, held_init⟩

theorem Ordered.move (h : Ordered j t) (m : Move t j' t') : Ordered (j ++ j') t' :=
  ⟨h.numbered.move m, h.fair.move h.numbered m, h.held.move h.numbered h.fair m⟩

/-- An open request was not dropped. -/
theorem Ordered.not_dropped (h : Ordered j t) (hr : r ∈ t.openRequests) : .dropped r ∉ j :=
  (List.mem_append.1 hr).elim (fun hr => ((h.held.holds r).1 hr).2.2)
    (h.fair.not_dropped h.numbered)

theorem ordered_run (turns : List Turn) : Ordered (run {} turns).2 (run {} turns).1 :=
  run_keeps ordered_init Ordered.move turns

end Artboard.Traffic
