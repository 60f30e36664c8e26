import Artboard.Proofs.Upload.Slots
import Artboard.Upload.Traffic

/-!
# Moves of the traffic

A turn is made of at most two moves. A move concerns a single request: it is answered when it is
made, joins the queue, is dropped, leaves its slot at once, calls the uploader, or ends its upload.
What holds of the traffic after any run is proved move by move (`Moves.keep`, `moves_run`).
-/

namespace Artboard

/-! ## The journal by requests -/

namespace Journal

/-- The requests that were made, in order. -/
def asked (j : Journal) : List Ticket :=
  j.filterMap fun
    | .asked r _ => some r
    | _ => none

/-- The requests that missed the cache, in order. -/
def queued (j : Journal) : List Ticket :=
  j.filterMap fun
    | .queued r => some r
    | _ => none

/-- The requests that got a slot, in order. -/
def admitted (j : Journal) : List Ticket :=
  j.filterMap fun
    | .admitted r => some r
    | _ => none

variable (j j' : Journal)

@[simp] theorem asked_append : asked (j ++ j') = asked j ++ asked j' := List.filterMap_append ..

@[simp] theorem queued_append : queued (j ++ j') = queued j ++ queued j' := List.filterMap_append ..

@[simp] theorem admitted_append : admitted (j ++ j') = admitted j ++ admitted j' :=
  List.filterMap_append ..

variable {j} {r : Ticket}

theorem mem_queued : r ∈ queued j ↔ .queued r ∈ j := by
  simp only [queued, List.mem_filterMap]
  constructor
  · rintro ⟨e, he, hr⟩
    cases e <;> simp_all
  · exact fun h => ⟨_, h, rfl⟩

end Journal

/-- The request that an entry is about. -/
def TrafficEntry.ticket : TrafficEntry → Ticket
  | .asked r _ | .queued r | .admitted r | .called r | .ended r _ | .answered r _ | .dropped r => r

/-! ## What operations do to the queue and to the holders -/

@[simp] theorem Slots.release_waiting (s : Slots) (r : Ticket) :
    (s.release r).waiting = s.waiting := by
  unfold Slots.release
  split_ifs <;> rfl

@[simp] theorem Slots.release_holding (s : Slots) (r : Ticket) :
    (s.release r).holding = s.holding.erase r := by
  unfold Slots.release
  split_ifs with h
  · rfl
  · exact (List.erase_of_not_mem h).symm

namespace Pipeline

variable (p : Pipeline) (r : Ticket)

@[simp] theorem finish_slots (url : Option String) :
    (p.finish r url).slots = p.slots.release r := by
  cases url <;> rfl

/-- Who is admitted was the first in the queue, and its permits were free. -/
theorem grant_eq_some {p p' : Pipeline} {r : Ticket} :
    p.grant = some (r, p') ↔ ∃ rest, p.slots.waiting = r :: rest ∧ r.weight ≤ p.slots.free ∧
      p' = ⟨p.cache, p.slots.free - r.weight, p.slots.inFlight + 1, rest,
        p.slots.holding ++ [r]⟩ := by
  simp only [grant, Option.map_eq_some_iff, Prod.exists, Prod.mk.injEq]
  constructor
  · rintro ⟨_, s, hs, rfl, rfl⟩
    obtain ⟨rest, hw, hfree, rfl⟩ := Slots.grant_eq_some.1 hs
    exact ⟨rest, hw, hfree, rfl⟩
  · rintro ⟨rest, hw, hfree, rfl⟩
    exact ⟨r, _, Slots.grant_eq_some.2 ⟨rest, hw, hfree, rfl⟩, rfl, rfl⟩

theorem slots_grant_of_grant {p p' : Pipeline} {r : Ticket} (h : p.grant = some (r, p')) :
    p.slots.grant = some (r, p'.slots) := by
  obtain ⟨rest, hw, hfree, rfl⟩ := grant_eq_some.1 h
  exact Slots.grant_eq_some.2 ⟨rest, hw, hfree, rfl⟩

theorem grant_eq_none {p : Pipeline} : p.grant = none ↔ p.slots.grant = none :=
  Option.map_eq_none_iff

end Pipeline

namespace Traffic

/-- The requests that wait for a slot, in the order of asking. -/
abbrev waiting (t : Traffic) : List Ticket := t.pipeline.slots.waiting

/-- The requests that hold a slot, in the order of admission. -/
abbrev holding (t : Traffic) : List Ticket := t.pipeline.slots.holding

/-! ## Moves -/

/-- One thing that happens to one request, with the entries it leaves in the journal. -/
inductive Move (t : Traffic) : Journal → Traffic → Prop
  /-- An outcome becomes known. -/
  | learn (outcomes : List (Nat × Option String)) : Move t [] { t with outcomes }
  | refuse (key : String) (limit : Nat) :
    Move t [.asked ⟨t.asked, key, limit⟩ false, .answered ⟨t.asked, key, limit⟩ none]
      { t with asked := t.asked + 1 }
  /-- A request for content that is known already. -/
  | reuse {key url : String} (limit : Nat) (hit : t.pipeline.cache.get? key = some url) :
    Move t [.asked ⟨t.asked, key, limit⟩ true, .answered ⟨t.asked, key, limit⟩ (some url)]
      { t with asked := t.asked + 1 }
  | join {key : String} (limit : Nat) (miss : t.pipeline.cache.get? key = none) :
    Move t [.asked ⟨t.asked, key, limit⟩ true, .queued ⟨t.asked, key, limit⟩]
      { t with asked := t.asked + 1, pipeline := t.pipeline.ask ⟨t.asked, key, limit⟩ }
  | drop {r : Ticket} (isOpen : r ∈ t.openRequests) :
    Move t [.dropped r] { t with pipeline := t.pipeline.cancel r }
  /-- A request whose content became known while it waited. -/
  | leave {r : Ticket} {p : Pipeline} {url : String} (grant : t.pipeline.grant = some (r, p))
      (hit : t.pipeline.cache.get? r.key = some url) :
    Move t [.admitted r, .answered r (some url)] { t with pipeline := p.leave r }
  | call {r : Ticket} {p : Pipeline} (grant : t.pipeline.grant = some (r, p))
      (miss : t.pipeline.cache.get? r.key = none) :
    Move t [.admitted r, .called r] { t with pipeline := p }
  | finish {r : Ticket} (url : Option String) (holds : r ∈ t.holding) :
    Move t [.ended r url, .answered r url] { t with pipeline := t.pipeline.finish r url }

/-- Only a request that joins the queue comes to be open. -/
theorem Move.opened {t t' : Traffic} {j : Journal} (m : Move t j t') {s : Ticket}
    (hs : s ∈ t'.openRequests) : s ∈ t.openRequests ∨ s ∈ j.queued ∧ s.id = t.asked := by
  cases m with
  | learn | refuse | reuse => exact .inl hs
  | @join key limit =>
    have hsplit : s ∈ t.openRequests ∨ s = ⟨t.asked, key, limit⟩ := by
      simpa [openRequests, Pipeline.ask, Slots.ask, or_assoc] using hs
    refine hsplit.imp_right ?_
    rintro rfl
    exact ⟨List.mem_singleton_self _, rfl⟩
  | @drop r isOpen =>
    simp only [openRequests, Pipeline.cancel, Slots.release_waiting, Slots.release_holding,
      Slots.withdraw, List.mem_append] at hs ⊢
    exact .inl (hs.imp List.mem_of_mem_erase List.mem_of_mem_erase)
  | @leave r p url grant =>
    obtain ⟨rest, hw, -, rfl⟩ := Pipeline.grant_eq_some.1 grant
    simp only [openRequests, Pipeline.leave, Slots.release_waiting, Slots.release_holding,
      List.mem_append, hw, List.mem_cons] at hs ⊢
    rcases hs with hs | hs
    · rcases List.mem_append.1 (List.mem_of_mem_erase hs) with hs | hs
      · exact .inl (.inl hs)
      · exact .inl (.inr (.inl (List.mem_singleton.1 hs)))
    · exact .inl (.inr (.inr hs))
  | @call r p grant =>
    obtain ⟨rest, hw, -, rfl⟩ := Pipeline.grant_eq_some.1 grant
    exact .inl (by simpa [openRequests, hw, or_assoc] using hs)
  | @finish r url holds =>
    simp only [openRequests, Pipeline.finish_slots, Slots.release_waiting, Slots.release_holding,
      List.mem_append] at hs ⊢
    exact .inl (hs.imp_left List.mem_of_mem_erase)

/-- Requests are counted upwards. -/
theorem Move.asked_le {t t' : Traffic} {j : Journal} (m : Move t j t') : t.asked ≤ t'.asked := by
  cases m with
  | refuse | reuse | join => exact Nat.le_succ _
  | learn | drop | leave | call | finish => exact le_rfl

/-- Moves one after another. -/
inductive Moves : Traffic → Journal → Traffic → Prop
  | nil {t : Traffic} : Moves t [] t
  | cons {t t' t'' : Traffic} {j j' : Journal} :
    Move t j t' → Moves t' j' t'' → Moves t (j ++ j') t''

theorem Move.moves {t t' : Traffic} {j : Journal} (m : Move t j t') : Moves t j t' := by
  simpa using Moves.cons m .nil

theorem Moves.append {t t' t'' : Traffic} {j j' : Journal} (h : Moves t j t')
    (h' : Moves t' j' t'') : Moves t (j ++ j') t'' := by
  induction h with
  | nil => exact h'
  | cons m _ ih =>
    rw [List.append_assoc]
    exact .cons m (ih h')

/-- **What each move keeps, any number of moves keeps.** -/
theorem Moves.keep {I : Journal → Traffic → Prop}
    (step : ∀ {j t j' t'}, I j t → Move t j' t' → I (j ++ j') t') {j j' : Journal}
    {t t' : Traffic} (h : I j t) (ms : Moves t j' t') : I (j ++ j') t' := by
  induction ms generalizing j with
  | nil => simpa using h
  | cons m _ ih =>
    rw [← List.append_assoc]
    exact ih (step h m)

/-! ## Polls -/

/-- A poll goes on with an upload, admits the first in the queue, or does nothing. -/
theorem poll_cases (t : Traffic) (id : Nat) :
    (∃ r ∈ t.holding, t.poll id = t.conclude r) ∨
      (∃ r p, t.pipeline.grant = some (r, p) ∧
        t.poll id = proceed { t with pipeline := p } r) ∨
      t.poll id = (t, []) := by
  unfold poll
  split
  · rename_i r hr
    exact .inl ⟨r, List.mem_of_find?_eq_some hr, rfl⟩
  · split
    · rename_i r p hg
      split_ifs
      · exact .inr (.inl ⟨r, p, hg, rfl⟩)
      · exact .inr (.inr rfl)
    · exact .inr (.inr rfl)

theorem proceed_of_hit {t : Traffic} {r : Ticket} {url : String}
    (hit : t.pipeline.cache.get? r.key = some url) :
    t.proceed r = ({ t with pipeline := t.pipeline.leave r },
      [.admitted r, .answered r (some url)]) := by
  rw [proceed, hit]

theorem proceed_of_miss {t : Traffic} {r : Ticket} (miss : t.pipeline.cache.get? r.key = none) :
    t.proceed r = ((t.conclude r).1, .admitted r :: .called r :: (t.conclude r).2) := by
  rw [proceed, miss]

/-- Who is admitted is answered from the cache, or calls the uploader. -/
theorem proceed_cases (t : Traffic) (r : Ticket) :
    (∃ url, t.pipeline.cache.get? r.key = some url ∧
      t.proceed r = ({ t with pipeline := t.pipeline.leave r },
        [.admitted r, .answered r (some url)])) ∨
      (t.pipeline.cache.get? r.key = none ∧
        t.proceed r = ((t.conclude r).1, .admitted r :: .called r :: (t.conclude r).2)) := by
  cases h : t.pipeline.cache.get? r.key with
  | some url => exact .inl ⟨url, rfl, proceed_of_hit h⟩
  | none => exact .inr ⟨rfl, proceed_of_miss h⟩

/-- An upload ends as soon as its outcome is known. -/
theorem conclude_cases (t : Traffic) (r : Ticket) :
    (∃ url, t.outcomes.lookup r.id = some url ∧
      t.conclude r =
        ({ t with pipeline := t.pipeline.finish r url }, [.ended r url, .answered r url])) ∨
      (t.outcomes.lookup r.id = none ∧ t.conclude r = (t, [])) := by
  unfold conclude
  cases h : t.outcomes.lookup r.id with
  | some url => exact .inl ⟨url, rfl, rfl⟩
  | none => exact .inr ⟨rfl, rfl⟩

/-! ## Turns are moves -/

theorem request_of_hit {t : Traffic} {key url : String}
    (hit : t.pipeline.cache.get? key = some url) (limit : Nat) :
    t.request key limit true = ({ t with asked := t.asked + 1 },
      [.asked ⟨t.asked, key, limit⟩ true, .answered ⟨t.asked, key, limit⟩ (some url)]) := by
  simp [request, hit]

theorem request_of_miss {t : Traffic} {key : String} (miss : t.pipeline.cache.get? key = none)
    (limit : Nat) :
    t.request key limit true =
      ({ t with asked := t.asked + 1, pipeline := t.pipeline.ask ⟨t.asked, key, limit⟩ },
        [.asked ⟨t.asked, key, limit⟩ true, .queued ⟨t.asked, key, limit⟩]) := by
  simp [request, miss]

theorem moves_request (t : Traffic) (key : String) (limit : Nat) (enabled : Bool) :
    Moves t (t.request key limit enabled).2 (t.request key limit enabled).1 := by
  cases enabled with
  | false => exact (Move.refuse key limit).moves
  | true =>
    cases h : t.pipeline.cache.get? key with
    | some url =>
      rw [request_of_hit h]
      exact (Move.reuse limit h).moves
    | none =>
      rw [request_of_miss h]
      exact (Move.join limit h).moves

theorem moves_cancel (t : Traffic) (id : Nat) : Moves t (t.cancel id).2 (t.cancel id).1 := by
  unfold cancel
  split
  · rename_i r hr
    exact (Move.drop (List.mem_of_find?_eq_some hr)).moves
  · exact .nil

theorem moves_conclude {t : Traffic} {r : Ticket} (h : r ∈ t.holding) :
    Moves t (t.conclude r).2 (t.conclude r).1 := by
  obtain ⟨url, -, hc⟩ | ⟨-, hc⟩ := t.conclude_cases r <;> rw [hc]
  · exact (Move.finish url h).moves
  · exact .nil

theorem moves_proceed {t : Traffic} {r : Ticket} {p : Pipeline}
    (h : t.pipeline.grant = some (r, p)) :
    Moves t (proceed { t with pipeline := p } r).2 (proceed { t with pipeline := p } r).1 := by
  obtain ⟨rest, -, -, hp⟩ := Pipeline.grant_eq_some.1 h
  have hcache : p.cache = t.pipeline.cache := by rw [hp]
  have holds : r ∈ p.slots.holding := by simp [hp]
  obtain ⟨url, hit, hc⟩ | ⟨miss, hc⟩ := proceed_cases { t with pipeline := p } r <;> rw [hc]
  · exact (Move.leave h (hcache ▸ hit)).moves
  · exact .cons (Move.call h (hcache ▸ miss)) (moves_conclude (t := { t with pipeline := p }) holds)

theorem moves_poll (t : Traffic) (id : Nat) : Moves t (t.poll id).2 (t.poll id).1 := by
  obtain ⟨r, holds, hp⟩ | ⟨r, p, grant, hp⟩ | hp := t.poll_cases id <;> rw [hp]
  · exact moves_conclude holds
  · exact moves_proceed grant
  · exact .nil

theorem moves_take (t : Traffic) (turn : Turn) : Moves t (t.take turn).2 (t.take turn).1 := by
  cases turn with
  | poll id => exact moves_poll t id
  | event event =>
    cases event with
    | request key limit enabled => exact moves_request t key limit enabled
    | outcome id url => exact (Move.learn _).moves
    | cancel id => exact moves_cancel t id

theorem moves_run (t : Traffic) (turns : List Turn) :
    Moves t (t.run turns).2 (t.run turns).1 := by
  induction turns generalizing t with
  | nil => exact .nil
  | cons turn rest ih => exact (moves_take t turn).append (ih _)

/-- What moves keep holds after every run that starts from nothing. -/
theorem run_keeps {I : Journal → Traffic → Prop} (init : I [] {})
    (step : ∀ {j t j' t'}, I j t → Move t j' t' → I (j ++ j') t') (turns : List Turn) :
    I (run {} turns).2 (run {} turns).1 := by
  simpa using Moves.keep step init (moves_run {} turns)

end Traffic

end Artboard
