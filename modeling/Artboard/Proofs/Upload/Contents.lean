import Artboard.Proofs.Upload.Cache
import Artboard.Proofs.Upload.Order

/-!
# What the cache holds

The cache holds the address of the last successful upload of each content, whatever else happened
meanwhile. A request that got a slot looks into it again, so that no content is uploaded anew after
an upload of it has succeeded: `contents_upload_once`.
-/

namespace Artboard

/-! ## Successes -/

/-- The contents whose upload succeeded and the addresses given for them, in order. -/
def Journal.successes (j : Journal) : List (String × String) :=
  j.filterMap fun
    | .ended r (some url) => some (r.key, url)
    | _ => none

@[simp] theorem Journal.successes_append (j j' : Journal) :
    successes (j ++ j') = successes j ++ successes j' := List.filterMap_append ..

theorem Journal.mem_successes {j : Journal} {key url : String} :
    (key, url) ∈ j.successes ↔ ∃ r, .ended r (some url) ∈ j ∧ r.key = key := by
  simp only [successes, List.mem_filterMap]
  constructor
  · rintro ⟨e, he, hr⟩
    cases e with
    | ended r result =>
      cases result with
      | none => simp at hr
      | some url' =>
        obtain ⟨rfl, rfl⟩ : r.key = key ∧ url' = url := by simpa using hr
        exact ⟨r, he, rfl⟩
    | _ => simp at hr
  · rintro ⟨r, hr, rfl⟩
    exact ⟨_, hr, rfl⟩

namespace Traffic

variable {j j' : Journal} {t t' : Traffic} {r : Ticket} {key url : String}

/-- Only successes change the cache. -/
theorem Move.cache_eq (m : Move t j t') (h : j.successes = []) :
    t'.pipeline.cache = t.pipeline.cache := by
  cases m with
  | learn | refuse | reuse | join | drop => rfl
  | leave grant | call grant =>
    obtain ⟨rest, -, -, rfl⟩ := Pipeline.grant_eq_some.1 grant
    rfl
  | finish result =>
    cases result with
    | none => rfl
    | some url => simp [Journal.successes] at h

theorem Moves.cache_eq (ms : Moves t j t') (h : j.successes = []) :
    t'.pipeline.cache = t.pipeline.cache := by
  induction ms with
  | nil => rfl
  | cons m _ ih =>
    rw [Journal.successes_append, List.append_eq_nil_iff] at h
    rw [ih h.2, m.cache_eq h.1]

/-- The cache is a table of the last address of each content that was uploaded. -/
structure Recorded (j : Journal) (t : Traffic) : Prop where
  last : ∀ key, t.pipeline.cache.get? key = j.successes.reverse.lookup key
  nodup : t.pipeline.cache.keys.Nodup

theorem recorded_init : Recorded [] {} := ⟨fun _ => rfl, List.nodup_nil⟩

namespace Recorded

theorem mem_successes (h : Recorded j t) (hit : t.pipeline.cache.get? key = some url) :
    (key, url) ∈ j.successes := by
  rw [h.last, List.lookup_eq_some_iff] at hit
  obtain ⟨before, after, hsplit, -⟩ := hit
  rw [← List.mem_reverse, hsplit]
  simp

theorem mem_keys_iff (h : Recorded j t) :
    key ∈ t.pipeline.cache.keys ↔ key ∈ j.successes.map Prod.fst := Cache.mem_keys_of_last h.last

/-- The cache has one entry for each content that was uploaded. -/
theorem length_eq (h : Recorded j t) :
    t.pipeline.cache.length = (j.successes.map Prod.fst).toFinset.card := by
  have hkeys : t.pipeline.cache.keys.toFinset = (j.successes.map Prod.fst).toFinset := by
    ext key
    rw [List.mem_toFinset, List.mem_toFinset, h.mem_keys_iff]
  rw [← hkeys, List.toFinset_card_of_nodup h.nodup, Cache.keys, List.length_map]

theorem move (h : Recorded j t) (m : Move t j' t') : Recorded (j ++ j') t' := by
  by_cases hnone : Journal.successes j' = []
  · have hcache := m.cache_eq hnone
    exact ⟨fun key => by simpa [hnone, hcache] using h.last key, hcache ▸ h.nodup⟩
  cases m with
  | @finish r result =>
    cases result with
    | none => exact absurd rfl hnone
    | some url =>
      refine ⟨fun key => ?_, Cache.nodup_keys_put h.nodup⟩
      show (Cache.put r.key url t.pipeline.cache).get? key = _
      rw [Cache.get?_put, Journal.successes_append, List.reverse_append, h.last]
      exact (Cache.get?_cons (c := j.successes.reverse) (e := (r.key, url))).symm
  | _ => exact absurd rfl hnone

end Recorded

/-! ## Calls after successes -/

/-- No call for a content comes after a successful one for the same content. -/
def Once (j : Journal) : Prop :=
  j.Pairwise fun e e' => ∀ r url s, e = .ended r (some url) → e' = .called s → r.key ≠ s.key

theorem once_move (hc : Recorded j t) (h : Once j) (m : Move t j' t') : Once (j ++ j') := by
  have hsplit : Once j' →
      (∀ s, .called s ∈ j' → s.key ∉ j.successes.map Prod.fst) → Once (j ++ j') := by
    refine fun h' hcalls => List.pairwise_append.2 ⟨h, h', fun e he e' he' => ?_⟩
    rintro r url s rfl rfl hkey
    exact hcalls s he' (List.mem_map.2 ⟨_, Journal.mem_successes.2 ⟨r, he, hkey⟩, rfl⟩)
  cases m with
  | learn | refuse | reuse | join | drop | leave | finish =>
    exact hsplit (by simp [Once]) (by simp)
  | @call r p grant miss =>
    refine hsplit (by simp [Once]) fun s hs => ?_
    obtain rfl : s = r := by simpa using hs
    exact fun hmem => Cache.get?_eq_none_iff.1 miss (hc.mem_keys_iff.2 hmem)

/-! ## Where addresses come from -/

/-- Each address that a request was answered with was given for an upload of the same content. -/
def Sourced (j : Journal) : Prop :=
  ∀ r url, .answered r (some url) ∈ j →
    ∃ s, .called s ∈ j ∧ .ended s (some url) ∈ j ∧ s.key = r.key

theorem sourced_move (ho : Ordered j t) (hc : Recorded j t) (h : Sourced j) (m : Move t j' t') :
    Sourced (j ++ j') := by
  have hsplit : (∀ r url, .answered r (some url) ∈ j' →
      (∃ s, .called s ∈ j ∧ .ended s (some url) ∈ j ++ j' ∧ s.key = r.key)) →
      Sourced (j ++ j') := by
    intro hnew r url hr
    rcases List.mem_append.1 hr with hr | hr
    · obtain ⟨s, hs, hs', hkey⟩ := h r url hr
      exact ⟨s, List.mem_append_left _ hs, List.mem_append_left _ hs', hkey⟩
    · obtain ⟨s, hs, hs', hkey⟩ := hnew r url hr
      exact ⟨s, List.mem_append_left _ hs, hs', hkey⟩
  have hcached : ∀ {key url}, t.pipeline.cache.get? key = some url →
      ∃ s, .called s ∈ j ∧ .ended s (some url) ∈ j ++ j' ∧ s.key = key := by
    intro key url hit
    obtain ⟨s, hs, hkey⟩ := Journal.mem_successes.1 (hc.mem_successes hit)
    exact ⟨s, ho.held.ended s _ hs, List.mem_append_left _ hs, hkey⟩
  cases m with
  | learn | refuse | join | drop | call => exact hsplit (by simp)
  | reuse limit hit =>
    refine hsplit fun r url' hr => ?_
    obtain ⟨rfl, rfl⟩ := by simpa using hr
    exact hcached hit
  | leave grant hit =>
    refine hsplit fun r url' hr => ?_
    obtain ⟨rfl, rfl⟩ := by simpa using hr
    exact hcached hit
  | finish result holds =>
    refine hsplit fun r url' hr => ?_
    obtain ⟨rfl, rfl⟩ := by simpa using hr
    exact ⟨r, ((ho.held.holds r).1 holds).1, by simp, rfl⟩

/-! ## Requests without an address -/

/-- A request that was refused, was dropped or failed is never given an address. -/
structure Spent (j : Journal) : Prop where
  refused : ∀ r, .asked r false ∈ j → .queued r ∉ j
  ended : ∀ r url, .ended r (some url) ∈ j →
    .asked r false ∉ j ∧ .dropped r ∉ j ∧ .ended r none ∉ j

theorem spent_init : Spent [] := ⟨by simp, by simp⟩

namespace Spent

theorem same (h : Spent j) (hasked : ∀ r, .asked r false ∉ j') (hqueued : ∀ r, .queued r ∉ j')
    (hended : ∀ r url, .ended r url ∉ j') (hdropped : ∀ r, .dropped r ∉ j') :
    Spent (j ++ j') :=
  ⟨by simpa [hasked, hqueued] using h.refused, by simpa [hasked, hended, hdropped] using h.ended⟩

/-- An open request did not end. -/
theorem not_ended (ho : Ordered j t) (hr : r ∈ t.openRequests) (url : Option String) :
    .ended r url ∉ j := by
  intro hended
  rcases List.mem_append.1 hr with hr | hr
  · exact ((ho.held.holds r).1 hr).2.1 url hended
  · exact ho.fair.not_admitted ho.numbered hr (ho.held.called r (ho.held.ended r url hended))

theorem move (ho : Ordered j t) (h : Spent j) (m : Move t j' t') : Spent (j ++ j') := by
  cases m with
  | learn | reuse | leave | call => exact h.same (by simp) (by simp) (by simp) (by simp)
  | refuse key limit =>
    have hqueued : .queued ⟨t.asked, key, limit⟩ ∉ j := ho.numbered.fresh rfl
    refine ⟨fun r hr => ?_, fun r url hr => ?_⟩
    · rcases List.mem_append.1 hr with hr | hr
      · simpa using h.refused r hr
      · obtain rfl : r = ⟨t.asked, key, limit⟩ := by simpa using hr
        simpa using hqueued
    · have hr : .ended r (some url) ∈ j := by simpa using hr
      have hne : r ≠ ⟨t.asked, key, limit⟩ := by
        rintro rfl
        exact ho.numbered.fresh rfl hr
      simpa [hne] using h.ended r url hr
  | @join key limit =>
    have hasked : .asked ⟨t.asked, key, limit⟩ false ∉ j := ho.numbered.fresh rfl
    refine ⟨fun r hr => ?_, by simpa using h.ended⟩
    have hr : .asked r false ∈ j := by simpa using hr
    have hne : r ≠ ⟨t.asked, key, limit⟩ := fun he => hasked (he ▸ hr)
    simpa [hne] using h.refused r hr
  | @drop r isOpen =>
    refine ⟨by simpa using h.refused, fun s url hs => ?_⟩
    have hs : .ended s (some url) ∈ j := by simpa using hs
    have hne : s ≠ r := fun he => not_ended ho isOpen _ (he ▸ hs)
    simpa [hne] using h.ended s url hs
  | @finish r result holds =>
    refine ⟨by simpa using h.refused, fun s url hs => ?_⟩
    have hopen : r ∈ t.openRequests := List.mem_append_left _ holds
    rcases List.mem_append.1 hs with hs | hs
    · have hne : s ≠ r := fun he => not_ended ho hopen _ (he ▸ hs)
      simpa [hne] using h.ended s url hs
    · obtain ⟨rfl, rfl⟩ : s = r ∧ result = some url := by simpa [eq_comm] using hs
      obtain ⟨hcalled, -, hdropped⟩ := (ho.held.holds s).1 holds
      have hqueued := Journal.mem_queued.1 (ho.fair.mem_queued (.inl (ho.held.called s hcalled)))
      simpa [hdropped, not_ended ho hopen] using fun hasked => h.refused s hasked hqueued

end Spent

/-! ## The uploader's answers -/

theorem outcomes_conclude (t : Traffic) (r : Ticket) :
    (t.conclude r).1.outcomes = t.outcomes ∧
      ∀ s url, .ended s url ∈ (t.conclude r).2 → (s.id, url) ∈ t.outcomes := by
  obtain ⟨url, hknown, hc⟩ | ⟨-, hc⟩ := t.conclude_cases r <;> rw [hc]
  · refine ⟨rfl, fun s url' hs => ?_⟩
    obtain ⟨rfl, rfl⟩ : s = r ∧ url' = url := by simpa using hs
    obtain ⟨before, after, hsplit, -⟩ := List.lookup_eq_some_iff.1 hknown
    simp [hsplit]
  · exact ⟨rfl, by simp⟩

theorem outcomes_poll (t : Traffic) (id : Nat) :
    (t.poll id).1.outcomes = t.outcomes ∧
      ∀ s url, .ended s url ∈ (t.poll id).2 → (s.id, url) ∈ t.outcomes := by
  obtain ⟨r, -, hp⟩ | ⟨r, p, -, hp⟩ | hp := t.poll_cases id <;> rw [hp]
  · exact outcomes_conclude t r
  · obtain ⟨url, -, hc⟩ | ⟨-, hc⟩ := proceed_cases { t with pipeline := p } r <;> rw [hc]
    · exact ⟨rfl, by simp⟩
    · simpa using outcomes_conclude { t with pipeline := p } r
  · exact ⟨rfl, by simp⟩

theorem outcomes_take (t : Traffic) (turn : Turn) :
    (∀ p ∈ (t.take turn).1.outcomes, p ∈ t.outcomes ∨ turn = .event (.outcome p.1 p.2)) ∧
      ∀ s url, .ended s url ∈ (t.take turn).2 → (s.id, url) ∈ t.outcomes := by
  cases turn with
  | poll id =>
    obtain ⟨hsame, hended⟩ := outcomes_poll t id
    exact ⟨fun p hp => .inl (hsame ▸ hp), hended⟩
  | event event =>
    cases event with
    | outcome id url =>
      refine ⟨fun p hp => ?_, by simp [take, receive]⟩
      rcases List.mem_cons.1 hp with rfl | hp
      · exact .inr rfl
      · exact .inl hp
    | request key limit enabled =>
      simp only [take, receive, request]
      cases enabled with
      | false => simp +contextual
      | true => cases h : t.pipeline.cache.get? key <;> simp +contextual
    | cancel id =>
      simp only [take, receive, cancel]
      split <;> simp +contextual

/-- Uploads end as the uploader answered. -/
theorem outcome_of_ended {turns : List Turn} {url : Option String}
    (h : .ended r url ∈ (t.run turns).2) :
    (r.id, url) ∈ t.outcomes ∨ .event (.outcome r.id url) ∈ turns := by
  induction turns generalizing t with
  | nil => exact absurd h List.not_mem_nil
  | cons turn rest ih =>
    obtain ⟨hlearnt, hended⟩ := outcomes_take t turn
    rcases List.mem_append.1 h with h | h
    · exact .inl (hended r url h)
    · rcases ih h with h | h
      · exact (hlearnt _ h).imp_right fun he => List.mem_cons.2 (.inl he.symm)
      · exact .inr (List.mem_cons_of_mem turn h)

/-! ## Contents -/

/-- What the journal and the cache say of uploads. -/
structure Filed (j : Journal) (t : Traffic) : Prop where
  ordered : Ordered j t
  recorded : Recorded j t
  once : Once j
  sourced : Sourced j
  spent : Spent j

theorem filed_run (turns : List Turn) : Filed (run {} turns).2 (run {} turns).1 :=
  run_keeps ⟨ordered_init, recorded_init, .nil, by simp [Sourced], spent_init⟩
    (fun h m => ⟨h.ordered.move m, h.recorded.move m, once_move h.recorded h.once m,
      sourced_move h.ordered h.recorded h.sourced m, h.spent.move h.ordered m⟩) turns

/-- **No content is uploaded again once it is known.** After any turns no call for a content comes
after a successful one for the same content, and each address that a request was answered with is
the uploader's answer for that content. The cache holds the last address of each content that was
uploaded, one entry for each, and only successes change it; a request that was refused, was dropped
or failed has none. -/
theorem contents_upload_once (turns : List Turn) :
    let t := (run {} turns).1
    let j := (run {} turns).2
    (j.Pairwise fun e e' => ∀ r url s, e = .ended r (some url) → e' = .called s → r.key ≠ s.key) ∧
      (∀ r url, .answered r (some url) ∈ j →
        ∃ s, .called s ∈ j ∧ .ended s (some url) ∈ j ∧ s.key = r.key) ∧
      (∀ r url, .ended r url ∈ j → .event (.outcome r.id url) ∈ turns) ∧
      (∀ key, t.pipeline.cache.get? key = j.successes.reverse.lookup key) ∧
      (∀ r, .asked r false ∈ j ∨ .dropped r ∈ j ∨ .ended r none ∈ j →
        ∀ url, .ended r (some url) ∉ j) ∧
      (∀ more, (t.run more).2.successes = [] →
        (t.run more).1.pipeline.cache = t.pipeline.cache) ∧
      t.pipeline.cache.length = (j.successes.map Prod.fst).toFinset.card := by
  intro t j
  have h : Filed j t := filed_run turns
  refine ⟨h.once, h.sourced, fun r url hr => ?_, h.recorded.last, fun r hr url hended => ?_,
    fun more => (moves_run t more).cache_eq, h.recorded.length_eq⟩
  · exact (outcome_of_ended hr).resolve_left List.not_mem_nil
  · obtain ⟨hasked, hdropped, hfailed⟩ := h.spent.ended r url hended
    rcases hr with hr | hr | hr
    exacts [hasked hr, hdropped hr, hfailed hr]

end Traffic

end Artboard
