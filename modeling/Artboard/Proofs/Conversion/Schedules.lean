import Artboard.Proofs.Conversion.Accounts

/-!
# Schedules

The order in which `Plan.inOrder` carries out a plan is one of its schedules (`exists_run_inOrder`),
and every schedule can be continued until the process ends (`exists_runUnder`).

**Draining.** Whenever requests are open, some turn brings one of them further: a call that is under
way can end, and if there is none, the first in the queue is admitted. What is left when no request
is open is a plan of which nothing is done yet, and goes on in order.
-/

namespace Artboard

open Text (Bytes)

namespace Process

/-! ## Runs of parts -/

section Runs

variable {α β γ : Type} {host : Host} {supply : Supply}

theorem run_append (p : Process α) (schedule more : Schedule) (s : Shared) :
    p.run host supply (schedule ++ more) s =
      match p.run host supply schedule s with
      | (.ok p, s) => p.run host supply more s
      | (.error panic, s) => (.error panic, s) := by
  induction schedule generalizing p s with
  | nil => rfl
  | cons part rest ih =>
    rw [List.cons_append, run, run]
    rcases p.advance host supply part s with ⟨panic | q, t⟩
    · rfl
    · exact ih q t

theorem run_left (left : Process β) (right : Process γ) (next : β → γ → Plan α)
    (schedule : Schedule) (s : Shared) :
    (both left right next).run host supply (schedule.map (.left :: ·)) s =
      ((left.run host supply schedule s).1.map fun left => .both left right next,
        (left.run host supply schedule s).2) := by
  induction schedule generalizing left s with
  | nil => rfl
  | cons part rest ih =>
    rw [List.map_cons, run, run, advance]
    rcases left.advance host supply part s with ⟨panic | q, t⟩
    · rfl
    · exact ih q t

theorem run_right (left : Process β) (right : Process γ) (next : β → γ → Plan α)
    (schedule : Schedule) (s : Shared) :
    (both left right next).run host supply (schedule.map (.right :: ·)) s =
      ((right.run host supply schedule s).1.map fun right => .both left right next,
        (right.run host supply schedule s).2) := by
  induction schedule generalizing right s with
  | nil => rfl
  | cons part rest ih =>
    rw [List.map_cons, run, run, advance]
    rcases right.advance host supply part s with ⟨panic | q, t⟩
    · rfl
    · exact ih q t

end Runs

/-! ## The order of a computation -/

section InOrder

variable {α β : Type} (host : Host) (uploader : Uploader) {s : Shared}

/-- Under some schedule the process goes on as a computation did, and drops what is open then. -/
def Follows (p : Process α) (s : Shared)
    (ended : Except Panic (Process α) × World) : Prop :=
  ∃ schedule s', p.run host (.pipeline uploader) schedule s = (ended.1, s') ∧
    s'.abandon.world = ended.2

theorem follows_export (hs : s.Sound) (hidle : s.world.pipeline.slots = {}) {errand : Errand β}
    (isExport : errand.IsExport) (next : β → Plan α) :
    let ended := (errand.inOrder host (Pass.address uploader)).runIn s.world
    Follows host uploader (await errand next) s
      (ended.1.map fun b => (next b).start, ended.2) := by
  intro ended
  have hworld : ended.2.pipeline = s.world.pipeline := pipeline_export isExport ..
  have hturn : (await errand next).advance host (.pipeline uploader) [] s =
      (ended.1.map fun b => (next b).start, { s with world := ended.2 }) := by
    cases errand with
    | ask | bitmap => rfl
    | address => exact isExport.elim
  refine ⟨[[]], { s with world := ended.2 }, ?_, ?_⟩
  · rw [run, hturn]
    cases ended.1 <;> rfl
  · exact (hs.congr hworld).abandon_of_idle (by rw [hworld, hidle])

section Address

variable (hs : s.Sound) (hidle : s.world.pipeline.slots = {}) {parcel : Parcel}
  (next : Option String → Plan α)

include hidle

theorem runIn_address_of_disabled (disabled : parcel.settings.enabled = false) :
    (Pass.address uploader parcel.settings parcel.kind parcel.bytes).runIn s.world =
      (.ok none, s.world) := by
  rw [Pass.runIn_address _ _ _ _ hidle, disabled]
  rfl

theorem runIn_address_of_hit (enabled : parcel.settings.enabled = true) {url : String}
    (hit : s.world.pipeline.cache.get? parcel.key = some url) :
    (Pass.address uploader parcel.settings parcel.kind parcel.bytes).runIn s.world =
      (.ok (some url), s.world) := by
  rw [Pass.runIn_address _ _ _ _ hidle, enabled, if_pos rfl]
  dsimp only
  rw [show s.world.pipeline.cache.get? (ContentHash.of parcel.bytes).key = some url from hit]

theorem runIn_address_of_miss (enabled : parcel.settings.enabled = true)
    (miss : s.world.pipeline.cache.get? parcel.key = none) (id : Nat) :
    (Pass.address uploader parcel.settings parcel.kind parcel.bytes).runIn s.world =
      match (uploader s.world.uploads.length parcel.upload).result with
      | .ok url => (.ok url, { s.world with
          uploads := s.world.uploads ++ [parcel.upload]
          pipeline := ⟨(s.world.pipeline.finish (parcel.ticket id) url).cache, {}⟩ })
      | .error panic => (.error panic, { s.world with
          uploads := s.world.uploads ++ [parcel.upload]
          pipeline := ⟨s.world.pipeline.cache, {}⟩ }) := by
  rw [Pass.runIn_address _ _ _ _ hidle, enabled, if_pos rfl]
  dsimp only
  rw [show s.world.pipeline.cache.get? (ContentHash.of parcel.bytes).key = none from miss,
    show (⟨parcel.kind, (ContentHash.of parcel.bytes).key, parcel.bytes⟩ : UploadRequest) =
      parcel.upload from rfl, ← hidle]
  cases uploader s.world.uploads.length parcel.upload <;> rfl

end Address

/-- An upload takes three turns: the request is made, calls the uploader, and is answered. -/
theorem follows_address_of_miss (hs : s.Sound) (hidle : s.world.pipeline.slots = {})
    (parcel : Parcel) (next : Option String → Plan α) (enabled : parcel.settings.enabled = true)
    (miss : s.world.pipeline.cache.get? parcel.key = none) :
    let ended := (Pass.address uploader parcel.settings parcel.kind parcel.bytes).runIn s.world
    Follows host uploader (await (.address parcel.settings parcel.kind parcel.bytes) next) s
      (ended.1.map fun b => (next b).start, ended.2) := by
  intro ended
  have hended : ended = _ := runIn_address_of_miss uploader hidle enabled miss s.asked
  have hstart := underway_start uploader hs hidle
    (.await (.address parcel.settings parcel.kind parcel.bytes) next)
  -- The request is made.
  have hmade : (await (.address parcel.settings parcel.kind parcel.bytes) next).advance host
      (.pipeline uploader) [] s = _ := begin_of_miss parcel next enabled miss
  generalize hs₁ : s.after _ = s₁ at hmade
  have h₁ := hstart.advance [] hmade
  obtain ⟨p, hgrant, hcache⟩ : ∃ p, s₁.world.pipeline.grant = some (parcel.ticket s.asked, p) ∧
      p.cache = s.world.pipeline.cache := by
    have hpipeline : s.world.pipeline = ⟨s.world.pipeline.cache, {}⟩ := by rw [← hidle]
    rw [← hs₁]
    show ∃ p, (s.world.pipeline.ask (parcel.ticket s.asked)).grant = _ ∧ _
    rw [hpipeline, Pipeline.grant_ask_of_idle]
    exact ⟨_, rfl, rfl⟩
  -- It calls the uploader.
  have hnumber : s₁.world.uploads.length = s.world.uploads.length := by rw [← hs₁]; rfl
  have hcalled : (sent s.asked parcel none next).advance host (.pipeline uploader) [] s₁ = _ :=
    proceed_of_miss next h₁.sound hgrant (by rw [← hs₁]; exact miss)
  rw [hnumber] at hcalled
  generalize hs₂ : (s₁.after _).calling _ = s₂ at hcalled
  have h₂ := h₁.advance [] hcalled
  have holds : parcel.ticket s.asked ∈ s₂.traffic.holding :=
    h₂.tracked.holding.subset (by simp [holding])
  have hworld : s₂.world = { s.world with
      uploads := s.world.uploads ++ [parcel.upload], pipeline := p } := by
    rw [← hs₂, ← hs₁]
    rfl
  -- It is answered.
  cases hreply : (uploader s.world.uploads.length parcel.upload).result with
  | ok url =>
    have hanswered : (sent s.asked parcel (some s.world.uploads.length) next).advance host
        (.pipeline uploader) [] s₂ = _ := proceed_of_reply next h₂.sound holds hreply
    generalize hs₃ : s₂.after _ = s₃ at hanswered
    have h₃ := h₂.advance [] hanswered
    have hlearnt : (p.finish (parcel.ticket s.asked) url).cache =
        (s.world.pipeline.finish (parcel.ticket s.asked) url).cache := by
      cases url <;> simp [Pipeline.finish, Pipeline.store, Pipeline.leave, hcache]
    refine ⟨[[], [], []], s₃, ?_, ?_⟩
    · simp only [run, hmade, hcalled, hanswered, hended, hreply]
      rfl
    · rw [h₃.sound.abandon_world, hended, hreply, ← hs₃]
      simp only [Shared.after, hworld, hlearnt]
  | error panic =>
    have hbroken : (sent s.asked parcel (some s.world.uploads.length) next).advance host
        (.pipeline uploader) [] s₂ = (.error panic, s₂) := by
      simp only [advance, proceed, hreply]
    refine ⟨[[], [], []], s₂, ?_, ?_⟩
    · simp only [run, hmade, hcalled, hbroken, hended, hreply]
      rfl
    · rw [h₂.sound.abandon_world, hworld, hcache, hended, hreply]

/-- A request that is answered at once takes one turn. -/
theorem follows_turn (hs : s.Sound) (hidle : s.world.pipeline.slots = {}) {errand : Errand β}
    {next : β → Plan α} {b : β} {s' : Shared}
    (hturn : begin host (.pipeline uploader) errand next s = (.ok (next b).start, s'))
    (hworld : s'.world = s.world) :
    Follows host uploader (await errand next) s (.ok (next b).start, s.world) := by
  have hadvance : (await errand next).advance host (.pipeline uploader) [] s = _ := hturn
  have hafter := (underway_start uploader hs hidle (.await errand next)).advance [] hadvance
  refine ⟨[[]], s', ?_, ?_⟩
  · rw [run, hadvance]
    rfl
  · rw [hafter.sound.abandon_of_idle (by rw [hworld, hidle]), hworld]

theorem follows_address (hs : s.Sound) (hidle : s.world.pipeline.slots = {}) (parcel : Parcel)
    (next : Option String → Plan α) :
    let ended := (Pass.address uploader parcel.settings parcel.kind parcel.bytes).runIn s.world
    Follows host uploader (await (.address parcel.settings parcel.kind parcel.bytes) next) s
      (ended.1.map fun b => (next b).start, ended.2) := by
  cases henabled : parcel.settings.enabled with
  | false =>
    dsimp only
    rw [runIn_address_of_disabled uploader hidle henabled]
    exact follows_turn host uploader hs hidle (begin_of_disabled parcel next henabled) rfl
  | true =>
    cases hcache : s.world.pipeline.cache.get? parcel.key with
    | some url =>
      dsimp only
      rw [runIn_address_of_hit uploader hidle henabled hcache]
      exact follows_turn host uploader hs hidle (begin_of_hit parcel next henabled hcache) rfl
    | none => exact follows_address_of_miss host uploader hs hidle parcel next henabled hcache

theorem follows_errand (hs : s.Sound) (hidle : s.world.pipeline.slots = {}) (errand : Errand β)
    (next : β → Plan α) :
    let ended := (errand.inOrder host (Pass.address uploader)).runIn s.world
    Follows host uploader (await errand next) s
      (ended.1.map fun b => (next b).start, ended.2) := by
  cases errand with
  | ask request =>
    have isExport : (Errand.ask request).IsExport := trivial
    exact follows_export host uploader hs hidle isExport next
  | bitmap item withChildren =>
    have isExport : (Errand.bitmap item withChildren).IsExport := trivial
    exact follows_export host uploader hs hidle isExport next
  | address settings kind bytes =>
    exact follows_address host uploader hs hidle ⟨settings, kind, bytes⟩ next

variable {host uploader}

theorem Follows.after {p q : Process α} {schedule : Schedule} {s' : Shared}
    {ended : Except Panic (Process α) × World} (h : Follows host uploader q s' ended)
    (hrun : p.run host (.pipeline uploader) schedule s = (.ok q, s')) :
    Follows host uploader p s ended := by
  obtain ⟨more, t, hmore, hworld⟩ := h
  exact ⟨schedule ++ more, t, by rw [run_append, hrun]; exact hmore, hworld⟩

/-- A process that has come to a plan of which nothing is done yet leaves no request open. -/
theorem Follows.exists_run {plan q : Plan β} {w : World}
    (h : Follows host uploader plan.start s (.ok q.start, w)) (hs : s.Sound)
    (hidle : s.world.pipeline.slots = {}) :
    ∃ schedule s', plan.start.run host (.pipeline uploader) schedule s = (.ok q.start, s') ∧
      s'.Sound ∧ s'.world.pipeline.slots = {} ∧ s'.world = w := by
  obtain ⟨schedule, s', hrun, hworld⟩ := h
  obtain ⟨p, hp, hfits⟩ := (underway_start uploader hs hidle plan).run schedule hrun
  obtain rfl := hfits q.start rfl
  replace hworld : s'.abandon.world = w := hworld
  refine ⟨schedule, s', hrun, hp.sound, hp.slots_of_start, ?_⟩
  rw [← hworld, hp.sound.abandon_of_idle hp.slots_of_start]

variable (host uploader)

/-- **The order of a computation is that of some schedule.** The induction is on the plan. -/
theorem follows_inOrder (plan : Plan α) (hs : s.Sound) (hidle : s.world.pipeline.slots = {}) :
    let ended := (plan.inOrder host (Pass.address uploader)).runIn s.world
    Follows host uploader plan.start s (ended.1.map .done, ended.2) := by
  induction plan generalizing s with
  | done a => exact ⟨[], s, rfl, hs.abandon_of_idle hidle⟩
  | await errand next ih =>
    have hfirst : Follows host uploader (Plan.await errand next).start s _ :=
      follows_errand host uploader hs hidle errand next
    rw [Plan.inOrder, Pass.runIn_bind]
    rcases hended : (errand.inOrder host (Pass.address uploader)).runIn s.world with ⟨panic | b, w⟩
    all_goals rw [hended] at hfirst
    · exact hfirst
    · obtain ⟨schedule, s', hrun, hs', hidle', rfl⟩ := hfirst.exists_run hs hidle
      exact (ih b hs' hidle').after hrun
  | @both α β γ left right next ihleft ihright ihnext =>
    have hleft := ihleft hs hidle
    rw [Plan.inOrder, Pass.runIn_bind]
    rcases hended : (left.inOrder host (Pass.address uploader)).runIn s.world with ⟨panic | b, w⟩
    all_goals rw [hended] at hleft
    · obtain ⟨schedule, s', hrun, hworld⟩ := hleft
      exact ⟨_, s', by rw [Plan.start, run_left, hrun]; rfl, hworld⟩
    replace hleft : Follows host uploader left.start s (.ok (Plan.done b).start, w) := hleft
    obtain ⟨schedule, s₁, hrun, hs₁, hidle₁, rfl⟩ := hleft.exists_run hs hidle
    have hafter : (both left.start right.start next).run host (.pipeline uploader)
        (schedule.map (.left :: ·)) s = (.ok (both (done b) right.start next), s₁) := by
      rw [run_left, hrun]
      rfl
    refine Follows.after ?_ hafter
    have hright := ihright hs₁ hidle₁
    dsimp only
    rw [Pass.runIn_bind]
    rcases hended₁ : (right.inOrder host (Pass.address uploader)).runIn s₁.world with ⟨panic | c, w⟩
    all_goals rw [hended₁] at hright
    · obtain ⟨schedule, s', hrun, hworld⟩ := hright
      exact ⟨_, s', by rw [run_right, hrun]; rfl, hworld⟩
    replace hright : Follows host uploader right.start s₁ (.ok (Plan.done c).start, w) := hright
    obtain ⟨schedule, s₂, hrun, hs₂, hidle₂, rfl⟩ := hright.exists_run hs₁ hidle₁
    have hafter : (both (done b) right.start next).run host (.pipeline uploader)
        (schedule.map (.right :: ·) ++ [[]]) s₁ = (.ok (next b c).start, s₂) := by
      rw [run_append, run_right, hrun]
      rfl
    exact (ihnext b c hs₂ hidle₂).after hafter

end InOrder

/-! ## Draining -/

section Drain

variable {α : Type} {host : Host} {uploader : Uploader} {start s : Shared} {p : Process α}

/-- How many turns the open requests need at most. -/
def load (p : Process α) : Nat := 2 * p.waiting.length + p.holding.length

theorem load_start (plan : Plan α) : plan.start.load = 0 := by
  rw [load, waiting_start, holding_start]
  rfl

theorem load_both {β γ : Type} (left : Process β) (right : Process γ) (next : β → γ → Plan α) :
    (both left right next).load = left.load + right.load := by
  simp only [load, waiting, holding, List.length_append]
  omega

/-- A process without open requests is a plan of which nothing is done yet. -/
theorem exists_start_of_load (h : p.load = 0) : ∃ plan : Plan α, p = plan.start := by
  induction p with
  | done a => exact ⟨.done a, rfl⟩
  | await errand next => exact ⟨.await errand next, rfl⟩
  | sent id parcel call => cases call <;> cases h
  | both left right next ihleft ihright =>
    rw [load_both] at h
    obtain ⟨left, rfl⟩ := ihleft (Nat.eq_zero_of_add_eq_zero_right h)
    obtain ⟨right, rfl⟩ := ihright (Nat.eq_zero_of_add_eq_zero_left h)
    exact ⟨.both left right next, rfl⟩

/-- A turn after which the open requests need fewer turns, unless it panics. -/
def Lessens (host : Host) (uploader : Uploader) (p : Process α) (s : Shared) (part : Part) : Prop :=
  ∀ p' s', p.advance host (.pipeline uploader) part s = (.ok p', s') → p'.load < p.load

theorem Lessens.left {β γ : Type} {left : Process β} {part : Part}
    (h : Lessens host uploader left s part) (right : Process γ) (next : β → γ → Plan α) :
    Lessens host uploader (both left right next) s (.left :: part) := by
  intro p' s' hp
  rw [advance] at hp
  rcases hadvance : left.advance host (.pipeline uploader) part s with ⟨panic | left', t⟩
  all_goals rw [hadvance] at hp
  · cases hp
  · obtain rfl : both left' right next = p' := Except.ok.inj (congrArg Prod.fst hp)
    rw [load_both, load_both]
    exact Nat.add_lt_add_right (h left' t hadvance) _

theorem Lessens.right {β γ : Type} {right : Process γ} {part : Part}
    (h : Lessens host uploader right s part) (left : Process β) (next : β → γ → Plan α) :
    Lessens host uploader (both left right next) s (.right :: part) := by
  intro p' s' hp
  rw [advance] at hp
  rcases hadvance : right.advance host (.pipeline uploader) part s with ⟨panic | right', t⟩
  all_goals rw [hadvance] at hp
  · cases hp
  · obtain rfl : both left right' next = p' := Except.ok.inj (congrArg Prod.fst hp)
    rw [load_both, load_both]
    exact Nat.add_lt_add_left (h right' t hadvance) _

/-- A call that is under way can end at any time. -/
theorem exists_lessens_of_holding (h : p.holding ≠ []) :
    ∃ part, ∀ s, Lessens host uploader p s part := by
  induction p with
  | done | await => exact absurd rfl h
  | sent id parcel call next =>
    cases call with
    | none => exact absurd rfl h
    | some call =>
      refine ⟨[], fun s p' s' hp => ?_⟩
      simp only [advance, proceed] at hp
      cases hreply : (uploader call parcel.upload).result with
      | error panic =>
        rw [hreply] at hp
        cases hp
      | ok url =>
        rw [hreply] at hp
        obtain rfl : (next url).start = p' := Except.ok.inj (congrArg Prod.fst hp)
        rw [load_start]
        exact Nat.one_pos
  | both left right next ihleft ihright =>
    by_cases hleft : left.holding = []
    · obtain ⟨part, hpart⟩ := ihright fun hright => h (List.append_eq_nil_iff.2 ⟨hleft, hright⟩)
      exact ⟨.right :: part, fun s => (hpart s).right left next⟩
    · obtain ⟨part, hpart⟩ := ihleft hleft
      exact ⟨.left :: part, fun s => (hpart s).left right next⟩

/-- A request is admitted once it is the first in the queue and its permits are free. -/
theorem exists_lessens_of_waiting {r : Ticket} (hr : r ∈ p.waiting) (hs : s.Sound)
    {admitted : Pipeline} (hgrant : s.world.pipeline.grant = some (r, admitted)) :
    ∃ part, Lessens host uploader p s part := by
  induction p with
  | done | await => cases hr
  | sent id parcel call next =>
    cases call with
    | some call => cases hr
    | none =>
      obtain rfl := List.mem_singleton.1 hr
      refine ⟨[], fun p' s' hp => ?_⟩
      rw [advance] at hp
      cases hcache : s.world.pipeline.cache.get? parcel.key with
      | some url =>
        rw [proceed_of_hit next hs hgrant hcache] at hp
        obtain rfl := Except.ok.inj (congrArg Prod.fst hp)
        rw [load_start]
        exact Nat.two_pos
      | none =>
        rw [proceed_of_miss next hs hgrant hcache] at hp
        obtain rfl := Except.ok.inj (congrArg Prod.fst hp)
        exact Nat.one_lt_two
  | both left right next ihleft ihright =>
    rcases List.mem_append.1 hr with hr | hr
    · obtain ⟨part, hpart⟩ := ihleft hr
      exact ⟨.left :: part, hpart.left right next⟩
    · obtain ⟨part, hpart⟩ := ihright hr
      exact ⟨.right :: part, hpart.right left next⟩

/-- **Open requests never get stuck.** If no call is under way, all permits are free. -/
theorem Underway.exists_lessens (host : Host) (h : p.Underway uploader start s)
    (hload : p.load ≠ 0) : ∃ part, Lessens host uploader p s part := by
  by_cases hholding : p.holding = []
  · have hwaiting := h.tracked.waiting
    rw [List.append_nil] at hwaiting
    have hnone : s.traffic.holding = [] := by
      have hperm := h.tracked.holding
      rw [hholding] at hperm
      exact List.nil_perm.1 hperm
    have hidle : s.traffic.pipeline.slots.inFlight = 0 :=
      h.sound.balanced.inFlight_eq.trans (congrArg List.length hnone)
    cases hgrant : s.world.pipeline.grant with
    | none =>
      have hqueue := h.sound.balanced.waiting_eq_nil (Pipeline.grant_eq_none.1 hgrant) hidle
      have hwaits : p.waiting = [] := List.perm_nil.1 (hwaiting.trans (.of_eq hqueue))
      exact absurd (by rw [load, hwaits, hholding]; rfl) hload
    | some granted =>
      obtain ⟨r, admitted⟩ := granted
      obtain ⟨rest, hqueue, -⟩ := Pipeline.grant_eq_some.1 hgrant
      have hr : r ∈ s.world.pipeline.slots.waiting := hqueue ▸ List.mem_cons_self
      exact exists_lessens_of_waiting (hwaiting.mem_iff.2 hr) h.sound hgrant
  · obtain ⟨part, hpart⟩ := exists_lessens_of_holding hholding
    exact ⟨part, hpart s⟩

/-- The induction is on how many turns the open requests need; then the rest goes on in order. -/
theorem Underway.exists_run (host : Host) (h : p.Underway uploader start s) :
    ∃ schedule, ∀ p', (p.run host (.pipeline uploader) schedule s).1 = .ok p' →
      ∃ a, p' = done a := by
  induction hn : p.load using Nat.strong_induction_on generalizing p s with
  | _ n ih =>
    by_cases hload : p.load = 0
    · obtain ⟨plan, rfl⟩ := exists_start_of_load hload
      obtain ⟨schedule, s', hrun, -⟩ := follows_inOrder host uploader plan h.sound h.slots_of_start
      refine ⟨schedule, fun p' hp => ?_⟩
      rw [hrun] at hp
      generalize (plan.inOrder host (Pass.address uploader)).runIn s.world = ended at hp
      obtain ⟨_ | a, _⟩ := ended
      · cases hp
      · exact ⟨a, (Except.ok.inj hp).symm⟩
    · obtain ⟨part, hpart⟩ := h.exists_lessens host hload
      rcases hadvance : p.advance host (.pipeline uploader) part s with ⟨panic | q, t⟩
      · refine ⟨[part], fun p' hp => ?_⟩
        rw [Process.run, hadvance] at hp
        cases hp
      · obtain ⟨schedule, hrun⟩ := ih q.load (hn ▸ hpart q t hadvance) (h.advance part hadvance) rfl
        refine ⟨part :: schedule, fun p' hp => hrun p' ?_⟩
        rwa [Process.run, hadvance] at hp

end Drain

end Process

/-! ## Plans under schedules -/

namespace Plan

variable {α : Type} {host : Host} {uploader : Uploader} {s : Shared}

/-- **Every schedule can be continued to an end.** -/
theorem exists_runUnder (hs : s.Sound) (hidle : s.world.pipeline.slots = {}) (plan : Plan α)
    (schedule : Schedule) :
    ∃ more, (plan.runUnder host (.pipeline uploader) (schedule ++ more) s).isSome := by
  rcases hrun : plan.start.run host (.pipeline uploader) schedule s with ⟨panic | p, t⟩
  · exact ⟨[], by rw [runUnder, Process.run_append, hrun]; rfl⟩
  · obtain ⟨q, hq, hfits⟩ := (Process.underway_start uploader hs hidle plan).run schedule hrun
    obtain rfl := hfits p rfl
    obtain ⟨more, hmore⟩ := hq.exists_run host
    refine ⟨more, ?_⟩
    rw [runUnder, Process.run_append, hrun]
    dsimp only
    rcases hend : p.run host (.pipeline uploader) more t with ⟨panic | p', t'⟩
    · rfl
    · obtain ⟨a, rfl⟩ := hmore p' (by rw [hend])
      rfl

/-- **One part after the other is one of the schedules.** -/
theorem exists_runUnder_inOrder (host : Host) (uploader : Uploader) (hs : s.Sound)
    (hidle : s.world.pipeline.slots = {}) (plan : Plan α) :
    let ended := (plan.inOrder host (Pass.address uploader)).runIn s.world
    ∃ schedule s', plan.runUnder host (.pipeline uploader) schedule s = some (ended.1, s') ∧
      s'.world = ended.2 := by
  intro ended
  obtain ⟨schedule, t, hrun, hworld⟩ := Process.follows_inOrder host uploader plan hs hidle
  change plan.start.run host (.pipeline uploader) schedule s = (ended.1.map .done, t) at hrun
  cases hended : ended.1 with
  | error panic =>
    rw [hended] at hrun
    exact ⟨schedule, t.abandon, by rw [runUnder, hrun]; rfl, hworld⟩
  | ok a =>
    rw [hended] at hrun
    obtain ⟨q, hq, hfits⟩ := (Process.underway_start uploader hs hidle plan).run schedule hrun
    obtain rfl := hfits (.done a) rfl
    refine ⟨schedule, t, by rw [runUnder, hrun]; rfl, ?_⟩
    have hdone : (Plan.done a).start.Underway uploader s t := hq
    exact (hq.sound.abandon_of_idle hdone.slots_of_start).symm.trans hworld

end Plan

end Artboard
