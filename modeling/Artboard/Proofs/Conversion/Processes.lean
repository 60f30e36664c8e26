import Artboard.Conversion.Process
import Artboard.Proofs.Conversion.Passes
import Artboard.Proofs.Upload.Growth

/-!
# Processes and their requests

The requests that are open in the traffic are those of the parts of the process (`Tracked`). From
this follows what a turn of a part can do (`Goes`, `goes_advance`): a request is refused, answered
from the cache, joins the queue, leaves its slot at once, calls the uploader or ends its upload, and
nothing else happens to any other request.
-/

namespace Artboard

open Text (Bytes)

universe u v

/-- What comes of a map is a value only if there was one. -/
theorem exists_of_map_eq_ok {α : Type u} {β : Type v} {result : Except Panic α} {f : α → β}
    {b : β} (h : result.map f = .ok b) : ∃ a, result = .ok a ∧ f a = b := by
  cases result with
  | error panic => cases h
  | ok a => exact ⟨a, rfl, Except.ok.inj h⟩

/-! ## States -/

namespace Shared

variable {s : Shared}

@[simp] theorem traffic_after (passed : Traffic × Journal) :
    (s.after passed).traffic = passed.1 := rfl

theorem take_eq (s : Shared) (turn : Traffic.Turn) :
    s.take turn = s.after (s.traffic.run [turn]) := by
  simp only [take, after, Traffic.run, List.append_nil]

/-- Some turns of the traffic lead from one state to the other. -/
def Leads (s s' : Shared) : Prop :=
  ∃ turns, s'.traffic = (s.traffic.run turns).1 ∧ s'.journal = s.journal ++ (s.traffic.run turns).2

namespace Leads

variable {s' s'' : Shared}

theorem refl (s : Shared) : s.Leads s := ⟨[], rfl, (List.append_nil _).symm⟩

theorem trans (h : s.Leads s') (h' : s'.Leads s'') : s.Leads s'' := by
  obtain ⟨turns, htraffic, hjournal⟩ := h
  obtain ⟨more, htraffic', hjournal'⟩ := h'
  refine ⟨turns ++ more, ?_, ?_⟩
  · rw [htraffic', htraffic, Traffic.run_append]
  · rw [hjournal', hjournal, htraffic, List.append_assoc, Traffic.run_append_eq]

theorem after (s : Shared) (turns : List Traffic.Turn) :
    s.Leads (s.after (s.traffic.run turns)) := ⟨turns, rfl, rfl⟩

theorem take (s : Shared) (turn : Traffic.Turn) : s.Leads (s.take turn) := by
  rw [take_eq]
  exact after s [turn]

/-- Only the pipeline of the world counts. -/
theorem world {world : World} (h : world.pipeline = s.world.pipeline) :
    s.Leads { s with world } :=
  ⟨[], by simp [Traffic.run, traffic, h], (List.append_nil _).symm⟩

theorem moves (h : s.Leads s') :
    ∃ j, s'.journal = s.journal ++ j ∧ Traffic.Moves s.traffic j s'.traffic := by
  obtain ⟨turns, htraffic, hjournal⟩ := h
  exact ⟨_, hjournal, htraffic ▸ Traffic.moves_run _ turns⟩

end Leads

/-- The requests of the state are what comes of some turns of the traffic, and no outcome is known
of an open one. -/
structure Sound (s : Shared) : Prop where
  reached : Leads {} s
  closed : ∀ known ∈ s.outcomes, Traffic.Closed known.1 s.traffic

namespace Sound

theorem init : Sound {} := ⟨.refl _, nofun⟩

theorem ordered (h : s.Sound) : Traffic.Ordered s.journal s.traffic := by
  obtain ⟨turns, htraffic, hjournal⟩ := h.reached
  rw [htraffic, hjournal]
  exact Traffic.ordered_run turns

theorem balanced (h : s.Sound) : s.traffic.pipeline.slots.Balanced := by
  obtain ⟨turns, htraffic, -⟩ := h.reached
  rw [htraffic]
  exact Traffic.balanced_run turns

theorem congr (h : s.Sound) {world : World} (hworld : world.pipeline = s.world.pipeline) :
    Sound { s with world } := by
  have htraffic : traffic { s with world } = s.traffic := by simp [traffic, hworld]
  exact ⟨h.reached.trans (.world hworld), htraffic ▸ h.closed⟩

theorem unknown (h : s.Sound) {r : Ticket} (hr : r ∈ s.traffic.openRequests) :
    s.outcomes.lookup r.id = none := by
  refine List.lookup_eq_none_iff.2 fun known hknown => ?_
  exact bne_iff_ne.2 ((h.closed known hknown).2 r hr)

/-- Turns in which no outcome becomes known. -/
theorem leads (h : s.Sound) {s' : Shared} (hleads : s.Leads s')
    (houtcomes : s'.outcomes ⊆ s.outcomes) : s'.Sound := by
  obtain ⟨j, -, hmoves⟩ := hleads.moves
  exact ⟨h.reached.trans hleads, fun known hknown =>
    (h.closed known (houtcomes hknown)).moves hmoves⟩

theorem abandon (h : s.Sound) : s.abandon.Sound :=
  h.leads (.after s _) fun _ hknown => (Traffic.outcomes_run hknown).resolve_right (by simp)

end Sound

end Shared

/-! ## Requests under way -/

/-- Whether an errand is one of the design tool. -/
def Errand.IsExport {β : Type} : Errand β → Prop
  | .ask _ | .bitmap _ _ => True
  | .address _ _ _ => False

namespace Process

/-- The requests that wait for a slot. -/
def waiting {α : Type} : Process α → List Ticket
  | .sent id parcel none _ => [parcel.ticket id]
  | .both left right _ => left.waiting ++ right.waiting
  | _ => []

/-- The requests that hold a slot. -/
def holding {α : Type} : Process α → List Ticket
  | .sent id parcel (some _) _ => [parcel.ticket id]
  | .both left right _ => left.holding ++ right.holding
  | _ => []

variable {α : Type}

/-- The open requests are those of the process and others, which wait or hold a slot. -/
structure Tracked (p : Process α) (s : Shared) (waiters holders : List Ticket) : Prop where
  waiting : (p.waiting ++ waiters).Perm s.traffic.waiting
  holding : (p.holding ++ holders).Perm s.traffic.holding

/-- What comes of a turn, and the state after it. -/
inductive Goes (host : Host) (uploader : Uploader) (s : Shared) :
    {α : Type} → Process α → Except Panic (Process α) → Shared → Prop
  | ask {α β : Type} {errand : Errand β} {next : β → Plan α} (isExport : errand.IsExport) :
    Goes host uploader s (.await errand next)
      (((errand.inOrder host (Pass.address uploader)).runIn s.world).1.map
        fun b => (next b).start)
      { s with world := ((errand.inOrder host (Pass.address uploader)).runIn s.world).2 }
  | refuse {α : Type} {parcel : Parcel} {next : Option String → Plan α}
      (disabled : parcel.settings.enabled = false) :
    Goes host uploader s (.await (.address parcel.settings parcel.kind parcel.bytes) next)
      (.ok (next none).start)
      (s.after ({ s.traffic with asked := s.asked + 1 },
        [.asked (parcel.ticket s.asked) false, .answered (parcel.ticket s.asked) none]))
  | reuse {α : Type} {parcel : Parcel} {next : Option String → Plan α} {url : String}
      (enabled : parcel.settings.enabled = true)
      (hit : s.world.pipeline.cache.get? parcel.key = some url) :
    Goes host uploader s (.await (.address parcel.settings parcel.kind parcel.bytes) next)
      (.ok (next (some url)).start)
      (s.after ({ s.traffic with asked := s.asked + 1 },
        [.asked (parcel.ticket s.asked) true, .answered (parcel.ticket s.asked) (some url)]))
  | join {α : Type} {parcel : Parcel} {next : Option String → Plan α}
      (enabled : parcel.settings.enabled = true)
      (miss : s.world.pipeline.cache.get? parcel.key = none) :
    Goes host uploader s (.await (.address parcel.settings parcel.kind parcel.bytes) next)
      (.ok (.sent s.asked parcel none next))
      (s.after ({ s.traffic with
          asked := s.asked + 1, pipeline := s.world.pipeline.ask (parcel.ticket s.asked) },
        [.asked (parcel.ticket s.asked) true, .queued (parcel.ticket s.asked)]))
  | leave {α : Type} {id : Nat} {parcel : Parcel} {next : Option String → Plan α} {p : Pipeline}
      {url : String} (grant : s.world.pipeline.grant = some (parcel.ticket id, p))
      (hit : s.world.pipeline.cache.get? parcel.key = some url) :
    Goes host uploader s (.sent id parcel none next) (.ok (next (some url)).start)
      (s.after ({ s.traffic with pipeline := p.leave (parcel.ticket id) },
        [.admitted (parcel.ticket id), .answered (parcel.ticket id) (some url)]))
  | call {α : Type} {id : Nat} {parcel : Parcel} {next : Option String → Plan α} {p : Pipeline}
      (grant : s.world.pipeline.grant = some (parcel.ticket id, p))
      (miss : s.world.pipeline.cache.get? parcel.key = none) :
    Goes host uploader s (.sent id parcel none next)
      (.ok (.sent id parcel (some s.world.uploads.length) next))
      ((s.after ({ s.traffic with pipeline := p },
        [.admitted (parcel.ticket id), .called (parcel.ticket id)])).calling parcel.upload)
  | finish {α : Type} {id call : Nat} {parcel : Parcel} {next : Option String → Plan α}
      {url : Option String} (reply : (uploader call parcel.upload).result = .ok url) :
    Goes host uploader s (.sent id parcel (some call) next) (.ok (next url).start)
      (s.after ({ s.traffic with
          outcomes := (id, url) :: s.outcomes
          pipeline := s.world.pipeline.finish (parcel.ticket id) url },
        [.ended (parcel.ticket id) url, .answered (parcel.ticket id) url]))
  | breakOff {α : Type} {id call : Nat} {parcel : Parcel} {next : Option String → Plan α}
      {panic : Panic} (reply : (uploader call parcel.upload).result = .error panic) :
    Goes host uploader s (.sent id parcel (some call) next) (.error panic) s
  | meet {α β γ : Type} {b : β} {c : γ} {next : β → γ → Plan α} :
    Goes host uploader s (.both (.done b) (.done c) next) (.ok (next b c).start) s
  | stay {α : Type} (p : Process α) : Goes host uploader s p (.ok p) s
  | left {α β γ : Type} {left : Process β} {right : Process γ} {next : β → γ → Plan α}
      {result : Except Panic (Process β)} {s' : Shared} (h : Goes host uploader s left result s') :
    Goes host uploader s (.both left right next) (result.map fun left => .both left right next) s'
  | right {α β γ : Type} {left : Process β} {right : Process γ} {next : β → γ → Plan α}
      {result : Except Panic (Process γ)} {s' : Shared} (h : Goes host uploader s right result s') :
    Goes host uploader s (.both left right next) (result.map fun right => .both left right next) s'

variable {host : Host} {uploader : Uploader} {s s' : Shared} {p : Process α}
  {waiters holders : List Ticket}

/-! ## Turns of requests -/

section Request

variable {id : Nat} {parcel : Parcel} {next : Option String → Plan α} {turn : Traffic.Turn}
  {t : Traffic} {j : Journal}

theorem request_answered (h : s.traffic.take turn = (t, j)) {url : Option String}
    (hdone : j.done = [(id, url)]) :
    request id parcel next turn s = ((next url).start, s.after (t, j)) := by
  simp only [request, Shared.take, h, hdone, List.lookup_cons_self]

theorem request_called (h : s.traffic.take turn = (t, j)) (hdone : j.done = [])
    (hstarted : j.started = [id]) :
    request id parcel next turn s = (.sent id parcel (some s.world.uploads.length) next,
      (s.after (t, j)).calling parcel.upload) := by
  simp only [request, Shared.take, h, hdone, hstarted, List.lookup_nil, List.mem_singleton, if_true]

theorem request_waits (h : s.traffic.take turn = (t, j)) (hdone : j.done = [])
    (hstarted : j.started = []) :
    request id parcel next turn s = (.sent id parcel none next, s.after (t, j)) := by
  simp only [request, Shared.take, h, hdone, hstarted, List.lookup_nil, List.not_mem_nil, if_false]

end Request

section Address

variable (parcel : Parcel) (next : Option String → Plan α)

theorem take_request {enabled : Bool} (h : parcel.settings.enabled = enabled) :
    s.traffic.take parcel.asking =
      s.traffic.request parcel.key parcel.settings.limit enabled := by
  subst h
  rfl

theorem begin_address :
    begin host (.pipeline uploader) (.address parcel.settings parcel.kind parcel.bytes) next s =
      (request s.asked parcel next parcel.asking s).map .ok id :=
  rfl

theorem begin_of_disabled (disabled : parcel.settings.enabled = false) :
    begin host (.pipeline uploader) (.address parcel.settings parcel.kind parcel.bytes) next s =
      (.ok (next none).start, s.after ({ s.traffic with asked := s.asked + 1 },
        [.asked (parcel.ticket s.asked) false, .answered (parcel.ticket s.asked) none])) := by
  rw [begin_address, request_answered (take_request parcel disabled) (rfl : _ = [(s.asked, none)])]
  rfl

theorem begin_of_hit (enabled : parcel.settings.enabled = true) {url : String}
    (hit : s.world.pipeline.cache.get? parcel.key = some url) :
    begin host (.pipeline uploader) (.address parcel.settings parcel.kind parcel.bytes) next s =
      (.ok (next (some url)).start, s.after ({ s.traffic with asked := s.asked + 1 },
        [.asked (parcel.ticket s.asked) true,
          .answered (parcel.ticket s.asked) (some url)])) := by
  have htake := (take_request parcel enabled).trans (Traffic.request_of_hit hit _)
  rw [begin_address, request_answered htake (rfl : _ = [(s.asked, some url)])]
  rfl

theorem begin_of_miss (enabled : parcel.settings.enabled = true)
    (miss : s.world.pipeline.cache.get? parcel.key = none) :
    begin host (.pipeline uploader) (.address parcel.settings parcel.kind parcel.bytes) next s =
      (.ok (.sent s.asked parcel none next), s.after ({ s.traffic with
          asked := s.asked + 1, pipeline := s.world.pipeline.ask (parcel.ticket s.asked) },
        [.asked (parcel.ticket s.asked) true, .queued (parcel.ticket s.asked)])) := by
  have htake := (take_request parcel enabled).trans (Traffic.request_of_miss miss _)
  rw [begin_address, request_waits htake rfl rfl]
  rfl

variable {parcel} {id : Nat} {p : Pipeline}

theorem proceed_waiting :
    proceed (.pipeline uploader) id parcel none next s =
      (request id parcel next (.poll id) s).map .ok (·) :=
  rfl

/-- Who waits is admitted if it is the first in the queue and its permits are free. It may find its
content in the cache by then. -/
theorem proceed_of_hit (hs : s.Sound) (hgrant : s.world.pipeline.grant = some (parcel.ticket id, p))
    {url : String} (hit : s.world.pipeline.cache.get? parcel.key = some url) :
    proceed (.pipeline uploader) id parcel none next s =
      (.ok (next (some url)).start,
        s.after ({ s.traffic with pipeline := p.leave (parcel.ticket id) },
          [.admitted (parcel.ticket id), .answered (parcel.ticket id) (some url)])) := by
  have hpoll : s.traffic.take (.poll id) = _ := Traffic.poll_of_grant hs.ordered hgrant
  have hcache : p.cache.get? (parcel.ticket id).key = some url := by
    obtain ⟨rest, -, -, rfl⟩ := Pipeline.grant_eq_some.1 hgrant
    exact hit
  have hproceed := Traffic.proceed_of_hit (t := { s.traffic with pipeline := p }) hcache
  rw [proceed_waiting, request_answered (hpoll.trans hproceed) (rfl : _ = [(id, some url)])]
  rfl

theorem proceed_of_miss (hs : s.Sound)
    (hgrant : s.world.pipeline.grant = some (parcel.ticket id, p))
    (miss : s.world.pipeline.cache.get? parcel.key = none) :
    proceed (.pipeline uploader) id parcel none next s =
      (.ok (.sent id parcel (some s.world.uploads.length) next),
        (s.after ({ s.traffic with pipeline := p },
          [.admitted (parcel.ticket id), .called (parcel.ticket id)])).calling parcel.upload) := by
  have hpoll : s.traffic.take (.poll id) = _ := Traffic.poll_of_grant hs.ordered hgrant
  obtain ⟨rest, hwaiting, -, hp⟩ := Pipeline.grant_eq_some.1 hgrant
  have hcache : p.cache.get? (parcel.ticket id).key = none := by rw [hp]; exact miss
  have hunknown := hs.unknown (List.mem_append_right _ (hwaiting ▸ List.mem_cons_self))
  have hproceed := Traffic.proceed_of_miss (t := { s.traffic with pipeline := p }) hcache
  rw [Traffic.conclude_of_unknown (by exact hunknown)] at hproceed
  rw [proceed_waiting, request_called (hpoll.trans hproceed) rfl (rfl : _ = [id])]
  rfl

theorem proceed_of_stuck (hs : s.Sound) (hwaits : parcel.ticket id ∈ s.traffic.waiting)
    (hgrant : ∀ p, s.world.pipeline.grant ≠ some (parcel.ticket id, p)) :
    proceed (.pipeline uploader) id parcel none next s = (.ok (.sent id parcel none next), s) := by
  have hpoll : s.traffic.take (.poll id) = _ :=
    Traffic.poll_of_not_granted hs.ordered hwaits hgrant
  have hsame : s.after (s.traffic, []) = s := by simp [Shared.after, Shared.traffic]
  rw [proceed_waiting, request_waits hpoll rfl rfl, hsame]
  rfl

theorem proceed_of_reply (hs : s.Sound) (holds : parcel.ticket id ∈ s.traffic.holding) {call : Nat}
    {url : Option String} (hreply : (uploader call parcel.upload).result = .ok url) :
    proceed (.pipeline uploader) id parcel (some call) next s =
      (.ok (next url).start, s.after
        ({ s.traffic with
            outcomes := (id, url) :: s.outcomes
            pipeline := s.world.pipeline.finish (parcel.ticket id) url },
          [.ended (parcel.ticket id) url, .answered (parcel.ticket id) url])) := by
  have ho := hs.ordered.move (.learn ((id, url) :: s.outcomes))
  have hknown : ((id, url) :: s.outcomes).lookup (parcel.ticket id).id = some url :=
    List.lookup_cons_self
  have hpoll := (Traffic.poll_of_holding ho holds).trans (Traffic.conclude_of_known hknown)
  have htake : (s.take (.event (.outcome id url))).traffic.take (.poll id) = _ := hpoll
  simp only [proceed, hreply, conclude]
  rw [Shared.take, htake]
  simp [Shared.after, Shared.take, Shared.traffic, Traffic.take, Traffic.receive]

end Address

/-- Without a pipeline every errand is done at once. -/
theorem begin_direct {β : Type} (assets : AssetSource) (errand : Errand β) (next : β → Plan α) :
    begin host (.direct assets) errand next s = atOnce (errand.inOrder host assets) next s := by
  cases errand <;> rfl

/-! ## What a turn can do -/

theorem goes_begin (parcel : Parcel) (next : Option String → Plan α) :
    let turned := begin host (.pipeline uploader)
      (.address parcel.settings parcel.kind parcel.bytes) next s
    Goes host uploader s (.await (.address parcel.settings parcel.kind parcel.bytes) next)
      turned.1 turned.2 := by
  dsimp only
  cases henabled : parcel.settings.enabled with
  | false =>
    rw [begin_of_disabled parcel next henabled]
    exact .refuse henabled
  | true =>
    cases hcache : s.world.pipeline.cache.get? parcel.key with
    | some url =>
      rw [begin_of_hit parcel next henabled hcache]
      exact .reuse henabled hcache
    | none =>
      rw [begin_of_miss parcel next henabled hcache]
      exact .join henabled hcache

theorem goes_proceed {id : Nat} (hs : s.Sound) (parcel : Parcel) (call : Option Nat)
    (next : Option String → Plan α) (ht : (sent id parcel call next).Tracked s waiters holders) :
    let turned := proceed (.pipeline uploader) id parcel call next s
    Goes host uploader s (.sent id parcel call next) turned.1 turned.2 := by
  dsimp only
  cases call with
  | none =>
    by_cases hgrant : ∃ p, s.world.pipeline.grant = some (parcel.ticket id, p)
    · obtain ⟨p, hgrant⟩ := hgrant
      cases hcache : s.world.pipeline.cache.get? parcel.key with
      | some url =>
        rw [proceed_of_hit next hs hgrant hcache]
        exact .leave hgrant hcache
      | none =>
        rw [proceed_of_miss next hs hgrant hcache]
        exact .call hgrant hcache
    · have hwaits : parcel.ticket id ∈ s.traffic.waiting := ht.waiting.subset (by simp [waiting])
      rw [proceed_of_stuck next hs hwaits (not_exists.1 hgrant)]
      exact .stay _
  | some call =>
    cases hreply : (uploader call parcel.upload).result with
    | error panic =>
      simp only [proceed, hreply]
      exact .breakOff hreply
    | ok url =>
      have holds : parcel.ticket id ∈ s.traffic.holding := ht.holding.subset (by simp [holding])
      rw [proceed_of_reply next hs holds hreply]
      exact .finish hreply

theorem value?_eq_some {a : α} (h : p.value? = some a) : p = .done a := by
  cases p with
  | done b => exact congrArg done (Option.some.inj h)
  | await | sent | both => cases h

theorem Tracked.left {β γ : Type} {left : Process β} {right : Process γ} {next : β → γ → Plan α}
    (h : (both left right next).Tracked s waiters holders) :
    left.Tracked s (right.waiting ++ waiters) (right.holding ++ holders) :=
  ⟨List.append_assoc .. ▸ h.waiting, List.append_assoc .. ▸ h.holding⟩

theorem Tracked.right {β γ : Type} {left : Process β} {right : Process γ} {next : β → γ → Plan α}
    (h : (both left right next).Tracked s waiters holders) :
    right.Tracked s (left.waiting ++ waiters) (left.holding ++ holders) :=
  ⟨(List.perm_append_comm_assoc ..).trans h.left.waiting,
    (List.perm_append_comm_assoc ..).trans h.left.holding⟩

/-- **What a turn can do.** -/
theorem goes_advance (hs : s.Sound) (ht : p.Tracked s waiters holders) (part : Part) :
    Goes host uploader s p (p.advance host (.pipeline uploader) part s).1
      (p.advance host (.pipeline uploader) part s).2 := by
  induction p generalizing part waiters holders with
  | done a =>
    rcases part with _ | ⟨_ | _, part⟩ <;> exact .stay _
  | await errand next =>
    rcases part with _ | ⟨_ | _, part⟩
    · cases errand with
      | ask | bitmap => exact .ask trivial
      | address settings kind bytes => exact goes_begin ⟨settings, kind, bytes⟩ next
    all_goals exact .stay _
  | sent id parcel call next =>
    rcases part with _ | ⟨_ | _, part⟩
    · exact goes_proceed hs parcel call next ht
    all_goals exact .stay _
  | both left right next ihleft ihright =>
    rcases part with _ | ⟨_ | _, part⟩
    · rw [advance]
      split
      · rename_i hleft hright
        rw [value?_eq_some hleft, value?_eq_some hright]
        exact .meet
      · exact .stay _
    · exact .left (ihleft ht.left part)
    · exact .right (ihright ht.right part)

/-! ## What turns keep -/

/-- An export changes nothing but the exports and the bitmaps. -/
theorem exists_export {β : Type} {errand : Errand β} (h : errand.IsExport) (host : Host)
    (assets : AssetSource) (w : World) :
    ∃ exports bitmaps, ((errand.inOrder host assets).runIn w).2 = { w with exports, bitmaps } := by
  cases errand with
  | ask request =>
    rw [Errand.inOrder, Pass.runIn_ask]
    exact ⟨_, w.bitmaps, rfl⟩
  | bitmap item withChildren =>
    rw [Errand.inOrder, Pass.runIn_bitmap]
    cases w.bitmaps.lookup (item.address, withChildren) with
    | some known => exact ⟨w.exports, w.bitmaps, rfl⟩
    | none =>
      simp only [Pass.runIn_ask]
      cases host.provide w.exports.length ⟨item.id, .png withChildren⟩ <;> exact ⟨_, _, rfl⟩
  | address => exact h.elim

theorem pipeline_export {β : Type} {errand : Errand β} (h : errand.IsExport) (host : Host)
    (assets : AssetSource) (w : World) :
    ((errand.inOrder host assets).runIn w).2.pipeline = w.pipeline := by
  obtain ⟨exports, bitmaps, hworld⟩ := exists_export h host assets w
  rw [hworld]

theorem leads_request {id : Nat} (parcel : Parcel) (next : Option String → Plan α)
    (turn : Traffic.Turn) (s : Shared) : s.Leads (request id parcel next turn s).2 := by
  have htake := Shared.Leads.take s turn
  unfold request
  dsimp only
  split
  · exact htake
  · split
    · exact htake.trans (.world rfl)
    · exact htake

/-- **The requests of a process are turns of the traffic.** -/
theorem leads_advance (p : Process α) (part : Part) (s : Shared) :
    s.Leads (p.advance host (.pipeline uploader) part s).2 := by
  induction p generalizing part with
  | done a => rcases part with _ | ⟨_ | _, part⟩ <;> exact .refl s
  | await errand next =>
    rcases part with _ | ⟨_ | _, part⟩
    · cases errand with
      | ask request =>
        have isExport : (Errand.ask request).IsExport := trivial
        exact .world (pipeline_export isExport host (Pass.address uploader) s.world)
      | bitmap item withChildren =>
        have isExport : (Errand.bitmap item withChildren).IsExport := trivial
        exact .world (pipeline_export isExport host (Pass.address uploader) s.world)
      | address settings kind bytes =>
        exact leads_request ⟨settings, kind, bytes⟩ next (Parcel.asking _) s
    all_goals exact .refl s
  | sent id parcel call next =>
    rcases part with _ | ⟨_ | _, part⟩
    · cases call with
      | none => exact leads_request parcel next (.poll id) s
      | some call =>
        simp only [advance, proceed]
        cases (uploader call parcel.upload).result with
        | ok url => exact (Shared.Leads.take ..).trans (.take ..)
        | error panic => exact .refl s
    all_goals exact .refl s
  | both left right next ihleft ihright =>
    rcases part with _ | ⟨_ | _, part⟩
    · rw [advance]
      split <;> exact .refl s
    · exact ihleft part
    · exact ihright part

theorem Goes.sound {result : Except Panic (Process α)} (h : Goes host uploader s p result s')
    (hs : s.Sound) (ht : p.Tracked s waiters holders) (hleads : s.Leads s') : s'.Sound := by
  induction h generalizing waiters holders with
  | @finish α id call parcel next url =>
    have holds : parcel.ticket id ∈ s.traffic.holding := ht.holding.subset (by simp [holding])
    refine ⟨hs.reached.trans hleads, List.forall_mem_cons.2 ⟨?_, fun known hknown => ?_⟩⟩
    · exact Traffic.Closed.finish hs.ordered holds url
    · have hclosed := (hs.closed known hknown).move (Traffic.Move.finish url holds)
      exact hclosed
  | left h ih => exact ih ht.left hleads
  | right h ih => exact ih ht.right hleads
  | _ => exact hs.leads hleads (List.Subset.refl _)

theorem sound_advance (hs : s.Sound) (ht : p.Tracked s waiters holders) (part : Part) :
    (p.advance host (.pipeline uploader) part s).2.Sound :=
  (goes_advance hs ht part).sound hs ht (leads_advance p part s)

theorem waiting_start (plan : Plan α) : plan.start.waiting = [] := by
  induction plan with
  | done | await => rfl
  | both left right next ihleft ihright => exact List.append_eq_nil_iff.2 ⟨ihleft, ihright⟩

theorem holding_start (plan : Plan α) : plan.start.holding = [] := by
  induction plan with
  | done | await => rfl
  | both left right next ihleft ihright => exact List.append_eq_nil_iff.2 ⟨ihleft, ihright⟩

theorem start_tracked {plan : Plan α} (hwaiting : waiters.Perm s.traffic.waiting)
    (hholding : holders.Perm s.traffic.holding) : plan.start.Tracked s waiters holders :=
  ⟨by rwa [waiting_start], by rwa [holding_start]⟩

/-- **The requests of a process stay open until they are answered.** -/
theorem Goes.tracked {result : Except Panic (Process α)} (h : Goes host uploader s p result s')
    (ht : p.Tracked s waiters holders) {p' : Process α} (hresult : result = .ok p') :
    p'.Tracked s' waiters holders := by
  induction h generalizing waiters holders with
  | @ask α β errand next isExport =>
    have hpipeline := pipeline_export isExport host (Pass.address uploader) s.world
    obtain ⟨b, -, rfl⟩ := exists_of_map_eq_ok hresult
    generalize ((errand.inOrder host (Pass.address uploader)).runIn s.world).2 = w at hpipeline
    have htraffic : Shared.traffic { s with world := w } = s.traffic := by
      simp only [Shared.traffic, hpipeline]
    exact start_tracked (htraffic ▸ ht.waiting) (htraffic ▸ ht.holding)
  | refuse | reuse =>
    obtain rfl := Except.ok.inj hresult
    exact start_tracked ht.waiting ht.holding
  | @join α parcel next =>
    obtain rfl := Except.ok.inj hresult
    exact ⟨(ht.waiting.cons _).trans (List.perm_append_singleton ..).symm, ht.holding⟩
  | @leave α id parcel next p url grant =>
    obtain rfl := Except.ok.inj hresult
    obtain ⟨rest, hw, -, rfl⟩ := Pipeline.grant_eq_some.1 grant
    refine start_tracked ?_ ?_
    · have hrest : (parcel.ticket id :: waiters).Perm (parcel.ticket id :: rest) :=
        ht.waiting.trans (.of_eq hw)
      exact hrest.cons_inv.trans (.of_eq (by simp [Traffic.waiting, Pipeline.leave]))
    · have herase := (List.perm_append_singleton (parcel.ticket id) s.traffic.holding).erase
        (parcel.ticket id)
      rw [List.erase_cons_head] at herase
      exact (ht.holding.trans herase.symm).trans
        (.of_eq (by simp [Traffic.holding, Pipeline.leave, Shared.traffic, Shared.after]))
  | @call α id parcel next p grant =>
    obtain rfl := Except.ok.inj hresult
    obtain ⟨rest, hw, -, rfl⟩ := Pipeline.grant_eq_some.1 grant
    have hrest : (parcel.ticket id :: waiters).Perm (parcel.ticket id :: rest) :=
      ht.waiting.trans (.of_eq hw)
    exact ⟨hrest.cons_inv, (ht.holding.cons _).trans (List.perm_append_singleton ..).symm⟩
  | @finish α id call parcel next url =>
    obtain rfl := Except.ok.inj hresult
    refine start_tracked ?_ ?_
    · exact ht.waiting.trans (.of_eq (by simp [Traffic.waiting, Shared.traffic, Shared.after]))
    · have herase := ht.holding.erase (parcel.ticket id)
      rw [show (sent id parcel (some call) next).holding ++ holders =
        parcel.ticket id :: holders from rfl, List.erase_cons_head] at herase
      exact herase.trans (.of_eq (by simp [Traffic.holding, Shared.traffic, Shared.after]))
  | breakOff => cases hresult
  | meet =>
    obtain rfl := Except.ok.inj hresult
    exact start_tracked ht.waiting ht.holding
  | stay p =>
    obtain rfl := Except.ok.inj hresult
    exact ht
  | @left α β γ left right next result s' h ih =>
    obtain ⟨left', rfl, rfl⟩ := exists_of_map_eq_ok hresult
    obtain ⟨hwaiting, hholding⟩ := ih ht.left rfl
    exact ⟨List.append_assoc .. ▸ hwaiting, List.append_assoc .. ▸ hholding⟩
  | @right α β γ left right next result s' h ih =>
    obtain ⟨right', rfl, rfl⟩ := exists_of_map_eq_ok hresult
    obtain ⟨hwaiting, hholding⟩ := ih ht.right rfl
    refine ⟨List.append_assoc .. ▸ ?_, List.append_assoc .. ▸ ?_⟩
    · exact (List.perm_append_comm_assoc ..).trans hwaiting
    · exact (List.perm_append_comm_assoc ..).trans hholding

end Process

end Artboard
