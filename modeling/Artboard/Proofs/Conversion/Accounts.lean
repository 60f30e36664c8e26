import Artboard.Conversion.Interplay
import Artboard.Proofs.Conversion.Processes

/-!
# The account of a process

All calls of the uploader since some moment are known (`Account`): each ended as the uploader
replied, or is still open. A turn opens a call, closes one or does neither (`Goes.booked`).

When a process ends, no call is open; when it panics, the open ones are dropped with their requests
(`runUnder_settles`). Either way all slots are free, and the cache has gained one entry for each
content that one of the calls succeeded for.
-/

namespace Artboard

/-! ## Calls -/

namespace Journal

/-- The requests that the uploader was called for, in order. -/
def called (j : Journal) : List Ticket :=
  j.filterMap fun
    | .called r => some r
    | _ => none

@[simp] theorem called_append (j j' : Journal) : called (j ++ j') = called j ++ called j' :=
  List.filterMap_append ..

end Journal

/-- A call of the uploader, numbered from the first one on, and the request it is for. -/
structure UploadCall where
  number : Nat
  ticket : Ticket
  upload : UploadRequest

namespace UploadCall

/-- What the uploader replies. -/
def result (c : UploadCall) (uploader : Uploader) : Except Panic (Option String) :=
  (uploader c.number c.upload).result

/-- The call is for the content of its request. -/
structure Fits (c : UploadCall) : Prop where
  key : c.upload.key = c.ticket.key
  hash : c.upload.key = (ContentHash.of c.upload.bytes).key

end UploadCall

/-- What happened between two states: `j` is what the requests did, `calls` are the calls of the
uploader, and `pending` those that have not ended. -/
structure Account (uploader : Uploader) (s s' : Shared) (j : Journal)
    (calls pending : List UploadCall) : Prop where
  turns : ∃ turns, s.traffic.run turns = (s'.traffic, j)
  journal : s'.journal = s.journal ++ j
  uploads : s'.world.uploads = s.world.uploads ++ calls.map (·.upload)
  numbers : calls.map (·.number) = List.range' s.world.uploads.length calls.length
  called : j.called = calls.map (·.ticket)
  fits : ∀ c ∈ calls, c.Fits
  ended : ∀ r url, .ended r url ∈ j → ∃ c ∈ calls, c.ticket = r ∧ c.result uploader = .ok url
  known : pending ⊆ calls
  closed : ∀ c ∈ calls, c ∈ pending ∨ ∃ url, .ended c.ticket url ∈ j ∧ c.result uploader = .ok url

namespace Process

variable {α : Type} {host : Host} {uploader : Uploader} {s s' : Shared} {p p' : Process α}

/-- The calls that have not ended. -/
def calls {α : Type} : Process α → List UploadCall
  | .sent id parcel (some call) _ => [⟨call, parcel.ticket id, parcel.upload⟩]
  | .both left right _ => left.calls ++ right.calls
  | _ => []

theorem calls_start (plan : Plan α) : plan.start.calls = [] := by
  induction plan with
  | done | await => rfl
  | both left right next ihleft ihright => exact List.append_eq_nil_iff.2 ⟨ihleft, ihright⟩

theorem map_ticket_calls (p : Process α) : p.calls.map (·.ticket) = p.holding := by
  induction p with
  | done | await => rfl
  | sent id parcel call => cases call <;> rfl
  | both left right next ihleft ihright =>
    rw [calls, holding, List.map_append, ihleft, ihright]

/-! ## What a turn does to the calls -/

/-- The calls before a turn and after it. -/
inductive Booked (uploader : Uploader) (s s' : Shared) (before after : List UploadCall) : Prop
  | same (j : Journal) (journal : s'.journal = s.journal ++ j)
      (uploads : s'.world.uploads = s.world.uploads) (called : j.called = [])
      (ended : ∀ r url, .ended r url ∉ j) (calls : after.Perm before)
  | opens (c : UploadCall) (j : Journal) (journal : s'.journal = s.journal ++ j)
      (number : c.number = s.world.uploads.length)
      (uploads : s'.world.uploads = s.world.uploads ++ [c.upload]) (fits : c.Fits)
      (called : j.called = [c.ticket]) (ended : ∀ r url, .ended r url ∉ j)
      (calls : after.Perm (c :: before))
  | closes (c : UploadCall) (url : Option String) (j : Journal)
      (journal : s'.journal = s.journal ++ j) (uploads : s'.world.uploads = s.world.uploads)
      (result : c.result uploader = .ok url) (called : j.called = [])
      (ended : ∀ r url', .ended r url' ∈ j ↔ r = c.ticket ∧ url' = url)
      (calls : before.Perm (c :: after))

namespace Booked

variable {before after : List UploadCall}

theorem append (h : Booked uploader s s' before after) (others : List UploadCall) :
    Booked uploader s s' (before ++ others) (after ++ others) := by
  cases h with
  | same j journal uploads called ended calls =>
    exact .same j journal uploads called ended (calls.append_right others)
  | opens c j journal number uploads fits called ended calls =>
    exact .opens c j journal number uploads fits called ended (calls.append_right others)
  | closes c url j journal uploads result called ended calls =>
    exact .closes c url j journal uploads result called ended (calls.append_right others)

theorem perm (h : Booked uploader s s' before after) {before' after' : List UploadCall}
    (hbefore : before'.Perm before) (hafter : after'.Perm after) :
    Booked uploader s s' before' after' := by
  cases h with
  | same j journal uploads called ended calls =>
    exact .same j journal uploads called ended (hafter.trans (calls.trans hbefore.symm))
  | opens c j journal number uploads fits called ended calls =>
    exact .opens c j journal number uploads fits called ended
      (hafter.trans (calls.trans (hbefore.symm.cons c)))
  | closes c url j journal uploads result called ended calls =>
    exact .closes c url j journal uploads result called ended
      (hbefore.trans (calls.trans (hafter.symm.cons c)))

end Booked

theorem Goes.booked {result : Except Panic (Process α)} (h : Goes host uploader s p result s')
    (hresult : result = .ok p') : Booked uploader s s' p.calls p'.calls := by
  have hstart {β : Type} (plan : Plan β) : plan.start.calls.Perm [] := .of_eq (calls_start plan)
  induction h with
  | @ask α β errand next isExport =>
    obtain ⟨exports, bitmaps, hworld⟩ := exists_export isExport host (Pass.address uploader) s.world
    obtain ⟨b, -, rfl⟩ := exists_of_map_eq_ok hresult
    rw [hworld]
    exact .same [] (List.append_nil _).symm rfl rfl (by simp) (hstart _)
  | refuse | reuse | join =>
    obtain rfl := Except.ok.inj hresult
    exact .same _ rfl rfl rfl (by simp) (by first | exact hstart _ | exact .refl _)
  | leave =>
    obtain rfl := Except.ok.inj hresult
    exact .same _ rfl rfl rfl (by simp) (hstart _)
  | @call α id parcel next p =>
    obtain rfl := Except.ok.inj hresult
    exact .opens ⟨s.world.uploads.length, parcel.ticket id, parcel.upload⟩ _ rfl rfl rfl
      ⟨rfl, rfl⟩ rfl (by simp) (.refl _)
  | @finish α id call parcel next url reply =>
    obtain rfl := Except.ok.inj hresult
    refine .closes ⟨call, parcel.ticket id, parcel.upload⟩ url _ rfl rfl reply rfl (by simp) ?_
    exact (hstart _).symm.cons _
  | breakOff => cases hresult
  | meet =>
    obtain rfl := Except.ok.inj hresult
    exact .same [] (List.append_nil _).symm rfl rfl (by simp) (hstart _)
  | stay p =>
    obtain rfl := Except.ok.inj hresult
    exact .same [] (List.append_nil _).symm rfl rfl (by simp) (.refl _)
  | @left α β γ left right next result s' h ih =>
    obtain ⟨left', rfl, rfl⟩ := exists_of_map_eq_ok hresult
    exact (ih rfl).append right.calls
  | @right α β γ left right next result s' h ih =>
    obtain ⟨right', rfl, rfl⟩ := exists_of_map_eq_ok hresult
    exact ((ih rfl).append left.calls).perm List.perm_append_comm List.perm_append_comm

end Process

open Process (Booked)

/-! ## Keeping the account -/

namespace Account

variable {uploader : Uploader} {start s s' : Shared} {j : Journal}
  {calls pending after : List UploadCall}

theorem refl (s : Shared) : Account uploader s s [] [] [] where
  turns := ⟨[], rfl⟩
  journal := (List.append_nil _).symm
  uploads := (List.append_nil _).symm
  numbers := rfl
  called := rfl
  fits := nofun
  ended := nofun
  known := List.Subset.refl _
  closed := nofun

theorem turns_next (h : Account uploader start s j calls pending) (hleads : s.Leads s')
    {j' : Journal} (hj : s'.journal = s.journal ++ j') :
    ∃ turns, start.traffic.run turns = (s'.traffic, j ++ j') := by
  obtain ⟨turns, hturns⟩ := h.turns
  obtain ⟨more, htraffic, hjournal⟩ := hleads
  obtain rfl : j' = (s.traffic.run more).2 := List.append_cancel_left (hj.symm.trans hjournal)
  refine ⟨turns ++ more, ?_⟩
  rw [Traffic.run_append_eq, hturns, htraffic]

/-- A call of the journal so far stays closed. -/
theorem closed_append (h : Account uploader start s j calls pending) (j' : Journal)
    (hkept : ∀ c ∈ pending, c ∈ after ∨
      ∃ url, .ended c.ticket url ∈ j' ∧ c.result uploader = .ok url) :
    ∀ c ∈ calls, c ∈ after ∨
      ∃ url, .ended c.ticket url ∈ j ++ j' ∧ c.result uploader = .ok url := by
  intro c hc
  rcases h.closed c hc with hpending | ⟨url, hended, hresult⟩
  · refine (hkept c hpending).imp_right ?_
    rintro ⟨url, hended, hresult⟩
    exact ⟨url, List.mem_append_right _ hended, hresult⟩
  · exact .inr ⟨url, List.mem_append_left _ hended, hresult⟩

/-- **The account goes on turn by turn.** -/
theorem next (h : Account uploader start s j calls pending) (hleads : s.Leads s')
    (hb : Booked uploader s s' pending after) :
    ∃ j calls, Account uploader start s' j calls after := by
  cases hb with
  | same j' journal uploads called ended hperm =>
    refine ⟨j ++ j', calls, ?_⟩
    exact {
      turns := h.turns_next hleads journal
      journal := by rw [journal, h.journal, List.append_assoc]
      uploads := uploads.trans h.uploads
      numbers := h.numbers
      called := by rw [Journal.called_append, called, List.append_nil, h.called]
      fits := h.fits
      ended := fun r url hr => h.ended r url ((List.mem_append.1 hr).resolve_right (ended r url))
      known := List.Subset.trans hperm.subset h.known
      closed := h.closed_append j' fun c hc => .inl (hperm.mem_iff.2 hc) }
  | opens c j' journal number uploads fits called ended hperm =>
    refine ⟨j ++ j', calls ++ [c], ?_⟩
    have hnumber : c.number = start.world.uploads.length + calls.length := by
      rw [number, h.uploads, List.length_append, List.length_map]
    have hkept : ∀ d ∈ pending, d ∈ after := fun d hd =>
      hperm.mem_iff.2 (List.mem_cons_of_mem c hd)
    have hclosed := h.closed_append j' fun d hd => .inl (hkept d hd)
    exact {
      turns := h.turns_next hleads journal
      journal := by rw [journal, h.journal, List.append_assoc]
      uploads := by simp [uploads, h.uploads]
      numbers := by
        rw [List.map_append, h.numbers, List.length_append, List.length_singleton,
          List.range'_1_concat, List.map_singleton, hnumber]
      called := by rw [Journal.called_append, called, h.called, List.map_append, List.map_singleton]
      fits := List.forall_mem_append.2 ⟨h.fits, List.forall_mem_singleton.2 fits⟩
      ended := fun r url hr => by
        obtain ⟨d, hd, hreply⟩ := h.ended r url ((List.mem_append.1 hr).resolve_right (ended r url))
        exact ⟨d, List.mem_append_left _ hd, hreply⟩
      known := fun d hd => by
        rcases List.mem_cons.1 (hperm.subset hd) with rfl | hd
        · exact List.mem_append_right _ (List.mem_singleton_self d)
        · exact List.mem_append_left _ (h.known hd)
      closed := List.forall_mem_append.2
        ⟨hclosed, List.forall_mem_singleton.2 (.inl (hperm.mem_iff.2 List.mem_cons_self))⟩ }
  | closes c url j' journal uploads result called ended hperm =>
    refine ⟨j ++ j', calls, ?_⟩
    have hended : .ended c.ticket url ∈ j' := (ended c.ticket url).2 ⟨rfl, rfl⟩
    exact {
      turns := h.turns_next hleads journal
      journal := by rw [journal, h.journal, List.append_assoc]
      uploads := uploads.trans h.uploads
      numbers := h.numbers
      called := by rw [Journal.called_append, called, List.append_nil, h.called]
      fits := h.fits
      ended := fun r url' hr => by
        rcases List.mem_append.1 hr with hr | hr
        · exact h.ended r url' hr
        · obtain ⟨rfl, rfl⟩ := (ended r url').1 hr
          exact ⟨c, h.known (hperm.mem_iff.2 List.mem_cons_self), rfl, result⟩
      known := fun d hd => h.known (hperm.mem_iff.2 (List.mem_cons_of_mem c hd))
      closed := h.closed_append j' fun d hd => by
        rcases List.mem_cons.1 (hperm.subset hd) with rfl | hd
        · exact .inr ⟨url, hended, result⟩
        · exact .inl hd }

/-- The contents with a success are those that a call succeeded for. -/
theorem mem_successes (h : Account uploader start s j calls pending)
    (key : String) : key ∈ j.successes.map Prod.fst ↔
      ∃ c ∈ calls, c.upload.key = key ∧ ∃ url, .ended c.ticket (some url) ∈ j := by
  constructor
  · intro hkey
    obtain ⟨⟨_, url⟩, hsuccess, rfl⟩ := List.mem_map.1 hkey
    obtain ⟨r, hended, rfl⟩ := Journal.mem_successes.1 hsuccess
    obtain ⟨c, hc, rfl, -⟩ := h.ended r _ hended
    exact ⟨c, hc, (h.fits c hc).key, url, hended⟩
  · rintro ⟨c, hc, rfl, url, hended⟩
    have hsuccess := Journal.mem_successes.2 ⟨c.ticket, hended, rfl⟩
    exact List.mem_map.2 ⟨_, hsuccess, (h.fits c hc).key.symm⟩

end Account

/-! ## Processes under way -/

namespace Process

variable {α : Type} {host : Host} {uploader : Uploader} {start s s' : Shared} {p p' : Process α}

/-- A process that goes on since some moment, and to which all open requests belong. -/
structure Underway (uploader : Uploader) (start : Shared) (p : Process α) (s : Shared) : Prop where
  sound : s.Sound
  tracked : p.Tracked s [] []
  account : ∃ j calls, Account uploader start s j calls p.calls

theorem underway_start (uploader : Uploader) (hs : s.Sound)
    (hidle : s.world.pipeline.slots = {}) (plan : Plan α) :
    plan.start.Underway uploader s s where
  sound := hs
  tracked := start_tracked (.of_eq (congrArg Slots.waiting hidle).symm)
    (.of_eq (congrArg Slots.holding hidle).symm)
  account := ⟨[], [], by rw [calls_start]; exact .refl s⟩

/-- A panic comes before anything else happens to the requests. -/
theorem Goes.panicked {result : Except Panic (Process α)} (h : Goes host uploader s p result s')
    {panic : Panic} (hresult : result = .error panic) :
    ∃ exports bitmaps, s' = { s with world := { s.world with exports, bitmaps } } := by
  induction h generalizing panic with
  | @ask α β errand next isExport =>
    obtain ⟨exports, bitmaps, hworld⟩ := exists_export isExport host (Pass.address uploader) s.world
    exact ⟨exports, bitmaps, by rw [hworld]⟩
  | breakOff => exact ⟨s.world.exports, s.world.bitmaps, rfl⟩
  | @left α β γ left right next result s' h ih | @right α β γ left right next result s' h ih =>
    cases result with
    | error panic => exact ih rfl
    | ok part => cases hresult
  | _ => cases hresult

namespace Underway

theorem advance (h : p.Underway uploader start s) (part : Part)
    (hp : p.advance host (.pipeline uploader) part s = (.ok p', s')) :
    p'.Underway uploader start s' := by
  have hgoes : Goes host uploader s p _ _ := goes_advance h.sound h.tracked part
  have hsound : (p.advance host (.pipeline uploader) part s).2.Sound :=
    sound_advance h.sound h.tracked part
  have hleads : s.Leads (p.advance host (.pipeline uploader) part s).2 := leads_advance p part s
  rw [hp] at hgoes hsound hleads
  obtain ⟨j, calls, haccount⟩ := h.account
  exact ⟨hsound, hgoes.tracked h.tracked rfl, haccount.next hleads (hgoes.booked rfl)⟩

theorem panicked (h : p.Underway uploader start s) (part : Part) {panic : Panic}
    (hp : p.advance host (.pipeline uploader) part s = (.error panic, s')) :
    p.Underway uploader start s' := by
  have hgoes : Goes host uploader s p _ _ := goes_advance h.sound h.tracked part
  rw [hp] at hgoes
  obtain ⟨exports, bitmaps, rfl⟩ := hgoes.panicked rfl
  obtain ⟨j, calls, haccount⟩ := h.account
  refine ⟨h.sound.congr rfl, ⟨h.tracked.waiting, h.tracked.holding⟩, haccount.next (.world rfl) ?_⟩
  exact .same [] (List.append_nil _).symm rfl rfl nofun (.refl _)

/-- **Whatever the turns, the requests stay those of the process,** also when it panics. -/
theorem run (h : p.Underway uploader start s) (schedule : Schedule)
    {result : Except Panic (Process α)}
    (hp : p.run host (.pipeline uploader) schedule s = (result, s')) :
    ∃ q : Process α, q.Underway uploader start s' ∧ ∀ p', result = .ok p' → p' = q := by
  induction schedule generalizing p s with
  | nil =>
    obtain ⟨rfl, rfl⟩ := Prod.mk.inj hp
    exact ⟨p, h, fun p' hp' => (Except.ok.inj hp').symm⟩
  | cons part rest ih =>
    rw [Process.run] at hp
    rcases hadvance : p.advance host (.pipeline uploader) part s with ⟨panic | q, t⟩
    · rw [hadvance] at hp
      obtain ⟨rfl, rfl⟩ := Prod.mk.inj hp
      exact ⟨p, h.panicked part hadvance, nofun⟩
    · rw [hadvance] at hp
      exact ih (h.advance part hadvance) hp

end Underway

end Process

/-! ## Ends -/

/-- However it ended, what happened between two states has given all slots back. The cache has
gained one entry for each content that a call succeeded for, with the address of the last one. Calls
that have not ended were broken off by a panic, and their requests were dropped. -/
structure Shared.Settles (uploader : Uploader) (s s' : Shared) (panicked : Prop) : Prop where
  inFlight : s'.world.pipeline.slots.inFlight = 0
  free : s'.world.pipeline.slots.free = permits
  holding : s'.world.pipeline.slots.holding = []
  waiting : s'.world.pipeline.slots.waiting = []
  gained : ∃ (j : Journal) (calls broken : List UploadCall) (fresh : Cache),
    Account uploader s s' j calls broken ∧
      (∀ c ∈ broken, panicked ∧ .dropped c.ticket ∈ j) ∧
      s'.world.pipeline.cache = s.world.pipeline.cache ++ fresh ∧
      s'.world.pipeline.cache.keys.Nodup ∧
      (∀ key, fresh.get? key = j.successes.reverse.lookup key) ∧
      ∀ key, key ∈ fresh.keys ↔
        ∃ c ∈ calls, c.upload.key = key ∧ ∃ url, .ended c.ticket (some url) ∈ j

namespace Shared

variable {uploader : Uploader} {s s' : Shared} {j : Journal} {calls broken : List UploadCall}
  {panicked : Prop}

theorem Sound.nodup (h : s.Sound) : s.world.pipeline.cache.keys.Nodup := by
  obtain ⟨turns, htraffic, -⟩ := h.reached
  have hfiled := (Traffic.filed_run turns).recorded.nodup
  show s.traffic.pipeline.cache.keys.Nodup
  rw [htraffic]
  exact hfiled

theorem openRequests_of_idle (hidle : s.world.pipeline.slots = {}) :
    s.traffic.openRequests = [] := by
  rw [Traffic.openRequests, traffic, hidle]
  rfl

theorem settles (hs : s'.Sound) (hstart : s.traffic.openRequests = [])
    (hend : s'.traffic.openRequests = []) (h : Account uploader s s' j calls broken)
    (hbroken : ∀ c ∈ broken, panicked ∧ .dropped c.ticket ∈ j) :
    s.Settles uploader s' panicked := by
  have hslots : s'.world.pipeline.slots = {} := Traffic.slots_of_openRequests hs.balanced hend
  obtain ⟨turns, hturns⟩ := h.turns
  have hgrown := Traffic.Grown.run hstart turns
  rw [hturns] at hgrown
  obtain ⟨fresh, hcache, hfresh⟩ := hgrown.gained
  have hkeys (key : String) := (Cache.mem_keys_of_last hfresh).trans (h.mem_successes key)
  refine ⟨?_, ?_, ?_, ?_, j, calls, broken, fresh, h, hbroken, hcache, hs.nodup, hfresh, hkeys⟩ <;>
    rw [hslots]

theorem Settles.slots_eq (h : s.Settles uploader s' panicked) :
    s'.world.pipeline.slots = {} := by
  obtain ⟨hflight, hfree, hholding, hwaiting, -⟩ := h
  generalize s'.world.pipeline.slots = slots at *
  obtain ⟨free, inFlight, waiting, holding⟩ := slots
  cases hflight; cases hfree; cases hholding; cases hwaiting
  rfl

end Shared

theorem Shared.abandon_eq (s : Shared) :
    s.abandon = s.after
      (s.traffic.run (Traffic.cancels (s.traffic.openRequests.map Ticket.id))) := by
  rw [Traffic.cancels, List.map_map]
  rfl

/-- **A panic leaves all slots free, and the cache as it was.** -/
theorem Shared.Sound.abandon_world {s : Shared} (hs : s.Sound) :
    s.abandon.world = { s.world with pipeline := ⟨s.world.pipeline.cache, {}⟩ } := by
  have hopen := Traffic.openRequests_cancel_all hs.ordered
  have hslots := Traffic.slots_of_openRequests hs.abandon.balanced (s.abandon_eq ▸ hopen)
  have hmoves := Traffic.moves_run s.traffic
    (Traffic.cancels (s.traffic.openRequests.map Ticket.id))
  have hcache := hmoves.cache_eq (Traffic.successes_run_cancels _ _)
  rw [← hslots, ← show _ = s.world.pipeline.cache from hcache, abandon_eq]
  rfl

theorem Shared.Sound.abandon_of_idle {s : Shared} (hs : s.Sound)
    (hidle : s.world.pipeline.slots = {}) : s.abandon.world = s.world := by
  rw [hs.abandon_world, ← hidle]

section Ends

variable {α : Type} {host : Host} {uploader : Uploader} {start s s' : Shared}

namespace Process.Underway

/-- Of a plan of which nothing is done yet no request is open. -/
theorem openRequests_of_start {plan : Plan α} (h : plan.start.Underway uploader start s) :
    s.traffic.openRequests = [] := by
  obtain ⟨hwaiting, hholding⟩ := h.tracked
  rw [waiting_start] at hwaiting
  rw [holding_start] at hholding
  exact List.append_eq_nil_iff.2 ⟨List.nil_perm.1 hholding, List.nil_perm.1 hwaiting⟩

theorem slots_of_start {plan : Plan α} (h : plan.start.Underway uploader start s) :
    s.world.pipeline.slots = {} :=
  Traffic.slots_of_openRequests h.sound.balanced h.openRequests_of_start

/-- A panic drops the requests whose calls have not ended. -/
theorem abandon {p : Process α} (h : p.Underway uploader start s) :
    s.abandon.Sound ∧ s.abandon.traffic.openRequests = [] ∧
      ∃ j calls, Account uploader start s.abandon j calls p.calls ∧
        ∀ c ∈ p.calls, .dropped c.ticket ∈ j := by
  have hopen := Traffic.openRequests_cancel_all h.sound.ordered
  have hends := Traffic.run_cancels_dropped s.traffic (s.traffic.openRequests.map Ticket.id)
  obtain ⟨j, calls, haccount⟩ := h.account
  refine ⟨h.sound.abandon, ?_, ?_⟩ <;> rw [Shared.abandon_eq]
  · exact hopen
  · generalize hpassed : s.traffic.run _ = passed at hopen hends
    have hsame : Process.Booked uploader s (s.after passed) p.calls p.calls := by
      refine .same passed.2 rfl rfl ?_ ?_ (.refl _)
      · refine List.filterMap_eq_nil_iff.2 fun e he => ?_
        obtain ⟨r, rfl⟩ := hends e he
        rfl
      · intro r url he
        obtain ⟨_, hr⟩ := hends _ he
        cases hr
    obtain ⟨j', calls', hafter⟩ := haccount.next (hpassed ▸ .after s _) hsame
    refine ⟨j', calls', hafter, fun c hc => ?_⟩
    have hj : j' = j ++ passed.2 := by
      have hjournal : start.journal ++ j' = start.journal ++ (j ++ passed.2) := by
        rw [← hafter.journal, ← List.append_assoc, ← haccount.journal]
        rfl
      exact List.append_cancel_left hjournal
    have holds : c.ticket ∈ s.traffic.holding :=
      h.tracked.holding.subset (by simpa [← map_ticket_calls] using ⟨c, hc, rfl⟩)
    rw [hj, ← hpassed]
    exact List.mem_append_right _ (Traffic.dropped_cancel_all h.sound.ordered holds)

end Process.Underway

/-- **A plan under a schedule gives its slots back and keeps its uploads,** however it ends. -/
theorem Plan.runUnder_settles (hs : s.Sound) (hidle : s.world.pipeline.slots = {}) {plan : Plan α}
    {schedule : Schedule} {result : Except Panic α}
    (h : plan.runUnder host (.pipeline uploader) schedule s = some (result, s')) :
    s'.Sound ∧ s.Settles uploader s' (∃ panic, result = .error panic) := by
  have hstart := Process.underway_start uploader hs hidle plan
  rw [runUnder] at h
  rcases hrun : plan.start.run host (.pipeline uploader) schedule s with ⟨panic | p, t⟩
  all_goals
    obtain ⟨q, hq, hfits⟩ := hstart.run schedule hrun
    rw [hrun] at h
  · obtain ⟨rfl, rfl⟩ := Prod.mk.inj (Option.some.inj h)
    obtain ⟨hsound, hopen, j, calls, haccount, hdropped⟩ := hq.abandon
    have hstopped := Shared.openRequests_of_idle hidle
    refine ⟨hsound, Shared.settles hsound hstopped hopen haccount fun c hc => ?_⟩
    exact ⟨⟨panic, rfl⟩, hdropped c hc⟩
  · obtain rfl := hfits p rfl
    cases p with
    | done a =>
      obtain ⟨rfl, rfl⟩ := Prod.mk.inj (Option.some.inj h)
      obtain ⟨j, calls, haccount⟩ := hq.account
      have hdone : (Plan.done a).start.Underway uploader s t := hq
      have hopen := hdone.openRequests_of_start
      have hstopped := Shared.openRequests_of_idle hidle
      exact ⟨hq.sound, Shared.settles hq.sound hstopped hopen haccount nofun⟩
    | await | sent | both => cases h

end Ends

end Artboard
