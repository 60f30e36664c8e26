import Artboard.Proofs.Conversion.Schedules

/-!
# What a step leaves behind

A step of a session goes on under some schedule, with the requests for code, preview and siblings in
flight together, and ends with a conversion, a fault or a panic. However it ends, all slots are free
again, and the cache has gained one entry for each content whose upload succeeded meanwhile
(`Interplay.step_settles`).
-/

namespace Artboard

/-- Whether a step was broken off by a panic. -/
def Session.Answer.isPanic : Session.Answer → Bool
  | .outcome (.error (.internal _)) | .address (.error _) => true
  | _ => false

namespace Shared

variable {uploader : Uploader} {s s' : Shared} {panicked panicked' : Prop}

theorem Settles.mono (h : s.Settles uploader s' panicked) (himp : panicked → panicked') :
    s.Settles uploader s' panicked' := by
  obtain ⟨j, calls, broken, fresh, haccount, hbroken, hrest⟩ := h.gained
  exact { h with
    gained := ⟨j, calls, broken, fresh, haccount, fun c hc => (hbroken c hc).imp_left himp, hrest⟩ }

theorem Sound.fresh (h : s.Sound) : s.fresh.Sound := h.congr rfl

theorem Settles.of_fresh (h : s.fresh.Settles uploader s' panicked) :
    s.Settles uploader s' panicked := by
  obtain ⟨j, calls, broken, fresh, haccount, hrest⟩ := h.gained
  have hsame : Account uploader s s' j calls broken := { haccount with }
  exact { h with gained := ⟨j, calls, broken, fresh, hsame, hrest⟩ }

theorem Settles.refl (hs : s.Sound) (hidle : s.world.pipeline.slots = {}) (panicked : Prop) :
    s.Settles uploader s panicked := by
  have hnone := openRequests_of_idle hidle
  exact settles hs hnone hnone (.refl s) nofun

end Shared

theorem Services.compile_eq_ofEnd (services : Services) (settings : Settings)
    (options : ConversionOptions) {selection : Selection} (hsome : ¬selection.isEmpty = true)
    (w : World) :
    services.compile settings options selection w =
      ((services.run settings options selection).runIn { w with bitmaps := [] }).map
        Outcome.ofEnd id := by
  rw [compile, if_neg hsome]
  rcases (services.run settings options selection).runIn { w with bitmaps := [] } with
    ⟨_ | _ | _, _⟩ <;> rfl

namespace Interplay

open Session (Step Answer)

variable {host : Host} {uploader : Uploader}

/-! ## One step -/

theorem settles_compile {s t : Shared} (hs : s.Sound) (hidle : s.world.pipeline.slots = {})
    {settings : Settings} {options : ConversionOptions} {selection : Selection}
    {schedule : Schedule} {result : Except ConversionError Outcome}
    (h : Backend.compile ⟨host, .pipeline uploader⟩ settings options selection schedule s =
      some (result, t)) :
    t.Sound ∧ s.Settles uploader t (Answer.outcome result).isPanic := by
  rw [Backend.compile] at h
  split_ifs at h
  · obtain ⟨rfl, rfl⟩ := Prod.mk.inj (Option.some.inj h)
    exact ⟨hs, .refl hs hidle _⟩
  · obtain ⟨⟨ended, t⟩, hrun, hend⟩ := Option.map_eq_some_iff.1 h
    obtain ⟨rfl, rfl⟩ := Prod.mk.inj hend
    obtain ⟨hsound, hsettles⟩ := Plan.runUnder_settles hs.fresh hidle hrun
    refine ⟨hsound, hsettles.of_fresh.mono ?_⟩
    rintro ⟨panic, rfl⟩
    rfl

theorem settles_take {s s' : Interplay} (hs : s.shared.Sound)
    (hidle : s.shared.world.pipeline.slots = {}) {schedule : Schedule} {step : Step}
    {answer : Answer} (h : s.take ⟨host, .pipeline uploader⟩ schedule step = some (answer, s')) :
    s'.shared.Sound ∧ s.shared.Settles uploader s'.shared answer.isPanic := by
  cases step with
  | compile options selection =>
    obtain ⟨⟨result, t⟩, hcompile, hend⟩ := Option.map_eq_some_iff.1 h
    obtain ⟨rfl, rfl⟩ := Prod.mk.inj hend
    exact settles_compile hs hidle hcompile
  | upload kind bytes =>
    obtain ⟨⟨result, t⟩, hrun, hend⟩ := Option.map_eq_some_iff.1 h
    obtain ⟨rfl, rfl⟩ := Prod.mk.inj hend
    obtain ⟨hsound, hsettles⟩ := Plan.runUnder_settles hs hidle hrun
    refine ⟨hsound, hsettles.mono ?_⟩
    rintro ⟨panic, rfl⟩
    rfl
  | edit | replace =>
    obtain ⟨rfl, rfl⟩ := Prod.mk.inj (Option.some.inj h)
    exact ⟨hs, .refl hs hidle _⟩

theorem exists_take {s : Interplay} (hs : s.shared.Sound)
    (hidle : s.shared.world.pipeline.slots = {}) (step : Step) (schedule : Schedule) :
    ∃ more, (s.take ⟨host, .pipeline uploader⟩ (schedule ++ more) step).isSome := by
  cases step with
  | compile options selection =>
    simp only [take, Backend.compile]
    split_ifs
    · exact ⟨[], rfl⟩
    · simp only [Option.isSome_map]
      exact Plan.exists_runUnder hs.fresh hidle _ schedule
  | upload kind bytes =>
    simp only [take, Option.isSome_map]
    exact Plan.exists_runUnder hs hidle _ schedule
  | edit | replace => exact ⟨[], rfl⟩

theorem exists_compile_inOrder (host : Host) (uploader : Uploader) {s : Shared} (hs : s.Sound)
    (hidle : s.world.pipeline.slots = {}) (settings : Settings) (options : ConversionOptions)
    (selection : Selection) :
    let sequential :=
      (Services.uploading host uploader).compile settings options selection s.world
    ∃ schedule t, Backend.compile ⟨host, .pipeline uploader⟩ settings options selection schedule s =
      some (sequential.1, t) ∧ t.world = sequential.2 := by
  by_cases hempty : selection.isEmpty = true
  · exact ⟨[], s, by simp [Backend.compile, Services.compile, hempty],
      by simp [Services.compile, hempty]⟩
  · obtain ⟨schedule, t, hrun, hworld⟩ := Plan.exists_runUnder_inOrder host uploader hs.fresh hidle
      ((Services.uploading host uploader).plan settings options selection)
    simp only [Backend.compile, if_neg hempty, Services.compile_eq_ofEnd _ _ _ hempty]
    exact ⟨schedule, t, congrArg (Option.map _) hrun, hworld⟩

/-- The steps of a `Session` are steps under some schedule. -/
theorem exists_take_inOrder {s : Interplay} (hs : s.shared.Sound)
    (hidle : s.shared.world.pipeline.slots = {}) (step : Step) :
    let sequential := Session.take (.uploading host uploader) ⟨s.settings, s.shared.world⟩ step
    ∃ schedule s', s.take ⟨host, .pipeline uploader⟩ schedule step = some (sequential.1, s') ∧
      s'.settings = sequential.2.settings ∧ s'.shared.world = sequential.2.world := by
  intro sequential
  cases step with
  | compile options selection =>
    obtain ⟨schedule, t, hcompile, hworld⟩ :=
      exists_compile_inOrder host uploader hs hidle s.settings options selection
    exact ⟨schedule, ⟨s.settings, t⟩, by rw [take, hcompile]; rfl, rfl, hworld⟩
  | upload kind bytes =>
    obtain ⟨schedule, t, hrun, hworld⟩ := Plan.exists_runUnder_inOrder host uploader hs hidle
      (.errand (.address s.settings.uploads kind bytes))
    rw [Plan.inOrder_errand] at hrun hworld
    exact ⟨schedule, ⟨s.settings, t⟩, by rw [take, hrun]; rfl, rfl, hworld⟩
  | edit | replace => exact ⟨[], _, rfl, rfl, rfl⟩

/-! ## Sessions -/

theorem sound_run {s s' : Interplay} (hs : s.shared.Sound)
    (hidle : s.shared.world.pipeline.slots = {}) {timed : List (Step × Schedule)}
    {answers : List Answer}
    (h : s.run ⟨host, .pipeline uploader⟩ timed = some (answers, s')) :
    s'.shared.Sound ∧ s'.shared.world.pipeline.slots = {} := by
  induction timed generalizing s answers with
  | nil =>
    obtain ⟨-, rfl⟩ := Prod.mk.inj (Option.some.inj h)
    exact ⟨hs, hidle⟩
  | cons first rest ih =>
    obtain ⟨step, schedule⟩ := first
    rw [run] at h
    cases htake : s.take ⟨host, .pipeline uploader⟩ schedule step with
    | none =>
      rw [htake] at h
      cases h
    | some taken =>
      obtain ⟨answer, t⟩ := taken
      rw [htake] at h
      obtain ⟨⟨others, u⟩, hrest, hend⟩ := Option.map_eq_some_iff.1 h
      obtain ⟨-, rfl⟩ := Prod.mk.inj hend
      obtain ⟨hsound, hsettles⟩ := settles_take hs hidle htake
      exact ih hsound hsettles.slots_eq hrest

/-- **Every step gives its slots back and keeps its uploads.** Take a session whose steps so far
have ended, in which exports and uploads fail or panic as they like, and any further step, whose
parts take their turns in any order. Whatever it ends with, afterwards nothing is in flight, every
permit is free and nobody holds a slot or waits. The cache is the one before, followed by one entry
for each content with a call of the uploader that has succeeded during the step; only a panic breaks
calls off.

Every schedule can be continued until the step ends. One part after the other, as in a `Session`, is
one of the schedules. -/
theorem step_settles (host : Host) (uploader : Uploader) (settings : Settings)
    (before : List (Step × Schedule)) (answers : List Answer) (s : Interplay)
    (hbefore : run ⟨host, .pipeline uploader⟩ { settings } before = some (answers, s))
    (step : Step) :
    (∀ schedule answer s', s.take ⟨host, .pipeline uploader⟩ schedule step = some (answer, s') →
        s.shared.Settles uploader s'.shared answer.isPanic) ∧
      (∀ schedule, ∃ more,
        (s.take ⟨host, .pipeline uploader⟩ (schedule ++ more) step).isSome) ∧
      let sequential := Session.take (.uploading host uploader) ⟨s.settings, s.shared.world⟩ step
      ∃ schedule s', s.take ⟨host, .pipeline uploader⟩ schedule step = some (sequential.1, s') ∧
        s'.settings = sequential.2.settings ∧ s'.shared.world = sequential.2.world := by
  obtain ⟨hs, hidle⟩ := sound_run Shared.Sound.init rfl hbefore
  exact ⟨fun _ _ _ htake => (settles_take hs hidle htake).2, exists_take hs hidle step,
    exists_take_inOrder hs hidle step⟩

/-- A card is broken off by the panic of its sibling, while the upload of the photo in it is under
way; what was uploaded before stays. -/
theorem step_settles_card_and_poster :
    let photo : Scene := .node
      { id := "photo", name := "Photo", type := "RECTANGLE", width := 40, height := 40,
        fills := [.image {}] } []
    let card : Scene := .node
      { id := "card", name := "Card", type := "FRAME", width := 100, height := 50 } [photo]
    let poster : Scene := .node
      { id := "poster", name := "Poster", type := "FRAME", width := 60, height := 90,
        fills := [.image {}] } []
    let host : Host := ⟨fun _ => none, fun _ request =>
      if request.id = "photo" then .done [1, 2] else .panicked request.id⟩
    let uploader : Uploader := fun number _ => .done s!"https://assets.test/{number}"
    let backend : Backend := ⟨host, .pipeline uploader⟩
    let settings : Settings := { uploads := { enabled := true } }
    let before : List (Step × Schedule) := [(.upload .png [3], [[], [], []])]
    let photoPart : Part := [.left, .left, .left]
    let schedule : Schedule :=
      [[.left], [.right], [], photoPart, photoPart, photoPart, [.left, .right, .left]]
    ∃ answers s answer s', run backend { settings } before = some (answers, s) ∧
      s.take backend schedule (.compile {} [card, poster]) = some (answer, s') ∧
      answer.isPanic = true ∧ s'.shared.world.uploads.length = 2 ∧
      s'.shared.world.pipeline.cache.length = 1 ∧
      s.shared.Settles uploader s'.shared answer.isPanic := by
  intro photo card poster host uploader backend settings before photoPart schedule
  let step : Step := .compile {} [card, poster]
  let counts (taken : Answer × Interplay) : Bool × Nat × Nat :=
    (taken.1.isPanic, taken.2.shared.world.uploads.length,
      taken.2.shared.world.pipeline.cache.length)
  have hends : ((run backend { settings } before).bind fun begun =>
      (begun.2.take backend schedule step).map counts) = some (true, 2, 1) := by decide +kernel
  obtain ⟨⟨answers, s⟩, hbefore, hstep⟩ := Option.bind_eq_some_iff.1 hends
  obtain ⟨⟨answer, s'⟩, htake, hcounts⟩ := Option.map_eq_some_iff.1 hstep
  obtain ⟨hpanic, hrest⟩ := Prod.mk.inj hcounts
  obtain ⟨huploads, hcache⟩ := Prod.mk.inj hrest
  exact ⟨answers, s, answer, s', hbefore, htake, hpanic, huploads, hcache,
    (step_settles host uploader settings before answers s hbefore step).1 schedule answer s' htake⟩

end Interplay

end Artboard
