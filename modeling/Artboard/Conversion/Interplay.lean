import Artboard.Conversion.Process
import Artboard.Conversion.Session

/-!
# Conversions under a schedule

A conversion or an upload is a process whose turns come in the order of a schedule. A session takes
one step after the other, each under a schedule of its own, as `Session` does with the parts of a
step one after the other.
-/

namespace Artboard

/-- A design tool and a supply of addresses. -/
structure Backend where
  host : Host
  supply : Supply

namespace Backend

/-- The services between whose effects nothing comes. -/
def inOrder (backend : Backend) : Services := ⟨backend.host, backend.supply.inOrder⟩

end Backend

/-- What comes of a conversion that ended. -/
def Outcome.ofEnd : Except Panic (Except NormalizeError Conversion) →
    Except ConversionError Outcome
  | .error panic => .error (.internal panic.message)
  | .ok (.error error) => .error (.normalize error)
  | .ok (.ok conversion) => .ok (.converted conversion)

/-- The conversion of a selection under a schedule, and the state afterwards; nothing if the
schedule is over before. -/
def Backend.compile (backend : Backend) (settings : Settings) (options : ConversionOptions)
    (selection : Selection) (schedule : Schedule) (s : Shared) :
    Option (Except ConversionError Outcome × Shared) :=
  if selection.isEmpty then some (.ok .emptySelection, s)
  else
    let plan := backend.inOrder.plan settings options selection
    (plan.runUnder backend.host backend.supply schedule s.fresh).map fun (result, s) =>
      (Outcome.ofEnd result, s)

/-- A session whose steps have parts side by side. -/
structure Interplay where
  settings : Settings := {}
  shared : Shared := {}

namespace Interplay

open Session (Step Answer)

/-- One step under a schedule, and the session after it; nothing if the schedule is over before. -/
def take (backend : Backend) (s : Interplay) (schedule : Schedule) :
    Step → Option (Answer × Interplay)
  | .compile options selection =>
    (backend.compile s.settings options selection schedule s.shared).map fun (result, shared) =>
      (.outcome result, { s with shared })
  | .upload kind bytes =>
    ((Plan.errand (.address s.settings.uploads kind bytes)).runUnder backend.host backend.supply
      schedule s.shared).map fun (result, shared) => (.address result, { s with shared })
  | .edit edit =>
    some (.settings (s.settings.edited edit), { s with settings := s.settings.apply edit })
  | .replace settings => some (.settings (.ok settings), { s with settings })

/-- The answers to some steps, each under its schedule, and the session after them; nothing if a
step does not end. -/
def run (backend : Backend) (s : Interplay) :
    List (Step × Schedule) → Option (List Answer × Interplay)
  | [] => some ([], s)
  | (step, schedule) :: rest =>
    match s.take backend schedule step with
    | none => none
    | some (answer, s) =>
      (s.run backend rest).map fun (answers, s) => (answer :: answers, s)

end Interplay

end Artboard
