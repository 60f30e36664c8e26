import Artboard.Conversion.Compile
import Artboard.Settings.Change

/-!
# Sessions

A session converts selections one after another, uploads assets on its own account, and edits or
replaces its settings in between. Uploads are remembered as long as it lasts; a step that fails
leaves what it uploaded until then.
-/

namespace Artboard

structure Session where
  settings : Settings := {}
  world : World := {}

namespace Session

inductive Step where
  | compile (options : ConversionOptions) (selection : Selection)
  | upload (kind : AssetKind) (bytes : Text.Bytes)
  | edit (edit : Settings.Edit)
  /-- Goes on with other settings. -/
  | replace (settings : Settings)

/-- What a step of a session gives. -/
inductive Answer where
  | outcome (result : Except ConversionError Outcome)
  | address (result : Except Panic (Option String))
  | settings (result : Except SettingsError Settings)

/-- One step, and the session after it. -/
def take (services : Services) (s : Session) : Step → Answer × Session
  | .compile options selection =>
    let (result, world) := services.compile s.settings options selection s.world
    (.outcome result, { s with world })
  | .upload kind bytes =>
    let (result, world) := (services.assets s.settings.uploads kind bytes).runIn s.world
    (.address result, { s with world })
  | .edit edit => (.settings (s.settings.edited edit), { s with settings := s.settings.apply edit })
  | .replace settings => (.settings (.ok settings), { s with settings })

/-- The answers to some steps in order, and the session after them. -/
def run (services : Services) (s : Session) : List Step → List Answer × Session
  | [] => ([], s)
  | step :: rest =>
    let (answer, s) := s.take services step
    let (answers, s) := s.run services rest
    (answer :: answers, s)

end Session

end Artboard
