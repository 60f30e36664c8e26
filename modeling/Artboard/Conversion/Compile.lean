import Artboard.Conversion.Normalize
import Artboard.Conversion.Preview
import Artboard.Conversion.Report

/-!
# Conversion

A conversion turns a selection into code, a preview and reports, or ends with a single error. It
normalizes the whole selection, and then draws code and preview side by side (`Services.plan`).
`Services.compile` carries this out in order: the whole code is drawn, then the whole preview.

A panic anywhere is caught and becomes an error. What was uploaded until then stays in the cache.
-/

namespace Artboard

structure ConversionOptions where
  /-- Embeds bitmaps instead of uploading them. -/
  isLive : Bool := false
  /-- Handed back, so that callers can tell conversions apart. -/
  trigger : Option String := none
deriving Repr, DecidableEq

structure Conversion where
  code : String
  preview : Preview
  warnings : List String
  colors : List ColorEntry
  textStyles : List TextStyle
  trigger : Option String
deriving Repr, DecidableEq

inductive ConversionError where
  | normalize (error : NormalizeError)
  /-- A panic. -/
  | internal (message : String)
deriving Repr, DecidableEq

namespace ConversionError

def message : ConversionError → String
  | .normalize error => error.message
  | .internal message => s!"Internal compiler error: {message}"

end ConversionError

inductive Outcome where
  /-- Nothing was selected, which is no error. -/
  | emptySelection
  | converted (conversion : Conversion)
deriving Repr, DecidableEq

/-- The first of equal messages; `seen` came before. -/
def dedupAfter (seen : List String) : List String → List String
  | [] => []
  | m :: rest => if seen.contains m then dedupAfter seen rest else m :: dedupAfter (m :: seen) rest

def dedup (messages : List String) : List String := dedupAfter [] messages

/-- A design tool and a source of assets, between which conversions run. -/
structure Services where
  host : Host
  assets : AssetSource

namespace Services

/-- A design tool, and the upload pipeline in front of an uploader. -/
def uploading (host : Host) (uploader : Uploader) : Services := ⟨host, Pass.address uploader⟩

variable (services : Services)

def normalizing (settings : Settings) : NormalizeContext :=
  ⟨settings, services.host, services.assets⟩

def emitting (settings : Settings) (options : ConversionOptions) : EmitContext :=
  ⟨settings, services.host, services.assets, if options.isLive then .live else .code⟩

/-- The code and the preview of normalized nodes. -/
def drawPlan (settings : Settings) (options : ConversionOptions) (nodes : Warned (List Node)) :
    Plan Conversion :=
  let cx := services.emitting settings options
  .both (cx.emitRootsPlan nodes.value)
    (Preview.plan settings services.host services.assets nodes.value)
    fun code preview => pure {
      code := cx.write code.markup
      preview
      warnings := dedup (nodes.warnings ++ code.warnings)
      colors := colorReport settings nodes.value
      textStyles := code.textStyles
      trigger := options.trigger }

/-- The conversion of a selection that is not empty. -/
def plan (settings : Settings) (options : ConversionOptions) (selection : Selection) :
    Plan (Except NormalizeError Conversion) := do
  match ← (services.normalizing settings).normalizePlan selection with
  | .error error => pure (.error error)
  | .ok nodes => do
    let conversion ← services.drawPlan settings options nodes
    pure (.ok conversion)

/-! ## One after the other -/

def draw (settings : Settings) (options : ConversionOptions) (nodes : Warned (List Node)) :
    Pass Conversion :=
  (services.drawPlan settings options nodes).inOrder services.host services.assets

def run (settings : Settings) (options : ConversionOptions) (selection : Selection) :
    Pass (Except NormalizeError Conversion) :=
  (services.plan settings options selection).inOrder services.host services.assets

theorem draw_eq (settings : Settings) (options : ConversionOptions) (nodes : Warned (List Node)) :
    services.draw settings options nodes = (do
      let cx := services.emitting settings options
      let code ← cx.emitRoots nodes.value
      let preview ← Preview.ofNodes settings services.host services.assets nodes.value
      pure {
        code := cx.write code.markup
        preview
        warnings := dedup (nodes.warnings ++ code.warnings)
        colors := colorReport settings nodes.value
        textStyles := code.textStyles
        trigger := options.trigger }) := rfl

theorem run_eq (settings : Settings) (options : ConversionOptions) (selection : Selection) :
    services.run settings options selection = (do
      match ← (services.normalizing settings).normalize selection with
      | .error error => pure (.error error)
      | .ok nodes => do
        let conversion ← services.draw settings options nodes
        pure (.ok conversion)) := by
  rw [run, plan, Plan.inOrder_bind]
  refine bind_congr fun nodes => ?_
  cases nodes with
  | error error => rfl
  | ok nodes => exact Plan.inOrder_bind _ _ _ _

/-- The conversion of a selection, and the world afterwards. Bitmaps of earlier conversions are
forgotten. -/
def compile (settings : Settings) (options : ConversionOptions) (selection : Selection)
    (w : World) : Except ConversionError Outcome × World :=
  if selection.isEmpty then (.ok .emptySelection, w)
  else
    match (services.run settings options selection).runIn { w with bitmaps := [] } with
    | (.error panic, w) => (.error (.internal panic.message), w)
    | (.ok (.error error), w) => (.error (.normalize error), w)
    | (.ok (.ok conversion), w) => (.ok (.converted conversion), w)

end Services

end Artboard
