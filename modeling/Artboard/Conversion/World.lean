import Artboard.Digest.Content
import Artboard.Node.Basic
import Artboard.Settings.Basic
import Artboard.Upload.Pipeline
import Artboard.Upload.Request

/-!
# The world of a conversion

A conversion asks the design tool for variables and exports, and a source of assets for addresses.
The usual source is the upload pipeline in front of an uploader. Design tool and uploader are
functions of the request and of how many requests came before, and either may fail or panic.

**State** (`World`). The upload pipeline, the exports asked for so far, the uploads tried so far,
and the bitmaps that the present conversion already asked for, whether it got them or not.

**Effects** (`Pass`). A computation in the world ends with a value or with a panic. The world
stays as it was left when the panic came.
-/

namespace Artboard

open Text (Bytes)

/-! ## Services -/

/-- How a service ends. -/
inductive Reply (α : Type) where
  | done (value : α)
  | failed
  | panicked (message : String)
deriving Repr

inductive ExportFormat where
  | svg
  /-- At twice the size, with or without the layers inside. -/
  | png (withChildren : Bool)
deriving Repr, DecidableEq

/-- An export that was asked for. -/
structure ExportRequest where
  id : String
  format : ExportFormat
deriving Repr, DecidableEq

/-- The design tool. -/
structure Host where
  /-- The name of a colour variable, if it still exists. -/
  variableName : String → Option String
  /-- The bytes of an export, by the number of exports before it. -/
  provide : Nat → ExportRequest → Reply Bytes

/-- The address of uploaded bytes, by the number of uploads before it. -/
abbrev Uploader := Nat → UploadRequest → Reply String

/-! ## State -/

/-- A bitmap of a node: its address, and whether the nodes inside are drawn. -/
abbrev BitmapKey := Address × Bool

structure World where
  pipeline : Pipeline := {}
  exports : List ExportRequest := []
  uploads : List UploadRequest := []
  bitmaps : List (BitmapKey × Option Bytes) := []

/-- Why a computation was broken off. -/
structure Panic where
  message : String
deriving Repr, DecidableEq

/-- A computation in the world. -/
abbrev Pass (α : Type) := ExceptT Panic (StateM World) α

namespace Pass

/-- The value or the panic, and the world afterwards. -/
def runIn {α : Type} (pass : Pass α) (w : World) : Except Panic α × World := pass.run.run w

/-! ## Exports -/

/-- Asks for an export; nothing if it fails. -/
def ask (host : Host) (request : ExportRequest) : Pass (Option Bytes) := do
  let w ← get
  set { w with exports := w.exports ++ [request] }
  match host.provide w.exports.length request with
  | .done bytes => pure (some bytes)
  | .failed => pure none
  | .panicked message => throw ⟨message⟩

/-- The bitmap of an item, asked for once. -/
def bitmap (host : Host) (item : Item) (withChildren : Bool) : Pass (Option Bytes) := do
  let key : BitmapKey := (item.address, withChildren)
  match (← get).bitmaps.lookup key with
  | some known => pure known
  | none =>
    let bytes ← ask host ⟨item.id, .png withChildren⟩
    modify fun w => { w with bitmaps := (key, bytes) :: w.bitmaps }
    pure bytes

/-! ## Uploads -/

/-- Calls the uploader for a request that holds a slot. The slot is given back on every way out. -/
def send (uploader : Uploader) (ticket : Ticket) (request : UploadRequest) :
    Pass (Option String) := do
  let w ← get
  let uploads := w.uploads ++ [request]
  match uploader w.uploads.length request with
  | .done url =>
    set { w with uploads, pipeline := w.pipeline.store ticket url }
    pure (some url)
  | .failed =>
    set { w with uploads, pipeline := w.pipeline.leave ticket }
    pure none
  | .panicked message =>
    set { w with uploads, pipeline := w.pipeline.leave ticket }
    throw ⟨message⟩

/-- The address of some bytes, uploaded unless they were before. Nothing if uploading is off or
fails. This is a request that nothing comes between, as when the parts of a conversion go on one
after the other; otherwise requests wait for each other, as in `Process`. -/
def address (uploader : Uploader) (settings : UploadSettings) (kind : AssetKind) (bytes : Bytes) :
    Pass (Option String) := do
  if !settings.enabled then pure none
  else
    let key := (ContentHash.of bytes).key
    let w ← get
    match w.pipeline.cache.get? key with
    | some url => pure (some url)
    | none =>
      let asking := w.pipeline.ask ⟨w.uploads.length, key, settings.limit⟩
      match asking.grant with
      | none =>
        set { w with pipeline := asking }
        pure none
      | some (ticket, admitted) =>
        set { w with pipeline := admitted }
        match admitted.cache.get? ticket.key with
        | some url =>
          set { w with pipeline := admitted.leave ticket }
          pure (some url)
        | none => send uploader ticket ⟨kind, key, bytes⟩

end Pass

/-- Where a conversion gets the addresses of assets from; nothing if there is none. -/
abbrev AssetSource := UploadSettings → AssetKind → Bytes → Pass (Option String)

end Artboard
