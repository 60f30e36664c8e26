import Artboard.Asset.Basic

/-!
# Upload requests

What the pipeline hands to an uploader, and why an upload can fail.
-/

namespace Artboard

open Text (Bytes)

/-- An upload that was tried. -/
structure UploadRequest where
  kind : AssetKind
  /-- The content hash of the bytes. -/
  key : String
  bytes : Bytes
deriving Repr, DecidableEq

inductive UploadError where
  | missingEndpoint
  /-- The request could not be sent, or its answer not be read. -/
  | transport
  | rejected (status : Nat) (body : String)
deriving Repr, DecidableEq

namespace UploadError

/-- The message, where it does not quote the transport. -/
def message? : UploadError → Option String
  | .missingEndpoint => some "No upload endpoint configured"
  | .transport => none
  | .rejected status body => some s!"Upload rejected with status {status}: {body}"

end UploadError

end Artboard
