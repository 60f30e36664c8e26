import Artboard.Json.Parse
import Artboard.Json.Read
import Artboard.Settings.Basic
import Artboard.Text.ByteOrder
import Artboard.Upload.Address
import Artboard.Upload.Request

/-!
# Uploads over HTTP

Each upload is one `POST` to the endpoint of the settings: the bytes as they are, and headers that
tell what they are and that the sender may upload. A successful answer is a JSON record with the
address of the upload and its hash; any other answer is an error with the text of its body.

Nothing is sent without an endpoint, or if the secret cannot stand in a header.
-/

namespace Artboard

open Text (Bytes)

/-! ## Requests -/

structure HttpRequest where
  /-- The path and the query. -/
  target : String
  headers : List (String × String)
  body : Bytes
deriving Repr, DecidableEq

namespace HttpRequest

/-- Whether a character may stand in a header. -/
def inHeader (c : Char) : Bool := (0x20 ≤ c.toNat && c.toNat != 0x7F) || c == '\t'

def isPadding (c : Char) : Bool := c == ' ' || c == '\t'

/-- The value of a header; blanks around it are not part of it. -/
def headerValue (s : String) : String :=
  let cs := s.toList.dropWhile isPadding
  String.ofList (cs.reverse.dropWhile isPadding).reverse

/-- The request of an upload. -/
def ofUpload (settings : UploadSettings) (upload : UploadRequest) :
    Except UploadError HttpRequest :=
  let endpoint := Text.trimmed settings.endpoint
  if endpoint.isEmpty then .error .missingEndpoint
  else if !settings.secret.toList.all inHeader then .error .transport
  else match Address.target? endpoint with
    | none => .error .transport
    | some target => .ok {
        target
        headers := [
          ("content-type", "application/octet-stream"),
          ("x-asset-ext", upload.kind.extension),
          ("x-asset-hash", upload.key),
          ("x-asset-content-type", upload.kind.contentType),
          ("x-upload-secret", headerValue settings.secret)]
        body := upload.bytes }

end HttpRequest

/-! ## Answers -/

structure HttpReply where
  status : Nat
  body : Bytes
deriving Repr, DecidableEq

/-- What a successful answer says. -/
structure Uploaded where
  url : String
  hash : String
deriving Repr, DecidableEq

def Uploaded.read : Json.Reader Uploaded := fun levels j => do
  let r ← Json.record? [["url"], ["hash"]] levels j
  return ⟨← r.required "url" Json.asText, ← r.required "hash" Json.asText⟩

namespace HttpReply

/-- Whether the answer ends the exchange: its status has three digits, and is not an
announcement of another answer. -/
def isFinal (r : HttpReply) : Bool := r.status == 101 || (200 ≤ r.status && r.status < 1000)

def isSuccess (r : HttpReply) : Bool := 200 ≤ r.status && r.status < 300

/-- The body; some answers have none, whatever follows them. -/
def content (r : HttpReply) : Bytes :=
  if r.status == 101 || r.status == 204 || r.status == 304 then [] else r.body

/-- The address that an answer gives. -/
def url (r : HttpReply) : Except UploadError String :=
  if !r.isFinal then .error .transport
  else if !r.isSuccess then .error (.rejected r.status (Text.decodeMarked r.content))
  else match (Json.parseBytes? r.content).bind (Uploaded.read Json.textLevels) with
    | some uploaded => .ok uploaded.url
    | none => .error .transport

end HttpReply

/-- An upload by way of `exchange`, which sends a request and brings the answer. -/
def httpUpload (exchange : HttpRequest → Option HttpReply) (settings : UploadSettings)
    (upload : UploadRequest) : Except UploadError String :=
  match HttpRequest.ofUpload settings upload with
  | .error e => .error e
  | .ok request =>
    match exchange request with
    | some reply => reply.url
    | none => .error .transport

end Artboard
