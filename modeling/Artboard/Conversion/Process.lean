import Artboard.Conversion.Plan
import Artboard.Upload.Traffic

/-!
# Processes

A process is a plan under way. Its parts go on side by side, in turns that come in any order, and
share one world with its upload slots.

**Turns** (`Process.advance`). An export is asked for and answered in one turn, the moment of its
answer. An address comes through the traffic of the pipeline: a request is made, waits for a slot,
calls the uploader and is answered, each in a turn of its own. Two parts side by side are joined in
a turn too.

**Panics.** A panic in any part breaks off the whole process. Requests that are open then are
dropped (`Shared.abandon`), wherever they are.
-/

namespace Artboard

open Text (Bytes)

/-- What a reply brings. -/
def Reply.result {α : Type} : Reply α → Except Panic (Option α)
  | .done value => .ok (some value)
  | .failed => .ok none
  | .panicked message => .error ⟨message⟩

/-! ## State -/

/-- What the parts of a process share. -/
structure Shared where
  world : World := {}
  /-- Outcomes of uploads by request. -/
  outcomes : List (Nat × Option String) := []
  /-- How many requests were made. -/
  asked : Nat := 0
  journal : Journal := []

namespace Shared

def traffic (s : Shared) : Traffic := ⟨s.world.pipeline, s.outcomes, s.asked⟩

/-- The state after the requests went on. -/
def after (s : Shared) (passed : Traffic × Journal) : Shared where
  world := { s.world with pipeline := passed.1.pipeline }
  outcomes := passed.1.outcomes
  asked := passed.1.asked
  journal := s.journal ++ passed.2

def take (s : Shared) (turn : Traffic.Turn) : Shared := s.after (s.traffic.take turn)

/-- The state after the uploader was called. -/
def calling (s : Shared) (upload : UploadRequest) : Shared :=
  { s with world := { s.world with uploads := s.world.uploads ++ [upload] } }

/-- The state in which a conversion begins: no bitmap was asked for yet. -/
def fresh (s : Shared) : Shared := { s with world := { s.world with bitmaps := [] } }

/-- Drops every open request. -/
def abandon (s : Shared) : Shared :=
  s.after (s.traffic.run (s.traffic.openRequests.map fun r => .event (.cancel r.id)))

end Shared

/-! ## Processes -/

/-- Bytes that are to get an address. -/
structure Parcel where
  settings : UploadSettings
  kind : AssetKind
  bytes : Bytes

namespace Parcel

def key (p : Parcel) : String := (ContentHash.of p.bytes).key

/-- The ticket of a request for the parcel. -/
def ticket (p : Parcel) (id : Nat) : Ticket := ⟨id, p.key, p.settings.limit⟩

/-- The turn in which its address is asked for. -/
def asking (p : Parcel) : Traffic.Turn :=
  .event (.request p.key p.settings.limit p.settings.enabled)

/-- What the uploader is called with. -/
def upload (p : Parcel) : UploadRequest := ⟨p.kind, p.key, p.bytes⟩

end Parcel

inductive Process : Type → Type 1 where
  | done {α : Type} (value : α) : Process α
  | await {α β : Type} (errand : Errand β) (next : β → Plan α) : Process α
  /-- A request under way: it waits for a slot, or for the answer to a call of the uploader. -/
  | sent {α : Type} (id : Nat) (parcel : Parcel) (call : Option Nat)
    (next : Option String → Plan α) : Process α
  | both {α β γ : Type} (left : Process β) (right : Process γ) (next : β → γ → Plan α) : Process α

/-- The process of a plan of which nothing is done yet. -/
def Plan.start {α : Type} : Plan α → Process α
  | .done a => .done a
  | .await errand next => .await errand next
  | .both left right next => .both left.start right.start next

/-- Where processes get addresses from. -/
inductive Supply where
  /-- From requests to the pipeline in front of an uploader. -/
  | pipeline (uploader : Uploader)
  /-- At once, without any request. -/
  | direct (assets : AssetSource)

/-- The supply as a source of assets between which nothing comes. -/
def Supply.inOrder : Supply → AssetSource
  | .pipeline uploader => Pass.address uploader
  | .direct assets => assets

inductive Branch where
  | left
  | right
deriving Repr, DecidableEq

/-- The way to a part of a process, from the whole. -/
abbrev Part := List Branch

/-- The parts that have a turn, in order. -/
abbrev Schedule := List Part

namespace Process

variable {α : Type}

def value? : Process α → Option α
  | .done a => some a
  | _ => none

/-! ## Turns -/

/-- A turn of an upload request. It is answered, calls the uploader, or waits. -/
def request (id : Nat) (parcel : Parcel) (next : Option String → Plan α) (turn : Traffic.Turn)
    (s : Shared) : Process α × Shared :=
  let (_, happened) := s.traffic.take turn
  match happened.done.lookup id with
  | some url => ((next url).start, s.take turn)
  | none =>
    if id ∈ happened.started then
      (.sent id parcel (some s.world.uploads.length) next, (s.take turn).calling parcel.upload)
    else (.sent id parcel none next, s.take turn)

/-- The uploader's answer to a request. -/
def conclude (id : Nat) (next : Option String → Plan α) (url : Option String) (s : Shared) :
    Process α × Shared :=
  ((next url).start, (s.take (.event (.outcome id url))).take (.poll id))

/-- A turn of something that nothing comes between. -/
def atOnce {β : Type} (pass : Pass β) (next : β → Plan α) (s : Shared) :
    Except Panic (Process α) × Shared :=
  let (result, world) := pass.runIn s.world
  (result.map fun b => (next b).start, { s with world })

variable (host : Host) (supply : Supply)

/-- The first turn of an errand. -/
def begin {β : Type} (errand : Errand β) (next : β → Plan α) (s : Shared) :
    Except Panic (Process α) × Shared :=
  match supply, errand with
  | .pipeline _, .address settings kind bytes =>
    let parcel : Parcel := ⟨settings, kind, bytes⟩
    let (process, s) := request s.asked parcel next parcel.asking s
    (.ok process, s)
  | supply, errand => atOnce (errand.inOrder host supply.inOrder) next s

/-- A turn of a request that was made before. -/
def proceed (id : Nat) (parcel : Parcel) (call : Option Nat) (next : Option String → Plan α)
    (s : Shared) : Except Panic (Process α) × Shared :=
  match supply, call with
  | .direct _, _ => (.ok (.sent id parcel call next), s)
  | .pipeline _, none =>
    let (process, s) := request id parcel next (.poll id) s
    (.ok process, s)
  | .pipeline uploader, some call =>
    match (uploader call parcel.upload).result with
    | .ok url =>
      let (process, s) := conclude id next url s
      (.ok process, s)
    | .error panic => (.error panic, s)

/-- A turn of a part of a process. What cannot go on stays as it is. -/
def advance {α : Type} : Part → Process α → Shared → Except Panic (Process α) × Shared
  | [], .await errand next, s => begin host supply errand next s
  | [], .sent id parcel call next, s => proceed supply id parcel call next s
  | [], .both left right next, s =>
    match left.value?, right.value? with
    | some b, some c => (.ok (next b c).start, s)
    | _, _ => (.ok (.both left right next), s)
  | .left :: part, .both left right next, s =>
    let (result, s) := left.advance part s
    (result.map fun left => .both left right next, s)
  | .right :: part, .both left right next, s =>
    let (result, s) := right.advance part s
    (result.map fun right => .both left right next, s)
  | _, process, s => (.ok process, s)

/-- The process after the turns of a schedule, unless it panics. -/
def run {α : Type} : Schedule → Process α → Shared → Except Panic (Process α) × Shared
  | [], process, s => (.ok process, s)
  | part :: rest, process, s =>
    match process.advance host supply part s with
    | (.ok process, s) => process.run rest s
    | (.error panic, s) => (.error panic, s)

end Process

/-- What a plan ends with under a schedule, and the state afterwards; nothing if the schedule is
over before. -/
def Plan.runUnder {α : Type} (plan : Plan α) (host : Host) (supply : Supply) (schedule : Schedule)
    (s : Shared) : Option (Except Panic α × Shared) :=
  match plan.start.run host supply schedule s with
  | (.error panic, s) => some (.error panic, s.abandon)
  | (.ok (.done a), s) => some (.ok a, s)
  | (.ok _, _) => none

end Artboard
