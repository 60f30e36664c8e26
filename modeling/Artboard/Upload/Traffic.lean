import Artboard.Upload.Pipeline

/-!
# Traffic

Many requests share one pipeline, each with its own limit. A request is known by its ticket, and
tickets are numbered in the order of asking.

**Turns.** In each turn either something happens from outside (a request, the outcome of an upload,
a cancellation), or one open request is polled, and goes on as far as it can. Turns may come in any
order. `Traffic.step` takes in an event and then polls every open request in the order of asking.

**Journal.** What happened to requests in a turn is written down in order.
-/

namespace Artboard

/-! ## Journal -/

/-- Something that happened to a request. -/
inductive TrafficEntry where
  | asked (r : Ticket) (enabled : Bool)
  /-- It missed the cache, and waits for a slot. -/
  | queued (r : Ticket)
  /-- It got a slot. -/
  | admitted (r : Ticket)
  /-- The uploader was called for it. -/
  | called (r : Ticket)
  /-- The uploader gave an address for it, or failed. -/
  | ended (r : Ticket) (url : Option String)
  | answered (r : Ticket) (url : Option String)
  | dropped (r : Ticket)
deriving Repr, DecidableEq

abbrev Journal := List TrafficEntry

namespace Journal

/-- The requests that reached the uploader, in order. -/
def started (j : Journal) : List Nat :=
  j.filterMap fun
    | .called r => some r.id
    | _ => none

/-- The requests that were answered, in order. -/
def done (j : Journal) : List (Nat × Option String) :=
  j.filterMap fun
    | .answered r url => some (r.id, url)
    | _ => none

end Journal

/-! ## Events -/

/-- Many requests at once, with the outcomes that are known for their uploads. -/
structure Traffic where
  pipeline : Pipeline := {}
  /-- Outcomes by request; one may be known before its upload begins. -/
  outcomes : List (Nat × Option String) := []
  /-- How many requests were made. -/
  asked : Nat := 0
deriving Repr, DecidableEq

/-- What happens to the traffic from outside. -/
inductive TrafficEvent where
  /-- A new request, numbered in the order of asking. -/
  | request (key : String) (limit : Nat) (enabled : Bool)
  /-- The uploader's answer to a request. -/
  | outcome (id : Nat) (url : Option String)
  | cancel (id : Nat)
deriving Repr, DecidableEq

namespace Traffic

/-- The requests that are neither answered nor dropped, in the order of asking. -/
def openRequests (t : Traffic) : List Ticket :=
  t.pipeline.slots.holding ++ t.pipeline.slots.waiting

/-- A new request: it is answered at once if uploads are off or its content is known, and joins the
queue otherwise. -/
def request (t : Traffic) (key : String) (limit : Nat) (enabled : Bool) : Traffic × Journal :=
  let r : Ticket := ⟨t.asked, key, limit⟩
  let t := { t with asked := t.asked + 1 }
  if !enabled then (t, [.asked r false, .answered r none])
  else match t.pipeline.cache.get? key with
    | some url => (t, [.asked r true, .answered r (some url)])
    | none => ({ t with pipeline := t.pipeline.ask r }, [.asked r true, .queued r])

/-- Drops a request if it is open. -/
def cancel (t : Traffic) (id : Nat) : Traffic × Journal :=
  match t.openRequests.find? (·.id == id) with
  | some r => ({ t with pipeline := t.pipeline.cancel r }, [.dropped r])
  | none => (t, [])

/-- The traffic right after an event, before anything goes on. -/
def receive (t : Traffic) : TrafficEvent → Traffic × Journal
  | .request key limit enabled => t.request key limit enabled
  | .outcome id url => ({ t with outcomes := (id, url) :: t.outcomes }, [])
  | .cancel id => t.cancel id

/-! ## Polls -/

/-- Ends the upload of a request if its outcome is known. -/
def conclude (t : Traffic) (r : Ticket) : Traffic × Journal :=
  match t.outcomes.lookup r.id with
  | some url => ({ t with pipeline := t.pipeline.finish r url }, [.ended r url, .answered r url])
  | none => (t, [])

/-- A request that was just admitted: it is answered from the cache, or its upload begins, and
ends at once if its outcome is known. -/
def proceed (t : Traffic) (r : Ticket) : Traffic × Journal :=
  match t.pipeline.cache.get? r.key with
  | some url =>
    ({ t with pipeline := t.pipeline.leave r }, [.admitted r, .answered r (some url)])
  | none =>
    let (t, rest) := t.conclude r
    (t, .admitted r :: .called r :: rest)

/-- Lets an open request go on as far as it can. One that waits can only if it is the first in the
queue and its permits are free. -/
def poll (t : Traffic) (id : Nat) : Traffic × Journal :=
  match t.pipeline.slots.holding.find? (·.id == id) with
  | some r => t.conclude r
  | none =>
    match t.pipeline.grant with
    | some (r, pipeline) => if r.id = id then proceed { t with pipeline } r else (t, [])
    | none => (t, [])

/-! ## Turns -/

inductive Turn where
  | event (event : TrafficEvent)
  /-- Lets a request go on. -/
  | poll (id : Nat)
deriving Repr, DecidableEq

def take (t : Traffic) : Turn → Traffic × Journal
  | .event event => t.receive event
  | .poll id => t.poll id

/-- The traffic after some turns, with all that happened in them. -/
def run (t : Traffic) : List Turn → Traffic × Journal
  | [] => (t, [])
  | turn :: rest =>
    let (t, first) := t.take turn
    let (t, others) := t.run rest
    (t, first ++ others)

/-- Polls some requests in order. -/
def polls (requests : List Ticket) : List Turn := requests.map fun r => .poll r.id

/-- Lets every open request go on, in the order of asking. -/
def settle (t : Traffic) : Traffic × Journal := t.run (polls t.openRequests)

/-- Takes in an event and lets every open request go on. -/
def step (t : Traffic) (event : TrafficEvent) : Traffic × Journal :=
  let (t, first) := t.receive event
  let (t, rest) := t.settle
  (t, first ++ rest)

/-- A step is a run like any other. -/
theorem step_eq_run (t : Traffic) (event : TrafficEvent) :
    t.step event = t.run (.event event :: polls (t.receive event).1.openRequests) := rfl

theorem run_append (t : Traffic) (turns more : List Turn) :
    (t.run (turns ++ more)).1 = ((t.run turns).1.run more).1 := by
  induction turns generalizing t with
  | nil => rfl
  | cons turn rest ih => exact ih (t.take turn).1

end Traffic

end Artboard
