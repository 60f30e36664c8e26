import Artboard.Upload.Slots

/-!
# The upload pipeline

A request for an asset is answered from the cache if its content was uploaded before. Otherwise
it waits for a slot, and once it holds one looks into the cache again, for the same content may
have been uploaded while it waited. Only then is the uploader called. However the request ends,
it gives its slot back, and only a successful upload changes the cache.

`Pipeline` has one function for each of these moments; `Traffic` runs many requests at once.
-/

namespace Artboard

/-- Addresses of uploaded content by its hash. -/
abbrev Cache := List (String × String)

namespace Cache

def get? (c : Cache) (key : String) : Option String := c.lookup key

/-- Sets the address of a content. -/
def put (key url : String) : Cache → Cache
  | [] => [(key, url)]
  | (k, u) :: rest => if k = key then (key, url) :: rest else (k, u) :: put key url rest

end Cache

structure Pipeline where
  cache : Cache := []
  slots : Slots := {}
deriving Repr, DecidableEq

namespace Pipeline

/-- A request that missed the cache joins the queue. -/
def ask (p : Pipeline) (t : Ticket) : Pipeline := { p with slots := p.slots.ask t }

/-- Admits the first in the queue if it can be. -/
def grant (p : Pipeline) : Option (Ticket × Pipeline) :=
  p.slots.grant.map fun (t, slots) => (t, { p with slots })

/-- Ends a request that holds a slot, without an upload or after a failed one. -/
def leave (p : Pipeline) (t : Ticket) : Pipeline := { p with slots := p.slots.release t }

/-- Ends a request whose upload succeeded. -/
def store (p : Pipeline) (t : Ticket) (url : String) : Pipeline :=
  { cache := Cache.put t.key url p.cache, slots := p.slots.release t }

/-- Ends an upload by its outcome. -/
def finish (p : Pipeline) (t : Ticket) : Option String → Pipeline
  | some url => p.store t url
  | none => p.leave t

/-- Drops a request wherever it is. -/
def cancel (p : Pipeline) (t : Ticket) : Pipeline :=
  { p with slots := (p.slots.withdraw t).release t }

end Pipeline

end Artboard
