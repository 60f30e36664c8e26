/-!
# Upload slots

All uploads share one pool of permits. An upload under a limit of `k` takes the `k`-th part of
the permits, rounded up, so that uploads with different limits can run side by side and each limit
is still respected. Who waits is admitted strictly in the order of asking: nobody overtakes the
first in the queue, however few permits it would take.
-/

namespace Artboard

/-- The permits of the pool; every limit up to 16 divides them. -/
def permits : Nat := 720720

/-- A request that asks for a slot. -/
structure Ticket where
  /-- Tells requests apart. -/
  id : Nat
  /-- The content hash of what is to be uploaded. -/
  key : String
  /-- How many uploads may run at once. -/
  limit : Nat
deriving Repr, DecidableEq

namespace Ticket

/-- The limit between 1 and the number of permits. -/
def effectiveLimit (t : Ticket) : Nat := min (max t.limit 1) permits

/-- How many permits the request takes. -/
def weight (t : Ticket) : Nat := (permits + t.effectiveLimit - 1) / t.effectiveLimit

end Ticket

structure Slots where
  /-- The permits that nobody holds. -/
  free : Nat := permits
  /-- How many requests hold a slot. -/
  inFlight : Nat := 0
  /-- The requests that wait, in the order of asking. -/
  waiting : List Ticket := []
  /-- The requests that hold a slot, in the order of admission. -/
  holding : List Ticket := []
deriving Repr, DecidableEq

namespace Slots

/-- Joins the queue. -/
def ask (s : Slots) (t : Ticket) : Slots := { s with waiting := s.waiting ++ [t] }

/-- Admits the first in the queue if its permits are free. -/
def grant (s : Slots) : Option (Ticket × Slots) :=
  match s.waiting with
  | [] => none
  | t :: rest =>
    if t.weight ≤ s.free then
      some (t, ⟨s.free - t.weight, s.inFlight + 1, rest, s.holding ++ [t]⟩)
    else none

/-- Gives the slot of a request back. -/
def release (s : Slots) (t : Ticket) : Slots :=
  if t ∈ s.holding then
    ⟨s.free + t.weight, s.inFlight - 1, s.waiting, s.holding.erase t⟩
  else s

/-- Leaves the queue. -/
def withdraw (s : Slots) (t : Ticket) : Slots := { s with waiting := s.waiting.erase t }

end Slots

end Artboard
