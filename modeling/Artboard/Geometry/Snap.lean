/-!
# Snapping onto a scale

A scale is an ascending list of values with labels. A measured value snaps onto the nearest
value of the scale, the smaller of two equally near ones, if their difference is at most a given
percentage of the measured value.

The numbers are those of any type with the operations of `Quantity`, so that the same definition
runs on doubles and can be read over the rationals.
-/

namespace Artboard

/-- The operations and comparisons that snapping needs. -/
class Quantity (α : Type) where
  sub : α → α → α
  mul : α → α → α
  neg : α → α
  lt : α → α → Bool
  le : α → α → Bool
  equal : α → α → Bool
  zero : α
  hundred : α

instance : Quantity Float where
  sub := (· - ·)
  mul := (· * ·)
  neg := (- ·)
  lt x y := x < y
  le x y := x ≤ y
  equal := (· == ·)
  zero := 0
  hundred := 100

instance : Quantity Rat where
  sub := (· - ·)
  mul := (· * ·)
  neg := (- ·)
  lt x y := x < y
  le x y := x ≤ y
  equal := (· == ·)
  zero := 0
  hundred := 100

namespace Quantity

variable {α : Type} [Quantity α]

/-- The value without its sign. -/
def magnitude (x : α) : α := if lt x zero then neg x else x

def gap (x y : α) : α := magnitude (sub x y)

end Quantity

namespace Scale

open Quantity

variable {α : Type} [Quantity α] {β : Type}

/-- Whether `candidate` may replace `raw`: their difference is at most `percent` per cent of
`raw`. -/
def within (raw candidate percent : α) : Bool :=
  let difference := gap raw candidate
  if equal raw zero then equal difference zero
  else le (mul difference hundred) (mul percent (magnitude raw))

/-- The nearer of two entries, the first one on a tie. -/
def nearer (raw : α) (best next : α × β) : α × β :=
  if lt (gap raw next.1) (gap raw best.1) then next else best

/-- The entry nearest to `raw`, the first of equally near ones. -/
def nearest (raw : α) : List (α × β) → Option (α × β)
  | [] => none
  | entry :: scale => some (scale.foldl (nearer raw) entry)

/-- The label of the nearest entry, if it lies within the threshold. -/
def snap (raw : α) (scale : List (α × β)) (percent : α) : Option β :=
  match nearest raw scale with
  | none => none
  | some (value, label) => if within raw value percent then some label else none

end Scale

end Artboard
