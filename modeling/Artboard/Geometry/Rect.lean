import Artboard.Number.Exact

/-!
# Boxes

Boxes with sides along the axes, in the pixels of the design tool.
-/

namespace Artboard

open Number

/-- A box by its top-left corner and its size. -/
structure Rect where
  x : Float
  y : Float
  width : Float
  height : Float
deriving Repr, DecidableEq

namespace Rect

/-- The smallest box around both. -/
def union (a b : Rect) : Rect :=
  let left := least a.x b.x
  let top := least a.y b.y
  let right := greatest (a.x + a.width) (b.x + b.width)
  let bottom := greatest (a.y + a.height) (b.y + b.height)
  ⟨left, top, right - left, bottom - top⟩

def isFinite (r : Rect) : Bool :=
  r.x.isFinite && r.y.isFinite && r.width.isFinite && r.height.isFinite

/-- The smallest box around all of them. -/
def hull : List Rect → Option Rect
  | [] => none
  | r :: rs => some (rs.foldl union r)

end Rect

end Artboard
