import DragDrop.Scalar

/-! Points and rectangles on a canvas. The first coordinate grows to the right,
the second one DOWNWARD. -/

namespace DragDrop

variable {α : Type} [Scalar α]

/-- A position on a canvas, in pixels. -/
structure Point (α : Type) where
  x : α
  y : α

/-- A rectangle by its corners: upper left, then lower right. -/
structure Rect (α : Type) where
  left : α
  top : α
  right : α
  bottom : α

/-- The directions in which a layout can run. -/
inductive Axis where
  /-- From left to right. -/
  | across
  /-- From top to bottom. -/
  | down
deriving DecidableEq, Repr

namespace Rect

def width (r : Rect α) : α := r.right - r.left

def height (r : Rect α) : α := r.bottom - r.top

/-- The least rectangle around both. A corner that is no number does not count. -/
def union (r s : Rect α) : Rect α where
  left := Scalar.lesser r.left s.left
  top := Scalar.lesser r.top s.top
  right := Scalar.greater r.right s.right
  bottom := Scalar.greater r.bottom s.bottom

/-- The least rectangle around all of them, if there are any. -/
def unions : List (Rect α) → Option (Rect α)
  | [] => none
  | r :: rs => some (rs.foldl union r)

/-- The edge at which a run along the axis meets the rectangle first. -/
def near (r : Rect α) : Axis → α
  | .across => r.left
  | .down => r.top

/-- The edge at which a run along the axis leaves the rectangle. -/
def far (r : Rect α) : Axis → α
  | .across => r.right
  | .down => r.bottom

/-- The edges belong to the rectangle. -/
def Contains (r : Rect α) (p : Point α) : Prop :=
  (r.left ≤ p.x ∧ p.x ≤ r.right) ∧ (r.top ≤ p.y ∧ p.y ≤ r.bottom)

instance (r : Rect α) (p : Point α) : Decidable (r.Contains p) :=
  inferInstanceAs (Decidable (_ ∧ _))

@[simp] theorem unions_eq_none_iff {rs : List (Rect α)} : unions rs = none ↔ rs = [] := by
  cases rs <;> simp [unions]

end Rect

end DragDrop
