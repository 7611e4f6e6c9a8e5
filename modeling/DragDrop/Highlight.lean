import DragDrop.Geometry
import DragDrop.Slot

/-! Highlights: the thin bars between widgets that a drag can end on. A vertical
bar stands between the widgets of a row, a horizontal one lies between those of
a column. Bars may come from outside with any numbers in them; `normalized` is
the form in which extents and tolerances are cut off at zero, and it is stable. -/

namespace DragDrop

variable {α : Type} [Scalar α]

/-- How far beyond a bar the pointer still counts, side by side. A side that is
`none` was not declared; that is NOT the same as zero. -/
structure DropZone (α : Type) where
  top : Option α := none
  bottom : Option α := none
  left : Option α := none
  right : Option α := none
deriving BEq

namespace DropZone

/-- Cuts the declared tolerances off at zero. -/
def normalized (z : DropZone α) : DropZone α where
  top := z.top.map Scalar.nonneg
  bottom := z.bottom.map Scalar.nonneg
  left := z.left.map Scalar.nonneg
  right := z.right.map Scalar.nonneg

/-- The sides that matter to a vertical bar. -/
def leftRight (left right : α) : DropZone α :=
  normalized { left := some left, right := some right }

/-- The sides that matter to a horizontal bar. -/
def topBottom (top bottom : α) : DropZone α :=
  normalized { top := some top, bottom := some bottom }

/-- The declared tolerances, in the order of the sides. -/
def declared (z : DropZone α) : List α :=
  [z.top, z.bottom, z.left, z.right].filterMap id

theorem forall_mem_declared {α : Type} {z : DropZone α} {P : α → Prop} :
    (∀ x ∈ z.declared, P x) ↔ (∀ x ∈ z.top, P x) ∧ (∀ x ∈ z.bottom, P x) ∧
      (∀ x ∈ z.left, P x) ∧ ∀ x ∈ z.right, P x := by
  simp only [declared, List.mem_filterMap, List.mem_cons, List.not_mem_nil, or_false, id,
    Option.mem_def]
  grind

@[simp] theorem normalized_normalized (z : DropZone α) : z.normalized.normalized = z.normalized := by
  have h (s : Option α) : (s.map Scalar.nonneg).map Scalar.nonneg = s.map Scalar.nonneg := by
    cases s <;> simp
  simp only [normalized, h]

end DropZone

/-- A bar by its upper left corner and its extents. -/
structure Bar (α : Type) where
  x : α
  y : α
  width : α
  height : α
  zone : DropZone α := {}
  slot : Slot := {}
deriving BEq

namespace Bar

/-- A bar that declares nothing. Extents below zero span nothing. -/
def ofExtents (x y width height : α) : Bar α where
  x := x
  y := y
  width := Scalar.nonneg width
  height := Scalar.nonneg height

def withZone (b : Bar α) (z : DropZone α) : Bar α := { b with zone := z.normalized }

def withSlot (b : Bar α) (s : Slot) : Bar α := { b with slot := s }

/-- The same bar, built afresh from its own numbers. -/
def normalized (b : Bar α) : Bar α :=
  ((ofExtents b.x b.y b.width b.height).withZone b.zone).withSlot b.slot

/-- The box that the bar fills. Extents are cut off here TOO, so no bar has a
box that is inside out. -/
def bounds (b : Bar α) : Rect α where
  left := b.x
  top := b.y
  right := b.x + Scalar.nonneg b.width
  bottom := b.y + Scalar.nonneg b.height

@[simp] theorem normalized_normalized (b : Bar α) : b.normalized.normalized = b.normalized := by
  simp [normalized, ofExtents, withZone, withSlot]

@[simp] theorem bounds_normalized (b : Bar α) : b.normalized.bounds = b.bounds := by
  simp [normalized, ofExtents, withZone, withSlot, bounds]

@[simp] theorem slot_normalized (b : Bar α) : b.normalized.slot = b.slot := rfl

end Bar

/-- A place that a drag can end on. -/
inductive Highlight (α : Type) where
  /-- Between widgets side by side. The height is the span. -/
  | vertical (bar : Bar α)
  /-- Between widgets one above the other. The width is the span. -/
  | horizontal (bar : Bar α)
deriving BEq

namespace Highlight

def isVertical {α : Type} : Highlight α → Bool
  | vertical _ => true
  | horizontal _ => false

def bar {α : Type} : Highlight α → Bar α
  | vertical b | horizontal b => b

def slot {α : Type} (h : Highlight α) : Slot := h.bar.slot

def bounds (h : Highlight α) : Rect α := h.bar.bounds

def normalized : Highlight α → Highlight α
  | vertical b => vertical b.normalized
  | horizontal b => horizontal b.normalized

@[simp] theorem normalized_normalized (h : Highlight α) :
    h.normalized.normalized = h.normalized := by
  cases h <;> simp [normalized]

@[simp] theorem isVertical_normalized (h : Highlight α) :
    h.normalized.isVertical = h.isVertical := by
  cases h <;> rfl

@[simp] theorem slot_normalized (h : Highlight α) : h.normalized.slot = h.slot := by
  cases h <;> rfl

end Highlight

end DragDrop
