import DragDrop.Highlight
import DragDrop.Widget

/-! Rows and columns. A layout offers one bar in front of each child on screen
and one after the last. Each bar reaches half way to its neighbours; the two
outermost sides declare ZERO. Children that are being dragged, or that were not
measured, have no bar of their own and leave no gap. -/

namespace DragDrop

variable {α : Type} [Scalar α]

/-- What a source of highlights is asked: which canvas, what is where on it, and
what is being dragged. -/
structure Query (α : Type) where
  canvas : WidgetId
  positions : Arrangement α
  dragged : List DraggedWidget

/-- Where highlights come from. -/
abbrev Source (α : Type) := Query α → List (Highlight α)

/-- The kinds of layout. -/
inductive LayoutKind where
  | alignedColumn
  | alignedRow
  | column
  | row
deriving DecidableEq, Repr, Inhabited

/-- Rows put their children side by side, columns one above the other. -/
def LayoutKind.axis : LayoutKind → Axis
  | .row | .alignedRow => .across
  | .column | .alignedColumn => .down

/-- One row or column of widgets. -/
structure Layout where
  canvas : WidgetId
  kind : LayoutKind
  /-- The layouts from the outermost down to this one. -/
  path : List LayoutId
  children : List WidgetId
  alignment : Alignment := .start
deriving DecidableEq, Repr, Inhabited

/-- An insertion point along a layout: where it is, and how far it reaches. -/
structure Stop (α : Type) where
  position : α
  before : α
  after : α

/-- Thickness of a bar, in pixels. -/
def barThickness : α := 4.0

/-- Pairs each position with half the gap to either neighbour. The gap in front
of the first one is given, and behind the last one there is none. -/
def Stop.chain (before : α) : List α → List (Stop α)
  | [] => []
  | [s] => [⟨s, before, 0⟩]
  | s :: t :: rest =>
    let gap := Scalar.half (Scalar.abs (t - s))
    ⟨s, before, gap⟩ :: chain gap (t :: rest)

theorem Stop.map_position_chain (before : α) (l : List α) :
    (Stop.chain before l).map Stop.position = l := by
  induction l generalizing before with
  | nil => rfl
  | cons s l ih =>
    cases l with
    | nil => rfl
    | cons t rest => simp [Stop.chain, ih]

@[simp] theorem Stop.length_chain (before : α) (l : List α) :
    (Stop.chain before l).length = l.length := by
  simpa using congrArg List.length (Stop.map_position_chain before l)

namespace Layout

/-- The children that stay in the layout while the drag goes on. -/
def remaining (l : Layout) (dragged : List DraggedWidget) : List WidgetId :=
  l.children.filter fun w => w ∉ dragged.map DraggedWidget.id

/-- Those of them that were measured, each with its rectangle. -/
def measured (l : Layout) (q : Query α) : List (WidgetId × Rect α) :=
  (l.remaining q.dragged).filterMap fun w => (q.positions.get? w).map fun p => (w, p.rect)

/-- The insertion points: the near edge of each rectangle, then the far edge of
the last one. -/
def stops (axis : Axis) (rects : List (Rect α)) : List α :=
  rects.map (·.near axis) ++ (rects.getLast?.map (·.far axis)).toList

/-- The slot in front of the child with this number. -/
def slot (l : Layout) (row : Nat) : Slot where
  alignment := l.alignment
  canvas := l.canvas
  path := l.path
  row := row

/-- The bar at an insertion point, drawn over the whole span of the layout. -/
def bar (l : Layout) (span : Rect α) (s : Stop α) (row : Nat) : Highlight α :=
  match l.kind.axis with
  | .across => .vertical <|
    ((Bar.ofExtents s.position span.top barThickness span.height).withZone
      (.leftRight s.before s.after)).withSlot (l.slot row)
  | .down => .horizontal <|
    ((Bar.ofExtents span.left s.position span.width barThickness).withZone
      (.topBottom s.before s.after)).withSlot (l.slot row)

/-- The highlights of a layout. It offers none on a foreign canvas, and none
where no child is on screen. -/
def highlights (l : Layout) : Source α := fun q =>
  if q.canvas ≠ l.canvas then []
  else
    let rects := (l.measured q).map Prod.snd
    match Rect.unions rects with
    | none => []
    | some span =>
      (Stop.chain 0 (stops l.kind.axis rects)).zipIdx.map fun s => l.bar span s.1 s.2

omit [Scalar α] in
theorem length_stops (axis : Axis) {rects : List (Rect α)} (h : rects ≠ []) :
    (stops axis rects).length = rects.length + 1 := by
  simp [stops, List.getLast?_eq_some_getLast h]

@[simp] theorem slot_bar (l : Layout) (span : Rect α) (s : Stop α) (row : Nat) :
    (l.bar span s row).slot = l.slot row := by
  unfold bar
  split <;> rfl

end Layout

end DragDrop
