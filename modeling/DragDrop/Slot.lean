import DragDrop.Identifier

/-! Where a drop would put the dragged widgets. The geometry never looks at
this: it rides along with each highlight for whoever commits the drop. -/

namespace DragDrop

/-- Alignment of a child within its layer. -/
inductive Alignment where
  | none
  | start
  | center
  | finish
deriving DecidableEq, Repr, Inhabited

/-- An insertion point in the widget tree. What is left out is the start of the
main canvas itself. -/
structure Slot where
  alignment : Alignment := .none
  /-- The canvas that owns the layout. -/
  canvas : WidgetId := mainCanvas
  /-- The layouts from the outermost down to the one inserted into. -/
  path : List LayoutId := []
  /-- How many children of that layout stay in front of what is inserted. -/
  row : Nat := 0
deriving DecidableEq, Repr, Inhabited

/-- The layout inserted into, if there is one. -/
def Slot.parent (s : Slot) : Option LayoutId := s.path.getLast?

end DragDrop
