import DragDrop.Geometry
import DragDrop.Identifier

/-! What the library has to say about its own work, as values. The wording is
in `DragDrop.Journal.Text`. -/

namespace DragDrop

/-- How much a note matters. -/
inductive Level where
  | debug
  | trace
deriving DecidableEq, Repr

/-- One remark. -/
inductive Note (α : Type) where
  /-- So many highlights of the list catch the pointer. -/
  | viable (count total : Nat) (pointer : Point α) (biased : Bool)
  /-- The nearest of them, and how far it is. -/
  | closest (row : Nat) (parent : Option LayoutId) (distance : α)
  /-- The target under the pointer is another one than before. -/
  | target (canvas : WidgetId) (row : Option Nat)
  /-- So many widgets are dropped. -/
  | dropping (count : Nat) (canvas : WidgetId) (row : Nat)
  /-- A drop that hits nothing. -/
  | nothing (canvas : WidgetId)

/-- Selection is remarked on in detail only; a session speaks up. -/
def Note.level {α : Type} : Note α → Level
  | viable .. | closest .. => .trace
  | target .. | dropping .. | nothing .. => .debug

end DragDrop
