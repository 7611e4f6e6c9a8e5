import DragDrop.Slot
import DragDrop.Wire.Name

/-! Slots as JSON. All four members have to be there when one is read. -/

namespace DragDrop

open Json

namespace Slot

/-- A slot that is not yet complete. -/
structure Draft where
  alignment : Option Alignment := none
  canvas : Option WidgetId := none
  path : Option (List LayoutId) := none
  row : Option Nat := none

def shape : Shape Draft Slot where
  name := "HighlightInfo"
  fields := [
    .of "alignment" (·.alignment) (fun d v => { d with alignment := some v }) Alignment.fromJson,
    .of "canvasId" (·.canvas) (fun d v => { d with canvas := some v }) WidgetId.fromJson,
    .of "layoutOrder" (·.path) (fun d v => { d with path := some v }) (readList LayoutId.fromJson),
    .of "rowIndex" (·.row) (fun d v => { d with row := some v }) readNatural]
  blank := {}
  finish d := do
    let alignment ← d.alignment.getDM (throw "alignment")
    let canvas ← d.canvas.getDM (throw "canvasId")
    let path ← d.path.getDM (throw "layoutOrder")
    let row ← d.row.getDM (throw "rowIndex")
    return { alignment, canvas, path, row }

def fromJson : Reader Slot := shape.read

/-- The members of a slot. -/
def members (s : Slot) : List (String × Value) := [
  ("alignment", s.alignment.toJson),
  ("canvasId", s.canvas.toJson),
  ("layoutOrder", .list (s.path.map LayoutId.toJson)),
  ("rowIndex", .integer s.row)]

def toJson (s : Slot) : Value := .object s.members

end Slot

end DragDrop
