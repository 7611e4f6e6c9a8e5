import DragDrop.Widget
import DragDrop.Wire.Name

/-! Widgets and their places as JSON. -/

namespace DragDrop

open Json

namespace DraggedWidget

/-- A dragged widget that is not yet complete. -/
structure Draft where
  id : Option WidgetId := none
  kind : Option String := none
  sizing : Option Sizing := none

def shape : Shape Draft DraggedWidget where
  name := "DraggedWidget"
  fields := [
    .of "widgetId" (·.id) (fun d v => { d with id := some v }) WidgetId.fromJson,
    .of "type" (·.kind) (fun d v => { d with kind := some v }) readText,
    .of "responsiveBehavior" (·.sizing) (fun d v => { d with sizing := some v }) Sizing.fromJson]
  blank := {}
  finish d := do
    let id ← d.id.getDM (throw "widgetId")
    let kind ← d.kind.getDM (throw "type")
    let sizing ← d.sizing.getDM (throw "responsiveBehavior")
    return { id, kind, sizing }

def fromJson : Reader DraggedWidget := shape.read

def toJson (w : DraggedWidget) : Value := .object [
  ("widgetId", w.id.toJson),
  ("type", .text w.kind),
  ("responsiveBehavior", w.sizing.toJson)]

end DraggedWidget

namespace Placement

/-- A placement that is not yet complete. -/
structure Draft where
  left : Option Float := none
  top : Option Float := none
  width : Option Float := none
  height : Option Float := none

def shape : Shape Draft (Placement Float) where
  name := "PositionData"
  fields := [
    .of "left" (·.left) (fun d v => { d with left := some v }) readDouble,
    .of "top" (·.top) (fun d v => { d with top := some v }) readDouble,
    .of "width" (·.width) (fun d v => { d with width := some v }) readDouble,
    .of "height" (·.height) (fun d v => { d with height := some v }) readDouble]
  blank := {}
  finish d := do
    let left ← d.left.getDM (throw "left")
    let top ← d.top.getDM (throw "top")
    let width ← d.width.getDM (throw "width")
    let height ← d.height.getDM (throw "height")
    return { left, top, width, height }

def fromJson : Reader (Placement Float) := shape.read

def toJson (p : Placement Float) : Value := .object [
  ("left", .double p.left),
  ("top", .double p.top),
  ("width", .double p.width),
  ("height", .double p.height)]

end Placement

namespace Arrangement

/-- Of two places for one widget the later one counts. -/
def fromJson : Reader (Arrangement Float) :=
  readObject Placement.fromJson (fun a name p => a.insert ⟨name⟩ p) ∅

/-- The members are in the order of their names. -/
def toJson (a : Arrangement Float) : Value :=
  .object (a.toList.map fun e => (e.1.text, e.2.toJson))

end Arrangement

end DragDrop
