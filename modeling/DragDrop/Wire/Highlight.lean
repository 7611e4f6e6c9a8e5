import DragDrop.Highlight
import DragDrop.Wire.Slot

/-! Highlights as JSON. A highlight travels as a FLAT record, with a flag for the
orientation and the slot's fields among its own; whatever numbers come in, the
highlight made of them is normalized. A list of highlights is a text of its own,
which is never written with a number in it that is not finite. -/

namespace DragDrop

open Json

namespace DropZone

/-- A zone that is not yet complete: a side can be missing, or be there as
`null`. -/
structure Draft where
  top : Option (Option Float) := none
  bottom : Option (Option Float) := none
  left : Option (Option Float) := none
  right : Option (Option Float) := none

def shape : Shape Draft (DropZone Float) where
  name := "DropZone"
  fields := [
    .of "top" (·.top) (fun d v => { d with top := some v }) (readOptional readDouble),
    .of "bottom" (·.bottom) (fun d v => { d with bottom := some v }) (readOptional readDouble),
    .of "left" (·.left) (fun d v => { d with left := some v }) (readOptional readDouble),
    .of "right" (·.right) (fun d v => { d with right := some v }) (readOptional readDouble)]
  blank := {}
  finish d := return {
    top := d.top.join, bottom := d.bottom.join, left := d.left.join, right := d.right.join }

/-- Reads a zone as it is, without cutting anything off. -/
def fromJson : Reader (DropZone Float) := shape.read

/-- The declared sides. -/
def toJson (z : DropZone Float) : Value := .object <|
  [("top", z.top), ("bottom", z.bottom), ("left", z.left), ("right", z.right)].filterMap
    fun side => side.2.map fun x => (side.1, .double x)

end DropZone

/-- A highlight as it travels. -/
structure Record where
  isVertical : Bool
  x : Float
  y : Float
  width : Float
  height : Float
  zone : DropZone Float := {}
  slot : Slot := {}

namespace Record

/-- A record that is not yet complete. -/
structure Draft where
  isVertical : Option Bool := none
  x : Option Float := none
  y : Option Float := none
  width : Option Float := none
  height : Option Float := none
  zone : Option (DropZone Float) := none
  alignment : Option Alignment := none
  canvas : Option WidgetId := none
  path : Option (List LayoutId) := none
  row : Option Nat := none

/-- Only the geometry has to be there. -/
def shape : Shape Draft Record where
  name := "HighlightRecord"
  fields := [
    .of "isVertical" (·.isVertical) (fun d v => { d with isVertical := some v }) readBoolean,
    .of "posX" (·.x) (fun d v => { d with x := some v }) readDouble,
    .of "posY" (·.y) (fun d v => { d with y := some v }) readDouble,
    .of "width" (·.width) (fun d v => { d with width := some v }) readDouble,
    .of "height" (·.height) (fun d v => { d with height := some v }) readDouble,
    .of "dropZone" (·.zone) (fun d v => { d with zone := some v }) DropZone.fromJson,
    .of "alignment" (·.alignment) (fun d v => { d with alignment := some v }) Alignment.fromJson,
    .of "canvasId" (·.canvas) (fun d v => { d with canvas := some v }) WidgetId.fromJson,
    .of "layoutOrder" (·.path) (fun d v => { d with path := some v }) (readList LayoutId.fromJson),
    .of "rowIndex" (·.row) (fun d v => { d with row := some v }) readNatural]
  blank := {}
  finish d := do
    let isVertical ← d.isVertical.getDM (throw "isVertical")
    let x ← d.x.getDM (throw "posX")
    let y ← d.y.getDM (throw "posY")
    let width ← d.width.getDM (throw "width")
    let height ← d.height.getDM (throw "height")
    let start : Slot := {}
    return {
      isVertical, x, y, width, height
      zone := d.zone.getD {}
      slot := {
        alignment := d.alignment.getD start.alignment
        canvas := d.canvas.getD start.canvas
        path := d.path.getD start.path
        row := d.row.getD start.row } }

def fromJson : Reader Record := shape.read

def toJson (r : Record) : Value := .object <| [
  ("isVertical", .boolean r.isVertical),
  ("posX", .double r.x),
  ("posY", .double r.y),
  ("width", .double r.width),
  ("height", .double r.height),
  ("dropZone", r.zone.toJson)] ++ r.slot.members

/-- The bar that the record describes, normalized. -/
def bar (r : Record) : Bar Float :=
  ((Bar.ofExtents r.x r.y r.width r.height).withZone r.zone).withSlot r.slot

def toHighlight (r : Record) : Highlight Float :=
  if r.isVertical then .vertical r.bar else .horizontal r.bar

end Record

namespace Highlight

def toRecord (h : Highlight Float) : Record where
  isVertical := h.isVertical
  x := h.bar.x
  y := h.bar.y
  width := h.bar.width
  height := h.bar.height
  zone := h.bar.zone
  slot := h.bar.slot

/-- A record made of a highlight, and turned back, is normalized by that. -/
theorem toHighlight_toRecord (h : Highlight Float) : h.toRecord.toHighlight = h.normalized := by
  cases h <;> rfl

def fromJson : Reader (Highlight Float) := Record.fromJson.map Record.toHighlight

def toJson (h : Highlight Float) : Value := h.toRecord.toJson

/-- The numbers of a highlight, the declared tolerances among them. -/
def numbers (h : Highlight Float) : List Float :=
  [h.bar.x, h.bar.y, h.bar.width, h.bar.height] ++ h.bar.zone.declared

/-- Whether the highlight can be written down. -/
def isFinite (h : Highlight Float) : Bool := h.numbers.all Float.isFinite

end Highlight

namespace HighlightList

/-- What is wrong with a text that ought to be a list of highlights. -/
def faultMessage (text : List Char) (f : Fault) : String :=
  s!"invalid highlight list at line {(f.place text).1}: {f.message text}"

/-- Reads a list of highlights, and normalizes them. -/
def read (text : List Char) : Except Fault (List (Highlight Float)) :=
  readAll (readList Highlight.fromJson) text

/-- Reads a list of highlights, or says what is wrong with it. -/
def decode (text : String) : Except String (List (Highlight Float)) :=
  (read text.toList).mapError (faultMessage text.toList)

/-- A highlight of a list that has a number in it that is not finite. -/
structure NotFinite where
  index : Nat
deriving DecidableEq, Repr

def NotFinite.message (e : NotFinite) : String := s!"highlight {e.index} has non-finite geometry"

/-- Writes a list over many lines, unless some highlight cannot be written. -/
def write (hs : List (Highlight Float)) : Except NotFinite (List Char) :=
  match hs.findIdx? (!·.isFinite) with
  | some i => .error ⟨i⟩
  | none => .ok ((Value.list (hs.map Highlight.toJson)).write (some 0))

/-- Writes a list, or says why it cannot be written. -/
def encode (hs : List (Highlight Float)) : Except String String :=
  ((write hs).map String.ofList).mapError NotFinite.message

end HighlightList

end DragDrop
