import DragDrop.Decimal.Style
import DragDrop.Journal

/-! The wording of the remarks. -/

namespace DragDrop

def Level.text : Level → String
  | .debug => "DEBUG"
  | .trace => "TRACE"

namespace Note

private def number (x : Float) : String := String.ofList (noteStyle.text x)

/-- What may be missing is shown as such. -/
private def optional {β : Type} (text : β → String) : Option β → String
  | none => "None"
  | some b => s!"Some({text b})"

def message : Note Float → String
  | viable count total p biased =>
    s!"{count} of {total} highlights viable at ({number p.x}, {number p.y}), " ++
      s!"vertical bias: {biased}"
  | closest row parent distance =>
    s!"closest highlight: row {row} of {optional LayoutId.described parent}, " ++
      s!"distance {number distance}"
  | target canvas row => s!"drop target on {canvas.text} -> {optional Nat.repr row}"
  | dropping count canvas row => s!"dropping {count} widget(s) on {canvas.text} at row {row}"
  | nothing canvas => s!"drop on {canvas.text} with no target"

/-- The whole line: how much it matters, and what it says. -/
def line (n : Note Float) : String := n.level.text ++ " " ++ n.message

end Note

end DragDrop
