import DragDrop.Json.Compound
import DragDrop.Json.Value
import DragDrop.Layout

/-! Names as JSON: those that somebody chose, and those of a fixed set. Each type
has its written form, `toJson`, and a reader for it, `fromJson`. The names of a
fixed set are listed ONCE, for both; the `lookup_nameIn` lemmas say that a name
stands for the value it was written for. -/

namespace DragDrop

open Json

/-- The written name of a value that is listed with one. -/
def nameIn {α : Type} [DecidableEq α] (names : List (String × α)) (a : α) : String :=
  ((names.find? (·.2 = a)).map Prod.fst).getD ""

namespace Alignment

def names : List (String × Alignment) :=
  [("none", .none), ("start", .start), ("center", .center), ("end", .finish)]

theorem lookup_nameIn (a : Alignment) : names.lookup (nameIn names a) = some a := by
  cases a <;> rfl

def toJson (a : Alignment) : Value := .text (nameIn names a)

def fromJson : Reader Alignment := readChoice names

end Alignment

namespace LayoutKind

def names : List (String × LayoutKind) :=
  [("ALIGNED_COLUMN", .alignedColumn), ("ALIGNED_ROW", .alignedRow), ("COLUMN", .column),
    ("ROW", .row)]

theorem lookup_nameIn (k : LayoutKind) : names.lookup (nameIn names k) = some k := by
  cases k <;> rfl

def toJson (k : LayoutKind) : Value := .text (nameIn names k)

def fromJson : Reader LayoutKind := readChoice names

end LayoutKind

namespace Sizing

def names : List (String × Sizing) := [("fill", .fill), ("hug", .hug)]

theorem lookup_nameIn (s : Sizing) : names.lookup (nameIn names s) = some s := by
  cases s <;> rfl

def toJson (s : Sizing) : Value := .text (nameIn names s)

def fromJson : Reader Sizing := readChoice names

end Sizing

namespace WidgetId

def toJson (w : WidgetId) : Value := .text w.text

def fromJson : Reader WidgetId := readText.map WidgetId.mk

end WidgetId

namespace LayoutId

def toJson (l : LayoutId) : Value := .text l.text

def fromJson : Reader LayoutId := readText.map LayoutId.mk

end LayoutId

end DragDrop
