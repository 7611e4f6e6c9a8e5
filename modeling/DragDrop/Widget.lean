import DragDrop.Geometry
import DragDrop.Identifier

/-! Widgets: those that are being dragged, and where the others were last seen.
Main statement: `Arrangement.get?_insert`, which says all that an arrangement
remembers. -/

namespace DragDrop

variable {α : Type} [Scalar α]

/-- How a widget sizes itself along the run of its layout. -/
inductive Sizing where
  | fill
  | hug
deriving DecidableEq, Repr, Inhabited

/-- A widget under the pointer. -/
structure DraggedWidget where
  id : WidgetId
  /-- The kind of widget, a plain word to everything here. -/
  kind : String
  sizing : Sizing
deriving DecidableEq, Repr, Inhabited

/-- The measured place of a widget that is on screen. -/
structure Placement (α : Type) where
  left : α
  top : α
  width : α
  height : α
deriving BEq

/-- What is not measured is a point in the corner of the canvas. -/
instance : Inhabited (Placement α) := ⟨⟨0, 0, 0, 0⟩⟩

def Placement.rect (p : Placement α) : Rect α where
  left := p.left
  top := p.top
  right := p.left + p.width
  bottom := p.top + p.height

/-- The measured places of widgets. Each widget has at most ONE. -/
structure Arrangement (α : Type) where
  places : List (WidgetId × Placement α)
  nodup : (places.map Prod.fst).Nodup

namespace Arrangement

variable {α : Type}

def empty : Arrangement α := ⟨[], List.nodup_nil⟩

instance : EmptyCollection (Arrangement α) := ⟨empty⟩

instance : Inhabited (Arrangement α) := ⟨empty⟩

/-- The place of a widget, if it was measured. -/
def get? (a : Arrangement α) (w : WidgetId) : Option (Placement α) := a.places.lookup w

/-- Places a widget. An earlier place of it is forgotten. -/
def insert (a : Arrangement α) (w : WidgetId) (p : Placement α) : Arrangement α where
  places := (w, p) :: a.places.filter (·.1 ≠ w)
  nodup := by
    rw [List.map_cons, List.nodup_cons]
    exact ⟨by simp, a.nodup.sublist (List.filter_sublist.map _)⟩

/-- Takes measurements in order: of two for one widget the LATER one counts. -/
def ofList (l : List (WidgetId × Placement α)) : Arrangement α :=
  l.foldl (fun a e => a.insert e.1 e.2) ∅

/-- How many widgets were measured. -/
def size (a : Arrangement α) : Nat := a.places.length

/-- The measurements in the order of the widgets' names. -/
def toList (a : Arrangement α) : List (WidgetId × Placement α) :=
  a.places.mergeSort fun e f => decide (e.1.text ≤ f.1.text)

@[simp] theorem get?_empty (w : WidgetId) : (∅ : Arrangement α).get? w = none := rfl

/-- Widgets that are not kept have no place any more, and all the others have theirs. -/
theorem lookup_filter (keep : WidgetId → Bool) (w : WidgetId)
    (l : List (WidgetId × Placement α)) :
    (l.filter (keep ·.1)).lookup w = if keep w then l.lookup w else none := by
  induction l with
  | nil => exact (ite_self none).symm
  | cons e l ih =>
    obtain ⟨u, p⟩ := e
    rw [List.filter_cons, List.lookup_cons]
    by_cases hu : w = u
    · subst hu
      by_cases hw : keep w
      · simp [hw]
      · simp [hw, ih]
    · have hne : (w == u) = false := by simpa using hu
      rw [hne]
      split
      · rw [List.lookup_cons, hne, ih]
      · exact ih

theorem get?_insert (a : Arrangement α) (v w : WidgetId) (p : Placement α) :
    (a.insert w p).get? v = if v = w then some p else a.get? v := by
  simp only [get?, insert, List.lookup_cons]
  by_cases h : v = w
  · simp [h]
  · have hv : (v == w) = false := by simpa using h
    rw [if_neg h, hv, lookup_filter (· ≠ w)]
    exact if_pos (by simpa using h)

end Arrangement

end DragDrop
