import DragDrop.Layout
import Mathlib.Data.List.Basic

/-! Three ways to take a child out of a layout: it is dragged, it is no child any more, or it
was not measured. What the layout offers then is the SAME, since all that it sees of them is
the list of the children on screen, each with its rectangle. So it does not see either in
which order the widgets were picked up, or where any widget is that is none of its children. -/

namespace DragDrop

variable {α : Type}

/-- The same places, but for those of these widgets. -/
def Arrangement.without (a : Arrangement α) (ws : List WidgetId) : Arrangement α where
  places := a.places.filter (·.1 ∉ ws)
  nodup := a.nodup.sublist (List.filter_sublist.map _)

theorem Arrangement.get?_without (a : Arrangement α) (ws : List WidgetId) (w : WidgetId) :
    (a.without ws).get? w = if w ∈ ws then none else a.get? w := by
  rw [get?, without, lookup_filter (· ∉ ws)]
  by_cases hw : w ∈ ws
  · rw [if_pos hw, if_neg (by simpa using hw)]
  · rw [if_neg hw, if_pos (by simpa using hw)]
    rfl

/-- The widgets that are dragged, by their names alone. -/
abbrev draggedIds (dragged : List DraggedWidget) : List WidgetId := dragged.map DraggedWidget.id

namespace Layout

/-- The same layout with other children. -/
def withChildren (l : Layout) (children : List WidgetId) : Layout := { l with children }

/-- The same layout without these children. -/
def without (l : Layout) (ws : List WidgetId) : Layout :=
  l.withChildren (l.children.filter (· ∉ ws))

/-- Of the dragged widgets, only the names count, and of these only those of children. -/
theorem remaining_congr {l : Layout} {dragged dragged' : List DraggedWidget}
    (h : ∀ w ∈ l.children, w ∈ draggedIds dragged ↔ w ∈ draggedIds dragged') :
    l.remaining dragged = l.remaining dragged' := by
  apply List.filter_congr
  intro w hw
  rw [decide_eq_decide]
  exact not_congr (h w hw)

theorem remaining_without (l : Layout) (dragged : List DraggedWidget) :
    (l.without (draggedIds dragged)).remaining [] = l.remaining dragged := by
  rw [remaining, List.filter_eq_self.mpr]
  · rfl
  · intro w _
    exact decide_eq_true List.not_mem_nil

variable [Scalar α]

/-- Of the places, only those of the children count that stay. -/
theorem measured_congr {l l' : Layout} {q q' : Query α}
    (hremaining : l.remaining q.dragged = l'.remaining q'.dragged)
    (hplaces : ∀ w ∈ l.remaining q.dragged, q.positions.get? w = q'.positions.get? w) :
    l.measured q = l'.measured q' := by
  rw [measured, measured, ← hremaining]
  apply List.filterMap_congr
  intro w hw
  rw [hplaces w hw]

/-- Not measuring a child is as good as dragging it. -/
theorem measured_unplaced (l : Layout) (canvas : WidgetId) (positions : Arrangement α)
    (dragged : List DraggedWidget) :
    l.measured ⟨canvas, positions.without (draggedIds dragged), []⟩ =
      l.measured ⟨canvas, positions, dragged⟩ := by
  rw [measured, measured, remaining, remaining, List.filterMap_filter, List.filterMap_filter]
  apply List.filterMap_congr
  intro w _
  rw [Arrangement.get?_without]
  by_cases hw : w ∈ draggedIds dragged
  · simp [hw]
  · simp [hw]

/-- What a layout offers depends on its children through those on screen ONLY. -/
theorem highlights_congr {l l' : Layout} (hl : l' = l.withChildren l'.children) {q q' : Query α}
    (hcanvas : q.canvas = q'.canvas) (h : l.measured q = l'.measured q') :
    l.highlights q = l'.highlights q' := by
  unfold highlights
  rw [hcanvas, h, hl]
  rfl

/-- Neither the dragged widgets nor strangers leave a trace in what a layout offers: two drags
of the same children, over arrangements in which the others have the same places, are offered
the same. And a drag is offered what would be without those children, or without their
places, if nothing were dragged. -/
theorem highlights_traceless (l : Layout) (canvas : WidgetId) (positions : Arrangement α)
    (dragged : List DraggedWidget) :
    (∀ positions' dragged',
      (∀ w ∈ l.children, w ∈ draggedIds dragged ↔ w ∈ draggedIds dragged') →
      (∀ w ∈ l.children, w ∉ draggedIds dragged → positions.get? w = positions'.get? w) →
        l.highlights ⟨canvas, positions, dragged⟩ =
          l.highlights ⟨canvas, positions', dragged'⟩) ∧
      l.highlights ⟨canvas, positions, dragged⟩ =
        (l.without (draggedIds dragged)).highlights ⟨canvas, positions, []⟩ ∧
      l.highlights ⟨canvas, positions, dragged⟩ =
        l.highlights ⟨canvas, positions.without (draggedIds dragged), []⟩ := by
  refine ⟨?_, ?_, ?_⟩
  · intro positions' dragged' hids hplaces
    refine highlights_congr rfl rfl (measured_congr (remaining_congr hids) ?_)
    intro w hw
    obtain ⟨hchild, hstays⟩ := List.mem_filter.mp hw
    exact hplaces w hchild (of_decide_eq_true hstays)
  · exact highlights_congr rfl rfl
      (measured_congr (remaining_without l dragged).symm fun _ _ => rfl)
  · exact highlights_congr rfl rfl (measured_unplaced l canvas positions dragged).symm

/-- A column in which a child stands twice. -/
def playlist : Layout where
  canvas := mainCanvas
  kind := .column
  path := [⟨"playlist"⟩]
  children := [⟨"intro"⟩, ⟨"song"⟩, ⟨"encore"⟩, ⟨"song"⟩]

/-- That child is being dragged. -/
def playlistDrag : Query Float where
  canvas := mainCanvas
  positions := .ofList [(⟨"intro"⟩, ⟨0, 0, 200, 30⟩), (⟨"song"⟩, ⟨0, 30, 200, 30⟩),
    (⟨"encore"⟩, ⟨0, 60, 200, 30⟩)]
  dragged := [⟨⟨"song"⟩, "TRACK", .hug⟩]

/-- It was picked up twice, after a widget of another column, and it is somewhere else now. -/
def playlistRedrag : Query Float where
  canvas := mainCanvas
  positions := .ofList [(⟨"encore"⟩, ⟨0, 60, 200, 30⟩), (⟨"video"⟩, ⟨300, 0, 160, 90⟩),
    (⟨"song"⟩, ⟨0 / 0, 500, 1, 1⟩), (⟨"intro"⟩, ⟨0, 0, 200, 30⟩)]
  dragged := [⟨⟨"video"⟩, "VIDEO", .fill⟩, ⟨⟨"song"⟩, "TRACK", .fill⟩, ⟨⟨"song"⟩, "CLIP", .hug⟩]

theorem highlights_traceless_playlist :
    (∀ w ∈ playlist.children,
      w ∈ draggedIds playlistDrag.dragged ↔ w ∈ draggedIds playlistRedrag.dragged) ∧
    (∀ w ∈ playlist.children, w ∉ draggedIds playlistDrag.dragged →
      playlistDrag.positions.get? w = playlistRedrag.positions.get? w) ∧
    playlist.highlights playlistDrag = playlist.highlights playlistRedrag ∧
    (playlist.highlights playlistDrag).length = 3 := by
  have hids : ∀ w ∈ playlist.children,
      w ∈ draggedIds playlistDrag.dragged ↔ w ∈ draggedIds playlistRedrag.dragged := by decide
  have hplaces : ∀ w ∈ playlist.children, w ∉ draggedIds playlistDrag.dragged →
      playlistDrag.positions.get? w = playlistRedrag.positions.get? w := by
    intro w hw hstays
    simp only [playlist, List.mem_cons, List.not_mem_nil, or_false] at hw
    rcases hw with rfl | rfl | rfl | rfl
    · rfl
    · exact absurd List.mem_cons_self hstays
    · rfl
    · exact absurd List.mem_cons_self hstays
  exact ⟨hids, hplaces, (highlights_traceless playlist mainCanvas playlistDrag.positions
    playlistDrag.dragged).1 _ _ hids hplaces, rfl⟩

end Layout

end DragDrop
