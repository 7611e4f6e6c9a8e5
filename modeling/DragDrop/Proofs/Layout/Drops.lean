import DragDrop.Proofs.Layout.Rows
import DragDrop.Proofs.Session

/-! Where a drag over layouts can end. What is committed is a bar of the layout that was
in force AT THE DROP, asked with the places measured last before it, so it lies on the
canvas of the session and among the children on screen. Other layouts that came by in
the run, and other places, leave no trace in it. -/

namespace DragDrop

variable {α : Type}

/-- What can happen to a drag over layouts. The layout may be another one each time. -/
inductive Move (α : Type) where
  | event (event : Event α) (layout : Layout)
  | measure (positions : Arrangement α)

/-- How many children of the layout were measured and are not being dragged. -/
def Layout.onScreen (l : Layout) (q : Query α) : Nat :=
  l.children.countP fun w => q.shows w ∧ ∀ d ∈ q.dragged, d.id ≠ w

/-- A drop that belongs to this layout, as things are where this is asked. -/
structure Drop.Within (d : Drop α) (l : Layout) (q : Query α) : Prop where
  dragged : d.dragged = q.dragged
  canvas : d.canvas = q.canvas
  parent : d.parent = l.path.getLast?
  alignment : d.highlight.slot.alignment = l.alignment
  row_le : d.row ≤ l.onScreen q

namespace Layout

variable {l : Layout} {q : Query α}

theorem countP_remaining : (l.remaining q.dragged).countP q.shows = l.onScreen q := by
  rw [remaining, List.countP_filter, onScreen]
  apply List.countP_congr
  intro w _
  have hstays : w ∉ q.dragged.map DraggedWidget.id ↔ ∀ d ∈ q.dragged, d.id ≠ w := by
    simp only [List.mem_map, not_exists, not_and, ne_eq]
  simp only [hstays, decide_eq_true_eq, Bool.and_eq_true, Bool.decide_and, Bool.decide_eq_true]

variable [Scalar α]

theorem length_measured_eq_onScreen : (l.measured q).length = l.onScreen q :=
  length_measured.trans countP_remaining

/-- One bar in front of each child on screen, and one behind them all. -/
theorem length_highlights (hcanvas : q.canvas = l.canvas) (hmeasured : l.measured q ≠ []) :
    (l.highlights q).length = l.onScreen q + 1 := by
  rw [length_bars hcanvas hmeasured, length_measured_eq_onScreen]

/-- Every bar is stamped with its layout, and no row is past the last child on screen. -/
theorem slot_of_mem_highlights {h : Highlight α} (hh : h ∈ l.highlights q) :
    ∃ row ≤ l.onScreen q, h.slot = l.slot row := by
  obtain ⟨hcanvas, hmeasured⟩ := measured_of_mem_highlights hh
  obtain ⟨row, hrow⟩ := List.mem_iff_getElem?.mp hh
  obtain ⟨-, -, hslot⟩ := bar_of_getElem? hcanvas hmeasured hrow
  have hlt : row < (l.highlights q).length := (List.getElem?_eq_some_iff.mp hrow).1
  rw [length_highlights hcanvas hmeasured] at hlt
  exact ⟨row, Nat.le_of_lt_succ hlt, hslot⟩

theorem highlights_eq_nil (h : l.onScreen q = 0 ∨ l.canvas ≠ q.canvas) : l.highlights q = [] := by
  apply List.eq_nil_iff_forall_not_mem.mpr
  intro x hx
  obtain ⟨hcanvas, hmeasured⟩ := measured_of_mem_highlights hx
  rcases h with hnone | hforeign
  · rw [← length_measured_eq_onScreen, List.length_eq_zero_iff] at hnone
    exact hmeasured hnone
  · exact hforeign hcanvas.symm

/-- What a layout offers belongs to it. -/
theorem within_of_mem_highlights {d : Drop α} (hd : d.dragged = q.dragged)
    (hh : d.highlight ∈ l.highlights q) : d.Within l q := by
  obtain ⟨hcanvas, -⟩ := measured_of_mem_highlights hh
  obtain ⟨row, hrow, hslot⟩ := slot_of_mem_highlights hh
  exact {
    dragged := hd
    canvas := by rw [hcanvas, Drop.canvas, hslot]; rfl
    parent := by rw [Drop.parent, hslot]; rfl
    alignment := by rw [hslot]; rfl
    row_le := by rw [Drop.row, hslot]; exact hrow }

end Layout

/-- Moves are steps whose highlights come from layouts. -/
def Move.step [Scalar α] : Move α → Step α
  | event e l => .event e l.highlights
  | measure positions => .measure positions

namespace Session

variable [Scalar α] {s : Session α}

/-- The selection gives back what it was given, unchanged. -/
theorem mem_of_picked {source : Source α} {p : Point α} {h : Highlight α}
    (hp : s.picked source p = some h) : h ∈ source s.query := by
  obtain ⟨picked, hpicked, rfl⟩ := Option.map_eq_some_iff.mp hp
  exact List.mem_of_getElem? (Selection.mem_of_pick hpicked)

theorem picked_eq_none {source : Source α} (h : source s.query = []) (p : Point α) :
    s.picked source p = none := by
  apply Option.eq_none_iff_forall_ne_some.mpr
  intro x hx
  have hmem := mem_of_picked hx
  rw [h] at hmem
  exact absurd hmem List.not_mem_nil

/-- Only the pointer letting go commits a drop, and it commits what was picked there. -/
theorem Answers.exists_drop {a : Step α} {r : Reply α} (h : Answers s a r) {d : Drop α}
    (hd : r.drop? = some d) :
    ∃ p source, a = .event (.drop p) source ∧ s.finished = false ∧
      s.picked source p = some d.highlight := by
  cases h with
  | commits p source notes h running hits =>
    obtain rfl : ⟨s.dragged, h⟩ = d := Option.some.inj hd
    exact ⟨p, source, rfl, running, hits⟩
  | _ => cases hd

variable [BEq α]

/-- A drop of a run was committed by one of its steps, in a session that was running. -/
theorem exists_drop_of_mem_drops {steps : List (Step α)} {d : Drop α} (hd : d ∈ s.drops steps) :
    ∃ before p source later, steps = before ++ .event (.drop p) source :: later ∧
      (s.after before).finished = false ∧ (s.after before).picked source p = some d.highlight := by
  induction steps generalizing s with
  | nil => cases hd
  | cons a steps ih =>
    cases hc : (s.step a).drop? with
    | none =>
      rw [drops_cons_of_none s steps hc] at hd
      obtain ⟨before, p, source, later, rfl, hrun, hpick⟩ := ih hd
      exact ⟨a :: before, p, source, later, rfl, hrun, hpick⟩
    | some d' =>
      rw [drops_cons_of_drop? s steps hc, List.mem_singleton] at hd
      subst hd
      obtain ⟨p, source, rfl, hrun, hpick⟩ := (s.answers_step a).exists_drop hc
      exact ⟨[], p, source, steps, rfl, hrun, hpick⟩

/-- Where nothing is offered, a drop ends the drag without a target. -/
theorem update_drop_of_nothing {source : Source α} (h : s.finished = true ∨ source s.query = [])
    (p : Point α) : (s.handle source (.drop p)).update = some .cancelled := by
  cases hs : s.finished with
  | true => rw [handle_of_finished hs]
  | false =>
    have hnone : source s.query = [] := h.resolve_left (by simp [hs])
    rw [update_drop hs, picked_eq_none hnone]
    rfl

variable (canvas : WidgetId) (dragged : List DraggedWidget) (policy : Policy α)

/-- Whatever layouts, places and events come by, what is committed belongs to the canvas
of the session and to the layout of the drop. A layout of another canvas, or with no
child on screen, gets NO drop. -/
theorem drops_within_layout (moves : List (Move α)) :
    (∀ d ∈ (start canvas dragged policy).drops (moves.map Move.step),
        ∃ before p l later, moves = before ++ .event (.drop p) l :: later ∧
          d.Within l ⟨canvas, Step.latest (before.map Move.step), dragged⟩) ∧
      ∀ p (l : Layout),
        l.onScreen ⟨canvas, Step.latest (moves.map Move.step), dragged⟩ = 0 ∨ l.canvas ≠ canvas →
          (((start canvas dragged policy).after (moves.map Move.step)).handle l.highlights
            (.drop p)).update = some .cancelled := by
  constructor
  · intro d hd
    obtain ⟨steps, p, source, later, hsplit, hrun, hpick⟩ := exists_drop_of_mem_drops hd
    obtain ⟨before, moves', rfl, rfl, hrest⟩ := List.map_eq_append_iff.mp hsplit
    obtain ⟨move, later', rfl, hmove, -⟩ := List.map_eq_cons_iff.mp hrest
    cases move with
    | measure positions => cases hmove
    | event e l =>
      cases hmove
      refine ⟨before, p, l, later', rfl, ?_⟩
      have hmem := mem_of_picked hpick
      rw [query_after hrun] at hmem
      exact Layout.within_of_mem_highlights (dragged_of_mem_drops _ _ hd) hmem
  · intro p l hnothing
    apply update_drop_of_nothing
    cases hs : ((start canvas dragged policy).after (moves.map Move.step)).finished with
    | true => exact .inl rfl
    | false =>
      right
      rw [query_after hs]
      exact Layout.highlights_eq_nil hnothing

/-- A target is painted, all that is on screen moves, and the pointer lets go. -/
def reordering : List (Move Float) := [
  .measure (.ofList [(⟨"cut"⟩, ⟨0, 0, 40, 20⟩), (⟨"copy"⟩, ⟨50, 0, 40, 20⟩)]),
  .event (.hover ⟨88, 5⟩) toolbar,
  .measure (.ofList [(⟨"copy"⟩, ⟨0, 0, 40, 20⟩)]),
  .event (.drop ⟨38, 5⟩) toolbar]

/-- A row on a canvas of its own. -/
def dialogRow : Layout where
  canvas := ⟨"dialog"⟩
  kind := .row
  path := []
  children := [⟨"copy"⟩]

theorem drops_within_reordering :
    ((start mainCanvas held).drops (reordering.map Move.step)).map Drop.row = [1] ∧
      (∀ d ∈ (start mainCanvas held).drops (reordering.map Move.step),
        ∃ before p l later, reordering = before ++ .event (.drop p) l :: later ∧
          d.Within l ⟨mainCanvas, Step.latest (before.map Move.step), held⟩) ∧
      dialogRow.canvas ≠ mainCanvas ∧
      (((start mainCanvas held).after ((reordering.take 3).map Move.step)).handle
        dialogRow.highlights (.drop ⟨38, 5⟩)).update = some .cancelled := by
  have hforeign : dialogRow.canvas ≠ mainCanvas := by decide
  exact ⟨by decide +kernel, (drops_within_layout mainCanvas held .standard reordering).1, hforeign,
    (drops_within_layout mainCanvas held .standard (reordering.take 3)).2 ⟨38, 5⟩ dialogRow
      (.inr hforeign)⟩

end Session

end DragDrop
