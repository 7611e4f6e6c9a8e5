import DragDrop.Proofs.Layout.Drops

/-! Only differences of coordinates count. If all that was measured on a canvas moves by
a vector, and the pointer with it, then so do the bars of every layout, while the
selection and the session behave as before. A vector is given by the point that the
origin moves to. The arithmetic is EXACT: doubles are rounded by their size. -/

namespace DragDrop

section Shifted

variable {α : Type} [Scalar α]

namespace Point

def shifted (p d : Point α) : Point α where
  x := p.x + d.x
  y := p.y + d.y

@[simp] theorem along_shifted (p d : Point α) (axis : Axis) :
    (p.shifted d).along axis = p.along axis + d.along axis := by
  cases axis <;> rfl

end Point

namespace Rect

def shifted (d : Point α) (r : Rect α) : Rect α where
  left := r.left + d.x
  top := r.top + d.y
  right := r.right + d.x
  bottom := r.bottom + d.y

@[simp] theorem near_shifted (d : Point α) (r : Rect α) (axis : Axis) :
    (r.shifted d).near axis = r.near axis + d.along axis := by
  cases axis <;> rfl

@[simp] theorem far_shifted (d : Point α) (r : Rect α) (axis : Axis) :
    (r.shifted d).far axis = r.far axis + d.along axis := by
  cases axis <;> rfl

end Rect

/-- The extents do not move. -/
def Placement.shifted (d : Point α) (p : Placement α) : Placement α :=
  { p with left := p.left + d.x, top := p.top + d.y }

namespace Arrangement

variable {β : Type}

theorem nodup_map_places (a : Arrangement β) (f : Placement β → Placement β) :
    ((a.places.map (Prod.map id f)).map Prod.fst).Nodup := by
  rw [List.map_map]
  exact a.nodup

def shifted (d : Point α) (a : Arrangement α) : Arrangement α where
  places := a.places.map (Prod.map id (Placement.shifted d))
  nodup := a.nodup_map_places (Placement.shifted d)

theorem get?_shifted (d : Point α) (a : Arrangement α) (w : WidgetId) :
    (a.shifted d).get? w = (a.get? w).map (Placement.shifted d) := by
  have h (l : List (WidgetId × Placement α)) :
      (l.map (Prod.map id (Placement.shifted d))).lookup w =
        (l.lookup w).map (Placement.shifted d) := by
    induction l with
    | nil => rfl
    | cons e l ih =>
      rw [List.map_cons, List.lookup_cons, List.lookup_cons, ih]
      dsimp only [Prod.map_fst, id_eq]
      cases w == e.1 <;> rfl
  exact h a.places

end Arrangement

def Query.shifted (d : Point α) (q : Query α) : Query α :=
  { q with positions := q.positions.shifted d }

/-- Extents, zone and slot do not move. -/
def Bar.shifted (d : Point α) (b : Bar α) : Bar α :=
  { b with x := b.x + d.x, y := b.y + d.y }

namespace Highlight

def shifted (d : Point α) : Highlight α → Highlight α
  | vertical b => vertical (b.shifted d)
  | horizontal b => horizontal (b.shifted d)

variable (d : Point α) (h : Highlight α)

@[simp] theorem axis_shifted : (h.shifted d).axis = h.axis := by
  cases h <;> rfl

@[simp] theorem isVertical_shifted : (h.shifted d).isVertical = h.isVertical := by
  cases h <;> rfl

@[simp] theorem slot_shifted : (h.shifted d).slot = h.slot := by
  cases h <;> rfl

@[simp] theorem edge_shifted : (h.shifted d).edge = h.edge + d.along h.axis := by
  cases h <;> rfl

@[simp] theorem reachBefore_shifted (c : Policy α) (biased : Bool) :
    (h.shifted d).reachBefore c biased = h.reachBefore c biased := by
  cases h <;> rfl

@[simp] theorem reachAfter_shifted (c : Policy α) (biased : Bool) :
    (h.shifted d).reachAfter c biased = h.reachAfter c biased := by
  cases h <;> rfl

end Highlight

/-- The reach of a stop does not move. -/
def Stop.shifted (t : α) (s : Stop α) : Stop α := { s with position := s.position + t }

def Event.shifted (d : Point α) : Event α → Event α
  | .hover p => .hover (p.shifted d)
  | .drop p => .drop (p.shifted d)
  | .leave => .leave

def Update.shifted (d : Point α) : Update α → Update α
  | .target h => .target (h.map (Highlight.shifted d))
  | .committed r => .committed ⟨r.dragged, r.highlight.shifted d⟩
  | .cancelled => .cancelled

def Move.shifted (d : Point α) : Move α → Move α
  | .event e l => .event (e.shifted d) l
  | .measure positions => .measure (positions.shifted d)

/-- Neither the canvas nor the widgets, the policy and the stage of the drag move. -/
def Session.shifted (d : Point α) (s : Session α) : Session α :=
  { s with positions := s.positions.shifted d, current := s.current.map (Highlight.shifted d) }

end Shifted

/-- Where the update would put the dragged widgets, or has put them. -/
def Update.slot? {α : Type} : Update α → Option Slot
  | .target h => h.map Highlight.slot
  | .committed r => some r.highlight.slot
  | .cancelled => none

theorem Update.slot?_shifted {α : Type} [Scalar α] (d : Point α) (u : Update α) :
    (u.shifted d).slot? = u.slot? := by
  cases u with
  | target h => cases h <;> simp [shifted, slot?]
  | committed r => exact congrArg some (r.highlight.slot_shifted d)
  | cancelled => rfl

namespace Session

variable {α : Type} [Scalar α] [BEq α]

/-- What the steps of a run come to, one by one. -/
def updates (s : Session α) (steps : List (Step α)) : List (Option (Update α)) :=
  (s.run steps).map (·.update)

theorem updates_cons (s : Session α) (a : Step α) (steps : List (Step α)) :
    s.updates (a :: steps) = (s.step a).update :: (s.step a).session.updates steps := rfl

end Session

variable (d : Point Rat)

/-! ## Selection -/

theorem Bar.bounds_shifted (b : Bar Rat) : (b.shifted d).bounds = b.bounds.shifted d := by
  simp only [bounds, shifted, Rect.shifted, add_right_comm]

theorem overshoot_add (v lo hi t : Rat) :
    overshoot (v + t) (lo + t) (hi + t) = overshoot v lo hi := by
  simp only [overshoot, add_lt_add_iff_right, add_sub_add_right_eq_sub]

namespace Highlight

theorem spans_shifted (p : Point Rat) (h : Highlight Rat) :
    (h.shifted d).Spans (p.shifted d) ↔ h.Spans p := by
  cases h with
  | vertical b | horizontal b =>
    simp only [shifted, Spans, Bar.bounds_shifted, Rect.shifted, Point.shifted,
      add_le_add_iff_right]

theorem catches_shifted (c : Policy Rat) (biased : Bool) (p : Point Rat) (h : Highlight Rat) :
    (h.shifted d).Catches c biased (p.shifted d) ↔ h.Catches c biased p := by
  have hafter (m e r t : Rat) : m + t ≤ e + t + r ↔ m ≤ e + r := by
    rw [add_right_comm, add_le_add_iff_right]
  have hbefore (m e r t : Rat) : e + t - r ≤ m + t ↔ e - r ≤ m := by
    rw [add_sub_right_comm, add_le_add_iff_right]
  rw [catches_iff, catches_iff, spans_shifted]
  simp only [axis_shifted, edge_shifted, reachBefore_shifted, reachAfter_shifted,
    Point.along_shifted, add_le_add_iff_right, hafter, hbefore]

theorem distance_shifted (p : Point Rat) (h : Highlight Rat) :
    (h.shifted d).distance (p.shifted d) = h.distance p := by
  cases h with
  | vertical b | horizontal b =>
    simp only [shifted, distance, Bar.bounds_shifted, Rect.shifted, Point.shifted,
      overshoot_add, add_sub_add_right_eq_sub]

end Highlight

theorem Selection.unseen_shifted (c : Policy Rat) (p : Point Rat) :
    Unseen c p (p.shifted d) (Highlight.shifted d) where
  isVertical_eq := Highlight.isVertical_shifted d
  catches_iff := fun biased h => h.catches_shifted d c biased p
  distance_eq := fun h => h.distance_shifted d p

/-! ## Layouts -/

namespace Rect

theorem union_shifted (r s : Rect Rat) :
    (r.shifted d).union (s.shifted d) = (r.union s).shifted d := by
  have hlesser (a b t : Rat) : Scalar.lesser (a + t) (b + t) = Scalar.lesser a b + t := by
    simp only [Scalar.lesser, add_lt_add_iff_right, Scalar.isNaN_rat]
    split <;> rfl
  have hgreater (a b t : Rat) : Scalar.greater (a + t) (b + t) = Scalar.greater a b + t := by
    simp only [Scalar.greater, add_lt_add_iff_right, Scalar.isNaN_rat]
    split <;> rfl
  simp only [union, shifted, hlesser, hgreater]

theorem unions_shifted (rs : List (Rect Rat)) :
    unions (rs.map (shifted d)) = (unions rs).map (shifted d) := by
  cases rs with
  | nil => rfl
  | cons r rs =>
    simp only [unions, List.map_cons, Option.map_some, List.foldl_map]
    exact congrArg some (List.foldl_hom (shifted d) fun a b => union_shifted d a b)

theorem width_shifted (r : Rect Rat) : (r.shifted d).width = r.width :=
  add_sub_add_right_eq_sub r.right r.left d.x

theorem height_shifted (r : Rect Rat) : (r.shifted d).height = r.height :=
  add_sub_add_right_eq_sub r.bottom r.top d.y

end Rect

theorem Placement.rect_shifted (p : Placement Rat) : (p.shifted d).rect = p.rect.shifted d := by
  simp only [rect, shifted, Rect.shifted, add_right_comm]

/-- Gaps are differences, so a chain moves as one. -/
theorem Stop.chain_shifted (t before : Rat) (S : List Rat) :
    chain before (S.map (· + t)) = (chain before S).map (shifted t) := by
  induction S generalizing before with
  | nil => rfl
  | cons a S ih =>
    cases S with
    | nil => rfl
    | cons b rest =>
      simp only [List.map_cons, chain, add_sub_add_right_eq_sub] at ih ⊢
      rw [ih]
      rfl

namespace Layout

variable (l : Layout)

theorem stops_shifted (axis : Axis) (rects : List (Rect Rat)) :
    stops axis (rects.map (Rect.shifted d)) = (stops axis rects).map (· + d.along axis) := by
  simp only [stops, List.map_append, List.map_map, List.getLast?_map, Option.map_map,
    Function.comp_def, Rect.near_shifted, Rect.far_shifted]
  cases rects.getLast? <;> rfl

theorem measured_shifted (q : Query Rat) :
    l.measured (q.shifted d) = (l.measured q).map (Prod.map id (Rect.shifted d)) := by
  simp only [measured, Query.shifted, Arrangement.get?_shifted, List.map_filterMap,
    Option.map_map]
  congr 1
  funext w
  cases q.positions.get? w with
  | none => rfl
  | some p => exact congrArg (fun r => some (w, r)) (p.rect_shifted d)

theorem bar_shifted (span : Rect Rat) (s : Stop Rat) (row : Nat) :
    l.bar (span.shifted d) (s.shifted (d.along l.kind.axis)) row =
      (l.bar span s row).shifted d := by
  unfold bar
  cases l.kind.axis with
  | across => rw [Rect.height_shifted]; rfl
  | down => rw [Rect.width_shifted]; rfl

/-- All bars of a layout move with what was measured, and NOTHING else about them
changes. -/
theorem highlights_shifted (q : Query Rat) :
    l.highlights (q.shifted d) = (l.highlights q).map (Highlight.shifted d) := by
  have hrects : (l.measured (q.shifted d)).map Prod.snd =
      ((l.measured q).map Prod.snd).map (Rect.shifted d) := by
    rw [measured_shifted, List.map_map, List.map_map]
    rfl
  by_cases hcanvas : q.canvas = l.canvas
  · rw [highlights, highlights, if_neg (not_not.mpr hcanvas),
      if_neg (not_not.mpr (show (q.shifted d).canvas = l.canvas from hcanvas))]
    dsimp only
    rw [hrects, Rect.unions_shifted, stops_shifted, Stop.chain_shifted, List.zipIdx_map]
    cases Rect.unions ((l.measured q).map Prod.snd) with
    | none => rfl
    | some span =>
      simp only [Option.map_some, List.map_map]
      apply List.map_congr_left
      intro s _
      exact l.bar_shifted d span s.1 s.2
  · rw [highlights, highlights, if_pos hcanvas,
      if_pos (show (q.shifted d).canvas ≠ l.canvas from hcanvas)]
    rfl

end Layout

/-! ## Sessions -/

namespace Session

variable {d}

theorem picked_shifted (s : Session Rat) (l : Layout) (p : Point Rat) :
    (s.shifted d).picked l.highlights (p.shifted d) =
      (s.picked l.highlights p).map (Highlight.shifted d) := by
  have hquery : l.highlights (s.shifted d).query =
      (l.highlights s.query).map (Highlight.shifted d) := l.highlights_shifted d s.query
  rw [picked, picked, hquery]
  show (Selection.pick s.policy _ _).map Prod.fst = _
  rw [(Selection.unseen_shifted d s.policy p).pick_map, Option.map_map, Option.map_map]
  rfl

theorem start_shifted (canvas : WidgetId) (dragged : List DraggedWidget) (policy : Policy Rat) :
    (start canvas dragged policy).shifted d = start canvas dragged policy := rfl

/-- One step of the drag moves with the canvas. -/
theorem step_shifted (s : Session Rat) (m : Move Rat) :
    ((s.shifted d).step (m.shifted d).step).session = (s.step m.step).session.shifted d ∧
      ((s.shifted d).step (m.shifted d).step).update =
        (s.step m.step).update.map (Update.shifted d) := by
  cases m with
  | measure positions => exact ⟨rfl, rfl⟩
  | event e l =>
    cases ended : s.finished with
    | true =>
      have hended : (s.shifted d).finished = true := ended
      simp only [Move.shifted, Move.step, step]
      rw [handle_of_finished ended, handle_of_finished hended]
      exact ⟨rfl, rfl⟩
    | false =>
      have running : (s.shifted d).finished = false := ended
      simp only [Move.shifted, Move.step, step]
      cases e with
      | hover p =>
        rw [Event.shifted, handle_hover ended, handle_hover running]
        simp only [hovered, found, picked_shifted]
        exact ⟨rfl, rfl⟩
      | drop p =>
        rw [Event.shifted, handle_drop ended, handle_drop running]
        simp only [dropped, found, picked_shifted]
        cases s.picked l.highlights p <;> exact ⟨rfl, rfl⟩
      | leave =>
        rw [Event.shifted, handle_leave ended, handle_leave running]
        exact ⟨rfl, rfl⟩

/-- And so does all that a run comes to. -/
theorem updates_shifted (s : Session Rat) (moves : List (Move Rat)) :
    (s.shifted d).updates (moves.map fun m => (m.shifted d).step) =
      (s.updates (moves.map Move.step)).map (Option.map (Update.shifted d)) := by
  induction moves generalizing s with
  | nil => rfl
  | cons m moves ih =>
    obtain ⟨hsession, hupdate⟩ := s.step_shifted (d := d) m
    simp only [List.map_cons, updates_cons, hsession, hupdate, ih]

end Session

/-- The whole way from what was measured to what is dropped is the same wherever it
happens. Bars of layouts move with what was measured. If highlights and pointer move
together, the same places are viable, at the same distances, and the same one is picked.
So a drag over a canvas that was moved answers EVERY event as before, but for the move,
and what it paints or commits goes to the same rows. -/
theorem translation_equivariant :
    (∀ (l : Layout) (q : Query Rat),
      l.highlights (q.shifted d) = (l.highlights q).map (Highlight.shifted d)) ∧
    (∀ (c : Policy Rat) (p : Point Rat) (hs : List (Highlight Rat)),
      (Selection.viable c (p.shifted d) (hs.map (Highlight.shifted d)).zipIdx).map Prod.snd =
          (Selection.viable c p hs.zipIdx).map Prod.snd ∧
        (Selection.viable c (p.shifted d) (hs.map (Highlight.shifted d)).zipIdx).map
            (fun h => h.1.distance (p.shifted d)) =
          (Selection.viable c p hs.zipIdx).map (fun h => h.1.distance p) ∧
        (Selection.pick c (p.shifted d) (hs.map (Highlight.shifted d))).map Prod.snd =
          (Selection.pick c p hs).map Prod.snd) ∧
    ∀ (canvas : WidgetId) (dragged : List DraggedWidget) (policy : Policy Rat)
      (moves : List (Move Rat)),
      (Session.start canvas dragged policy).updates (moves.map fun m => (m.shifted d).step) =
          ((Session.start canvas dragged policy).updates (moves.map Move.step)).map
            (Option.map (Update.shifted d)) ∧
        ((Session.start canvas dragged policy).updates
            (moves.map fun m => (m.shifted d).step)).map (fun u => u.bind Update.slot?) =
          ((Session.start canvas dragged policy).updates (moves.map Move.step)).map
            (fun u => u.bind Update.slot?) := by
  refine ⟨fun l q => l.highlights_shifted d q, ?_, ?_⟩
  · intro c p hs
    have hunseen := Selection.unseen_shifted d c p
    refine ⟨?_, ?_, ?_⟩
    · rw [List.zipIdx_map, hunseen.viable_map, List.map_map]
      rfl
    · rw [List.zipIdx_map, hunseen.viable_map, List.map_map]
      apply List.map_congr_left
      intro h _
      exact hunseen.distance_eq h.1
    · rw [hunseen.pick_map, Option.map_map]
      rfl
  · intro canvas dragged policy moves
    have hupdates := (Session.start canvas dragged policy).updates_shifted (d := d) moves
    rw [Session.start_shifted] at hupdates
    refine ⟨hupdates, ?_⟩
    rw [hupdates, List.map_map]
    apply List.map_congr_left
    intro u _
    cases u with
    | none => rfl
    | some u => exact u.slot?_shifted d

end DragDrop
