import DragDrop.Proofs.Layout.Bars

/-! What the row of a bar counts. Bars are numbered by the children that are ON SCREEN.
In the list of all children that stay in the layout, the child next to a bar stands
further behind by as many as were passed over in front of it, so a row is the index to
insert at if and only if there were none. -/

namespace DragDrop

/-- What was kept of a list stands at a place in front of which as many were kept as
its number says. -/
theorem exists_getElem?_of_filterMap {β γ : Type} {f : β → Option γ} {l : List β} {k : Nat} {c : γ}
    (h : (l.filterMap f)[k]? = some c) :
    ∃ i b, l[i]? = some b ∧ f b = some c ∧ (l.take i).countP (fun x => (f x).isSome) = k := by
  induction l generalizing k with
  | nil => simp at h
  | cons x l ih =>
    cases hx : f x with
    | none =>
      rw [List.filterMap_cons_none hx] at h
      obtain ⟨i, b, hi, hb, hcount⟩ := ih h
      exact ⟨i + 1, b, hi, hb, by simp [hx, hcount]⟩
    | some d =>
      rw [List.filterMap_cons_some hx] at h
      cases k with
      | zero => exact ⟨0, x, rfl, hx.trans h, rfl⟩
      | succ k =>
        obtain ⟨i, b, hi, hb, hcount⟩ := ih h
        exact ⟨i + 1, b, hi, hb, by simp [hx, hcount]⟩

variable {α : Type}

/-- Whether a widget was measured. -/
def Query.shows (q : Query α) (w : WidgetId) : Bool := (q.positions.get? w).isSome

namespace Layout

/-- Of the children that stay, the one at this place is this widget, was measured here,
and stands behind so many others that were measured. -/
structure Shown (l : Layout) (q : Query α) (place : Nat) (w : WidgetId) (p : Placement α)
    (ahead : Nat) : Prop where
  child : (l.remaining q.dragged)[place]? = some w
  measured : q.positions.get? w = some p
  ahead : ((l.remaining q.dragged).take place).countP q.shows = ahead

variable {l : Layout} {q : Query α} {place ahead : Nat} {w : WidgetId} {p : Placement α}

/-- The child is as far in front as the others say if all of them were measured. -/
theorem Shown.ahead_eq_place_iff (h : l.Shown q place w p ahead) :
    ahead = place ↔ ∀ v ∈ (l.remaining q.dragged).take place, q.shows v := by
  have hlt : place < (l.remaining q.dragged).length := (List.getElem?_eq_some_iff.mp h.child).1
  have hlength : ((l.remaining q.dragged).take place).length = place :=
    List.length_take_of_le hlt.le
  have hall : ahead = place ↔ ((l.remaining q.dragged).take place).countP q.shows =
      ((l.remaining q.dragged).take place).length := by
    rw [h.ahead, hlength]
  rw [hall, List.countP_eq_length]

variable [Scalar α]

theorem length_measured :
    (l.measured q).length = (l.remaining q.dragged).countP q.shows := by
  rw [measured, List.length_filterMap_eq_countP]
  simp only [Option.isSome_map]
  rfl

theorem exists_shown {k : Nat} {m : WidgetId × Rect α} (hk : (l.measured q)[k]? = some m) :
    ∃ place p, l.Shown q place m.1 p k ∧ m.2 = p.rect := by
  obtain ⟨i, v, hi, hv, hcount⟩ := exists_getElem?_of_filterMap hk
  obtain ⟨p, hp, rfl⟩ := Option.map_eq_some_iff.mp hv
  simp only [Option.isSome_map] at hcount
  exact ⟨i, p, ⟨hi, hp, hcount⟩, rfl⟩

/-- Behind the last child that was measured there is no other one. -/
theorem Shown.not_shows_of_last (h : l.Shown q place w p ahead)
    (hlast : (l.measured q).length = ahead + 1) :
    ∀ v ∈ (l.remaining q.dragged).drop (place + 1), ¬q.shows v := by
  have hsplit : l.remaining q.dragged = (l.remaining q.dragged).take place ++
      w :: (l.remaining q.dragged).drop (place + 1) := by
    obtain ⟨hlt, hw⟩ := List.getElem?_eq_some_iff.mp h.child
    rw [← hw, ← List.drop_eq_getElem_cons hlt, List.take_append_drop]
  have hshown : q.shows w := by rw [Query.shows, h.measured]; rfl
  have hbehind : ((l.remaining q.dragged).drop (place + 1)).countP q.shows = 0 := by
    rw [length_measured, hsplit, List.countP_append, h.ahead,
      List.countP_cons_of_pos hshown] at hlast
    omega
  simpa using List.countP_eq_zero.mp hbehind

/-- The stops are the near edges of the children on screen, and the far edge of the
last one. -/
theorem stopsOf_getElem? {k : Nat} {s : α} (hs : (l.stopsOf q)[k]? = some s) :
    (∃ m, (l.measured q)[k]? = some m ∧ s = m.2.near l.kind.axis) ∨
      ∃ last m, k = last + 1 ∧ (l.measured q).length = last + 1 ∧
        (l.measured q)[last]? = some m ∧ s = m.2.far l.kind.axis := by
  rw [stopsOf, getElem?_stops, coordinate?, List.length_map] at hs
  split at hs
  · right
    rename_i hk
    rw [List.getLast?_map, Option.map_map] at hs
    obtain ⟨m, hlast, rfl⟩ := Option.map_eq_some_iff.mp hs
    have hpos : 0 < (l.measured q).length :=
      List.length_pos_iff_exists_mem.mpr ⟨m, List.mem_of_getLast? hlast⟩
    rw [List.getLast?_eq_getElem?] at hlast
    exact ⟨(l.measured q).length - 1, m, by omega, by omega, hlast, rfl⟩
  · left
    rw [List.getElem?_map, Option.map_map] at hs
    obtain ⟨m, hm, rfl⟩ := Option.map_eq_some_iff.mp hs
    exact ⟨m, hm, rfl⟩

/-- A row is the number of a bar. The bar stands in front of the child at some place, or
behind the last one that was measured, and the row is the index to insert at exactly if
NO child further in front was passed over. -/
theorem row_eq_place_iff {k : Nat} {h : Highlight α} (hk : (l.highlights q)[k]? = some h) :
    h.slot.row = k ∧
      ((∃ place w p, l.Shown q place w p k ∧ h.edge = p.rect.near l.kind.axis ∧
          (h.slot.row = place ↔ ∀ v ∈ (l.remaining q.dragged).take place, q.shows v)) ∨
        ∃ place w p last, k = last + 1 ∧ l.Shown q place w p last ∧
          (∀ v ∈ (l.remaining q.dragged).drop (place + 1), ¬q.shows v) ∧
          h.edge = p.rect.far l.kind.axis ∧
          (h.slot.row - 1 = place ↔ ∀ v ∈ (l.remaining q.dragged).take place, q.shows v)) := by
  obtain ⟨hcanvas, hmeasured⟩ := measured_of_mem_highlights (List.mem_of_getElem? hk)
  obtain ⟨hedge, -, hslot⟩ := bar_of_getElem? hcanvas hmeasured hk
  have hrow : h.slot.row = k := by rw [hslot]; rfl
  refine ⟨hrow, ?_⟩
  rcases stopsOf_getElem? hedge with ⟨m, hm, hnear⟩ | ⟨last, m, rfl, hlength, hm, hfar⟩
  · left
    obtain ⟨place, p, hshown, hrect⟩ := exists_shown hm
    refine ⟨place, m.1, p, hshown, by rw [hnear, hrect], ?_⟩
    rw [hrow]
    exact hshown.ahead_eq_place_iff
  · right
    obtain ⟨place, p, hshown, hrect⟩ := exists_shown hm
    refine ⟨place, m.1, p, last, rfl, hshown, hshown.not_shows_of_last hlength,
      by rw [hfar, hrect], ?_⟩
    rw [hrow, Nat.add_sub_cancel]
    exact hshown.ahead_eq_place_iff

/-- Three buttons, of which the first is being dragged. -/
def shelf : Layout where
  canvas := mainCanvas
  kind := .row
  path := [⟨"shelf"⟩]
  children := [⟨"cut"⟩, ⟨"copy"⟩, ⟨"paste"⟩]

/-- The second one was NOT measured. -/
def shelfDrag : Query Float where
  canvas := mainCanvas
  positions := .ofList [(⟨"cut"⟩, ⟨0, 0, 40, 20⟩), (⟨"paste"⟩, ⟨120, 0, 40, 20⟩)]
  dragged := [⟨⟨"cut"⟩, "BUTTON", .hug⟩]

/-- The bar in front of the last button has the row of the button that was passed over. -/
theorem row_shelf : ∃ h place w p, (shelf.highlights shelfDrag)[0]? = some h ∧
    shelf.Shown shelfDrag place w p 0 ∧ h.edge = p.rect.near .across ∧ h.slot.row ≠ place := by
  obtain ⟨h, hh⟩ : ∃ h, (shelf.highlights shelfDrag)[0]? = some h :=
    Option.isSome_iff_exists.mp (by decide +kernel)
  obtain ⟨hrow, ⟨place, w, p, hshown, hedge, -⟩ | ⟨place, w, p, last, hlast, -⟩⟩ :=
    row_eq_place_iff hh
  · refine ⟨h, place, w, p, hh, hshown, hedge, ?_⟩
    rw [hrow]
    rintro rfl
    obtain rfl : ⟨"copy"⟩ = w := Option.some.inj hshown.child
    have hnone : shelfDrag.positions.get? ⟨"copy"⟩ = none := rfl
    exact Option.some_ne_none p (hshown.measured.symm.trans hnone)
  · omega

end Layout

end DragDrop
