import DragDrop.Proofs.Catchment
import DragDrop.Proofs.Layout.Chain

/-! The bars of a layout, as the stops of a chain. All of them are measured along
the axis of the layout, so the bias never matters, and those that catch a pointer
in their span are the ones whose stops reach it. -/

namespace DragDrop

/-- How far a declared gap reaches. Only along a row does a gap of zero count as
not declared. -/
def Policy.stopReach {α : Type} [Scalar α] (c : Policy α) (axis : Axis) (gap : α) : α :=
  match axis with
  | .across => c.sideReach (some (Scalar.nonneg gap))
  | .down => Scalar.nonneg gap

theorem Policy.range_standard_nonneg : 0 ≤ (standard : Policy Rat).range := by
  show (0 : Rat) ≤ 10.0
  norm_num

/-- No gap reaches less than nothing, unless the default does. -/
theorem Policy.stopReach_nonneg {c : Policy Rat} (hc : 0 ≤ c.range) (axis : Axis) (gap : Rat) :
    0 ≤ c.stopReach axis gap := by
  cases axis with
  | across =>
    show 0 ≤ if 0 < Scalar.nonneg gap then Scalar.nonneg gap else c.range
    split
    · exact Scalar.zero_le_nonneg gap
    · exact hc
  | down => exact Scalar.zero_le_nonneg gap

theorem Policy.reaching_stopReach {c : Policy Rat} (hc : 0 ≤ c.range) (axis : Axis) :
    Reaching (c.stopReach axis) where
  of_pos g hg := by
    have hgap : Scalar.nonneg g = g := Scalar.nonneg_of_pos hg
    cases axis with
    | across => rw [stopReach, hgap]; exact if_pos hg
    | down => exact hgap
  zero_nonneg := stopReach_nonneg hc axis 0

namespace Selection

variable {α κ : Type} [Scalar α] {c : Policy α} {p : Point α}

/-- Where all bars are measured along one axis, the bias never matters. -/
theorem viable_of_axis {axis : Axis} {l : List (Highlight α × κ)}
    (h : ∀ x ∈ l, x.1.axis = axis) :
    viable c p l = l.filter fun x => x.1.Catches c false p := by
  have hvertical : ∀ x ∈ l, x.1.isVertical = decide (axis = .across) := by
    intro x hx
    rw [x.1.isVertical_eq, h x hx]
  cases axis with
  | across =>
    have hv : verticals c p l = l.filter fun x => x.1.Catches c false p := by
      apply List.filter_congr
      intro x hx
      simp [hvertical x hx]
    have hh (b : Bool) : horizontals c p b l = [] := by
      rw [horizontals, List.filter_eq_nil_iff]
      intro x hx
      simp [hvertical x hx]
    rw [viable, hv, hh, List.append_nil]
  | down =>
    have hv : verticals c p l = [] := by
      rw [verticals, List.filter_eq_nil_iff]
      intro x hx
      simp [hvertical x hx]
    have hh : horizontals c p false l = l.filter fun x => x.1.Catches c false p := by
      apply List.filter_congr
      intro x hx
      simp [hvertical x hx]
    have hb : biased c p l = false := by
      rw [biased, hv]
      rfl
    rw [viable, hv, hb, hh, List.nil_append]

/-- The same, for one highlight of a list. -/
theorem viable_iff_of_axis {axis : Axis} {hs : List (Highlight α)}
    (haxis : ∀ g ∈ hs, g.axis = axis) {h : Highlight α} (hh : h ∈ hs) :
    Viable c p hs h ↔ h.Catches c false p := by
  obtain ⟨i, hi⟩ := List.mem_iff_getElem?.mp hh
  have hplace : (h, i) ∈ hs.zipIdx := List.mem_zipIdx_iff_getElem?.mpr hi
  have haxis' : ∀ x ∈ hs.zipIdx, x.1.axis = axis := fun x hx =>
    haxis x.1 (List.mem_of_getElem? (List.mem_zipIdx_iff_getElem?.mp hx))
  have hiff : (h, i) ∈ viable c p hs.zipIdx ↔ hs[i]? = some h ∧ Viable c p hs h :=
    mem_viable_zipIdx
  rw [viable_of_axis haxis', List.mem_filter, decide_eq_true_eq, and_iff_right hplace,
    and_iff_right hi] at hiff
  exact hiff.symm

end Selection

namespace Layout

variable {α : Type} [Scalar α]

/-- The coordinate with this number: the near edge of the rectangle that has it, and behind
them all the far edge of the last one. -/
def coordinate? (axis : Axis) (rects : List (Rect α)) (k : Nat) : Option α :=
  if k = rects.length then rects.getLast?.map (·.far axis) else rects[k]?.map (·.near axis)

omit [Scalar α] in
theorem getElem?_stops (axis : Axis) (rects : List (Rect α)) (k : Nat) :
    (stops axis rects)[k]? = coordinate? axis rects k := by
  have hlength : (rects.map (·.near axis)).length = rects.length := List.length_map _
  unfold stops coordinate?
  split
  · rename_i hk
    rw [List.getElem?_append_right (by omega), hlength, hk, Nat.sub_self]
    cases rects.getLast? <;> rfl
  · rename_i hk
    rcases lt_or_ge k rects.length with hlt | hge
    · rw [List.getElem?_append_left (by omega), List.getElem?_map]
    · have hbeyond : (rects.map (·.near axis) ++
          (rects.getLast?.map (·.far axis)).toList).length ≤ k := by
        have hone := Option.length_toList_le (o := rects.getLast?.map (·.far axis))
        rw [List.length_append]
        omega
      rw [List.getElem?_eq_none hbeyond, List.getElem?_eq_none hge]
      rfl

variable (l : Layout) (q : Query α)

/-- The places of the bars along the axis of the layout. -/
def stopsOf : List α := stops l.kind.axis ((l.measured q).map Prod.snd)

variable (span : Rect α) (s : Stop α) (row : Nat)

@[simp] theorem axis_bar : (l.bar span s row).axis = l.kind.axis := by
  unfold bar
  split <;> simp_all [Highlight.axis]

@[simp] theorem edge_bar : (l.bar span s row).edge = s.position := by
  unfold bar
  split <;> rfl

theorem reachBefore_bar (c : Policy α) :
    (l.bar span s row).reachBefore c false = c.stopReach l.kind.axis s.before := by
  unfold bar
  cases l.kind.axis with
  | across =>
    show c.sideReach (DropZone.leftRight s.before s.after).normalized.left = _
    rw [DropZone.leftRight, DropZone.normalized_normalized]
    rfl
  | down =>
    show c.biasedReach (DropZone.topBottom s.before s.after).normalized.top c.topScale false = _
    rw [DropZone.topBottom, DropZone.normalized_normalized]
    exact c.biasedReach_map_nonneg (some s.before) c.topScale false

theorem reachAfter_bar (c : Policy α) :
    (l.bar span s row).reachAfter c false = c.stopReach l.kind.axis s.after := by
  unfold bar
  cases l.kind.axis with
  | across =>
    show c.sideReach (DropZone.leftRight s.before s.after).normalized.right = _
    rw [DropZone.leftRight, DropZone.normalized_normalized]
    rfl
  | down =>
    show c.biasedReach (DropZone.topBottom s.before s.after).normalized.bottom
      c.bottomScale false = _
    rw [DropZone.topBottom, DropZone.normalized_normalized]
    exact c.biasedReach_map_nonneg (some s.after) c.bottomScale false

variable {l q}

/-- A layout offers something only on its own canvas, and next to a child on screen. -/
theorem measured_of_mem_highlights {h : Highlight α} (hh : h ∈ l.highlights q) :
    q.canvas = l.canvas ∧ l.measured q ≠ [] := by
  have hcanvas : q.canvas = l.canvas := by
    by_contra hne
    rw [highlights, if_pos hne] at hh
    exact absurd hh List.not_mem_nil
  refine ⟨hcanvas, ?_⟩
  intro hnone
  rw [highlights, if_neg (not_not.mpr hcanvas), hnone] at hh
  exact absurd hh List.not_mem_nil

theorem length_stopsOf (hmeasured : l.measured q ≠ []) :
    (l.stopsOf q).length = (l.measured q).length + 1 := by
  have hrects : (l.measured q).map Prod.snd ≠ [] := by simpa using hmeasured
  rw [stopsOf, length_stops _ hrects, List.length_map]

theorem stopsOf_ne_nil (hmeasured : l.measured q ≠ []) : l.stopsOf q ≠ [] := by
  rw [← List.length_pos_iff_ne_nil, length_stopsOf hmeasured]
  exact Nat.succ_pos _

/-- The bars are drawn over the union of the rectangles on screen. -/
theorem highlights_eq {span : Rect α} (hcanvas : q.canvas = l.canvas)
    (hspan : Rect.unions ((l.measured q).map Prod.snd) = some span) :
    l.highlights q = (Stop.chain 0 (l.stopsOf q)).zipIdx.map fun s => l.bar span s.1 s.2 := by
  rw [highlights, if_neg (not_not.mpr hcanvas)]
  simp only [hspan, stopsOf]

theorem exists_unions (hmeasured : l.measured q ≠ []) :
    ∃ span, Rect.unions ((l.measured q).map Prod.snd) = some span := by
  have hrects : (l.measured q).map Prod.snd ≠ [] := by simpa using hmeasured
  rw [← Option.ne_none_iff_exists']
  exact mt Rect.unions_eq_none_iff.mp hrects

theorem exists_highlights_eq (hcanvas : q.canvas = l.canvas) (hmeasured : l.measured q ≠ []) :
    ∃ span, l.highlights q =
      (Stop.chain 0 (l.stopsOf q)).zipIdx.map fun s => l.bar span s.1 s.2 := by
  obtain ⟨span, hspan⟩ := exists_unions hmeasured
  exact ⟨span, highlights_eq hcanvas hspan⟩

/-- There is one bar more than there are children measured. -/
theorem length_bars (hcanvas : q.canvas = l.canvas) (hmeasured : l.measured q ≠ []) :
    (l.highlights q).length = (l.measured q).length + 1 := by
  obtain ⟨span, hbars⟩ := exists_highlights_eq hcanvas hmeasured
  rw [hbars, List.length_map, List.length_zipIdx, Stop.length_chain, length_stopsOf hmeasured]

/-- Each bar is drawn at the stop with its number. -/
theorem getElem?_highlights {span : Rect α} (hcanvas : q.canvas = l.canvas)
    (hspan : Rect.unions ((l.measured q).map Prod.snd) = some span) (i : Nat) :
    (l.highlights q)[i]? = ((Stop.chain 0 (l.stopsOf q))[i]?).map fun s => l.bar span s i := by
  rw [highlights_eq hcanvas hspan, List.getElem?_map, List.getElem?_zipIdx, Nat.zero_add,
    Option.map_map]
  rfl

theorem exists_getElem?_highlights (hcanvas : q.canvas = l.canvas)
    (hmeasured : l.measured q ≠ []) :
    ∃ span, ∀ i, (l.highlights q)[i]? =
      ((Stop.chain 0 (l.stopsOf q))[i]?).map fun s => l.bar span s i := by
  obtain ⟨span, hspan⟩ := exists_unions hmeasured
  exact ⟨span, getElem?_highlights hcanvas hspan⟩

/-- The bar with a number stands at the stop with that number, and that is its row. -/
theorem bar_of_getElem? (hcanvas : q.canvas = l.canvas) (hmeasured : l.measured q ≠ [])
    {h : Highlight α} {i : Nat} (hi : (l.highlights q)[i]? = some h) :
    (l.stopsOf q)[i]? = some h.edge ∧ h.axis = l.kind.axis ∧ h.slot = l.slot i := by
  obtain ⟨span, hbars⟩ := exists_getElem?_highlights hcanvas hmeasured
  rw [hbars] at hi
  obtain ⟨s, hs, rfl⟩ := Option.map_eq_some_iff.mp hi
  refine ⟨?_, axis_bar l span s i, slot_bar l span s i⟩
  rw [edge_bar]
  exact Stop.position_of_getElem? hs

/-- A bar of a layout is viable if it catches the pointer, whatever else does. -/
theorem viable_iff_catches {c : Policy α} {p : Point α} {h : Highlight α}
    (hh : h ∈ l.highlights q) :
    Selection.Viable c p (l.highlights q) h ↔ h.Catches c false p := by
  obtain ⟨hcanvas, hmeasured⟩ := measured_of_mem_highlights hh
  have haxis : ∀ g ∈ l.highlights q, g.axis = l.kind.axis := by
    intro g hg
    obtain ⟨j, hj⟩ := List.mem_iff_getElem?.mp hg
    exact (bar_of_getElem? hcanvas hmeasured hj).2.1
  exact Selection.viable_iff_of_axis haxis hh

theorem mem_viable_iff_catches {c : Policy α} {p : Point α} {h : Highlight α} {i : Nat}
    (hi : (l.highlights q)[i]? = some h) :
    (h, i) ∈ Selection.viable c p (l.highlights q).zipIdx ↔ h.Catches c false p := by
  rw [Selection.mem_viable_zipIdx, and_iff_right hi]
  exact viable_iff_catches (List.mem_of_getElem? hi)

/-- All bars of a layout are drawn over the same span. -/
theorem spans_bar_iff {span : Rect α} {s t : Stop α} {row row' : Nat} {p : Point α} :
    (l.bar span s row).Spans p ↔ (l.bar span t row').Spans p := by
  unfold bar
  cases l.kind.axis <;> exact Iff.rfl

/-- Bars are numbered by their rows. -/
theorem zipIdx_bars (span : Rect α) (L : List (Stop α)) :
    (L.zipIdx.map fun s => l.bar span s.1 s.2).zipIdx =
      L.zipIdx.map fun s => (l.bar span s.1 s.2, s.2) := by
  apply List.ext_getElem?
  intro i
  simp only [List.getElem?_zipIdx, List.getElem?_map, Nat.zero_add, Option.map_map]
  rfl

/-- Within its span, a bar catches what its stop reaches. -/
theorem catches_bar {c : Policy Rat} (hc : 0 ≤ c.range) {span : Rect Rat} {s : Stop Rat}
    {row : Nat} {p : Point Rat} (hs : (l.bar span s row).Spans p) :
    (l.bar span s row).Catches c false p ↔
      s.Reaches (c.stopReach l.kind.axis) (p.along l.kind.axis) := by
  rw [Highlight.catches_iff_of_nonneg, reachBefore_bar, reachAfter_bar, axis_bar, edge_bar]
  · exact and_iff_right hs
  · rw [reachBefore_bar]
    exact Policy.stopReach_nonneg hc _ _
  · rw [reachAfter_bar]
    exact Policy.stopReach_nonneg hc _ _

/-- Within the span of its bars, what a layout offers is what its stops reach. -/
theorem viable_highlights {q : Query Rat} {p : Point Rat} {c : Policy Rat} (hc : 0 ≤ c.range)
    (hcanvas : q.canvas = l.canvas) (hmeasured : l.measured q ≠ [])
    (hspan : ∀ h ∈ l.highlights q, h.Spans p) :
    (Selection.viable c p (l.highlights q).zipIdx).map Prod.snd =
      Stop.reached (c.stopReach l.kind.axis) (p.along l.kind.axis) 0 (l.stopsOf q) 0 := by
  obtain ⟨span, hbars⟩ := exists_highlights_eq hcanvas hmeasured
  rw [hbars] at hspan ⊢
  have haxis : ∀ x ∈ (Stop.chain 0 (l.stopsOf q)).zipIdx.map fun s => (l.bar span s.1 s.2, s.2),
      x.1.axis = l.kind.axis := by
    intro x hx
    obtain ⟨s, -, rfl⟩ := List.mem_map.mp hx
    exact axis_bar l span s.1 s.2
  rw [zipIdx_bars, Selection.viable_of_axis haxis, List.filter_map, List.map_map, Stop.reached]
  congr 1
  apply List.filter_congr
  intro s hs
  exact decide_eq_decide.mpr (catches_bar hc (hspan _ (List.mem_map_of_mem hs)))

end Layout

end DragDrop
