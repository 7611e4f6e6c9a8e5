import DragDrop.Proofs.Layout.Bars

/-! A layout has no dead zone. Wherever the pointer is between its first and its last
stop, within the span of its bars, some bar is picked, and no bar of the layout is
nearer, whether it catches the pointer or not. -/

namespace DragDrop

namespace Selection

variable {c : Policy Rat} {p : Point Rat} {hs : List (Highlight Rat)}

theorem mem_map_snd_viable {i : Nat} :
    i ∈ (viable c p hs.zipIdx).map Prod.snd ↔ ∃ h, hs[i]? = some h ∧ Viable c p hs h := by
  rw [List.mem_map]
  constructor
  · rintro ⟨x, hx, rfl⟩
    exact ⟨x.1, mem_viable_zipIdx.mp hx⟩
  · rintro ⟨h, hh⟩
    exact ⟨(h, i), mem_viable_zipIdx.mpr hh, rfl⟩

/-- In exact numbers, nothing viable is nearer than the best. -/
theorem Best.distance_le {h : Highlight Rat × Nat} (hh : Best c p hs h) {g : Highlight Rat}
    {j : Nat} (hj : hs[j]? = some g) (hg : Viable c p hs g) : h.1.distance p ≤ g.distance p := by
  have hle := hh.nearest g j hj hg
  have hrank (x : Rat) : Valued.rank x = (x : WithTop Rat) := by
    rw [Valued.rank, Scalar.isNaN_rat]
    rfl
  rwa [byDistance_eq_compare, Ne, compare_lt_iff_lt, not_lt, hrank, hrank,
    WithTop.coe_le_coe] at hle

end Selection

namespace Layout

variable {l : Layout} {q : Query Rat} {p : Point Rat} {c : Policy Rat}

/-- Between the first and the last stop, one of the nearest bars is viable. -/
theorem exists_nearest_viable (hc : 0 ≤ c.range) (hcanvas : q.canvas = l.canvas)
    (hmeasured : l.measured q ≠ []) (hstops : (l.stopsOf q).Pairwise (· ≤ ·))
    (hspan : ∀ h ∈ l.highlights q, h.Spans p)
    (hfirst : ∀ s ∈ (l.stopsOf q).head?, s ≤ p.along l.kind.axis)
    (hlast : ∀ s ∈ (l.stopsOf q).getLast?, p.along l.kind.axis ≤ s) :
    ∃ (g : Highlight Rat) (j : Nat), (l.highlights q)[j]? = some g ∧
      Selection.Viable c p (l.highlights q) g ∧
      ∀ g' ∈ l.highlights q, g.offset p ≤ g'.offset p := by
  obtain ⟨x, hx, hreach, hmin⟩ := Stop.exists_nearest (Policy.reaching_stopReach hc l.kind.axis)
    le_rfl (stopsOf_ne_nil hmeasured) hstops hfirst hlast
  obtain ⟨j, hj⟩ := List.mem_iff_getElem?.mp hx
  have hplace : j ∈ (Selection.viable c p (l.highlights q).zipIdx).map Prod.snd := by
    rw [viable_highlights hc hcanvas hmeasured hspan]
    exact List.mem_map.mpr ⟨(x, j), List.mem_filter.mpr
      ⟨List.mem_zipIdx_iff_getElem?.mpr hj, decide_eq_true hreach⟩, rfl⟩
  obtain ⟨g, hg, hviable⟩ := Selection.mem_map_snd_viable.mp hplace
  refine ⟨g, j, hg, hviable, ?_⟩
  intro g' hg'
  obtain ⟨i, hi⟩ := List.mem_iff_getElem?.mp hg'
  obtain ⟨hedge, haxis, -⟩ := bar_of_getElem? hcanvas hmeasured hg
  obtain ⟨hedge', haxis', -⟩ := bar_of_getElem? hcanvas hmeasured hi
  have hposition : (l.stopsOf q)[j]? = some x.position := Stop.position_of_getElem? hj
  have hx : g.edge = x.position := Option.some.inj (hedge.symm.trans hposition)
  rw [Highlight.offset, Highlight.offset, haxis, haxis', hx, Scalar.abs_rat, Scalar.abs_rat]
  exact hmin g'.edge (List.mem_of_getElem? hedge')

/-- From half way between two neighbouring stops their bars are equally far. -/
theorem offset_eq_of_midway (hcanvas : q.canvas = l.canvas) (hmeasured : l.measured q ≠ [])
    {j : Nat} (hj : Midway (l.stopsOf q) (p.along l.kind.axis) j) {g h : Highlight Rat}
    (hg : (l.highlights q)[j]? = some g) (hh : (l.highlights q)[j + 1]? = some h) :
    g.offset p = h.offset p := by
  obtain ⟨a, b, ha, hb, hm⟩ := hj
  obtain ⟨hga, haxis, -⟩ := bar_of_getElem? hcanvas hmeasured hg
  obtain ⟨hhb, haxis', -⟩ := bar_of_getElem? hcanvas hmeasured hh
  have hga' : g.edge = a := Option.some.inj (hga.symm.trans ha)
  have hhb' : h.edge = b := Option.some.inj (hhb.symm.trans hb)
  have hneg : p.along l.kind.axis - b = -(p.along l.kind.axis - a) := by linarith
  rw [Highlight.offset, Highlight.offset, haxis, haxis', hga', hhb', Scalar.abs_rat,
    Scalar.abs_rat, hneg, abs_neg]

/-- Of two neighbours that are equally far, the one in front is picked. -/
theorem eq_of_midway (hcanvas : q.canvas = l.canvas) (hmeasured : l.measured q ≠ [])
    (hspan : ∀ h ∈ l.highlights q, h.Spans p) {h : Highlight Rat} {i j : Nat}
    (hbest : Selection.Best c p (l.highlights q) (h, i))
    (hj : Midway (l.stopsOf q) (p.along l.kind.axis) j)
    (hplaces : (Selection.viable c p (l.highlights q).zipIdx).map Prod.snd = [j, j + 1]) :
    i = j := by
  have hi : i ∈ (Selection.viable c p (l.highlights q).zipIdx).map Prod.snd :=
    Selection.mem_map_snd_viable.mpr ⟨h, hbest.inList, hbest.viable⟩
  rw [hplaces, List.mem_pair] at hi
  refine hi.resolve_right ?_
  rintro rfl
  obtain ⟨g, hg, hviable⟩ : ∃ g, (l.highlights q)[j]? = some g ∧
      Selection.Viable c p (l.highlights q) g := by
    rw [← Selection.mem_map_snd_viable, hplaces]
    exact List.mem_cons_self
  have htie : byDistance (g.distance p) (h.distance p) = .eq := by
    rw [Highlight.distance_of_spans (hspan g (List.mem_of_getElem? hg)),
      Highlight.distance_of_spans (hspan h (List.mem_of_getElem? hbest.inList)),
      offset_eq_of_midway hcanvas hmeasured hj hg hbest.inList, byDistance_eq_compare,
      compare_eq_iff_eq]
  have haxis : g.axis = h.axis := (bar_of_getElem? hcanvas hmeasured hg).2.1.trans
    (bar_of_getElem? hcanvas hmeasured hbest.inList).2.1.symm
  have hahead := hbest.ahead g j hg hviable htie (by simp)
  simp [Selection.Ahead, Highlight.isVertical_eq, haxis] at hahead

/-- Between the first and the last stop of a layout, and within the span of its bars,
there is ALWAYS a target, and no bar is nearer than it along the axis. Where no two
stops coincide, nothing else is even viable; only half way between two neighbours both
are, and the one in front is picked. -/
theorem pick_highlights_nearest (hcanvas : q.canvas = l.canvas) (hmeasured : l.measured q ≠ [])
    (hstops : (l.stopsOf q).Pairwise (· ≤ ·)) (hspan : ∀ h ∈ l.highlights q, h.Spans p)
    (hfirst : ∀ s ∈ (l.stopsOf q).head?, s ≤ p.along l.kind.axis)
    (hlast : ∀ s ∈ (l.stopsOf q).getLast?, p.along l.kind.axis ≤ s) :
    ∃ h i, Selection.pick .standard p (l.highlights q) = some (h, i) ∧ h.slot.row = i ∧
      (∀ g ∈ l.highlights q, h.offset p ≤ g.offset p) ∧
      ((l.stopsOf q).Pairwise (· < ·) →
        (∀ j, Midway (l.stopsOf q) (p.along l.kind.axis) j →
          (Selection.viable .standard p (l.highlights q).zipIdx).map Prod.snd = [j, j + 1] ∧
            i = j) ∧
        ((∀ j, ¬Midway (l.stopsOf q) (p.along l.kind.axis) j) →
          (Selection.viable .standard p (l.highlights q).zipIdx).map Prod.snd = [i])) := by
  have hc := Policy.range_standard_nonneg
  obtain ⟨g, j, hg, hviable, hmin⟩ :=
    exists_nearest_viable hc hcanvas hmeasured hstops hspan hfirst hlast
  cases hpick : Selection.pick .standard p (l.highlights q) with
  | none =>
    exact absurd hviable (Selection.pick_eq_none_iff.mp hpick g (List.mem_of_getElem? hg))
  | some x =>
    obtain ⟨h, i⟩ := x
    have hbest := Selection.best_of_pick hpick
    have hi : (l.highlights q)[i]? = some h := hbest.inList
    have hrow : h.slot.row = i := by
      rw [(bar_of_getElem? hcanvas hmeasured hi).2.2]
      rfl
    have hoffset : h.offset p ≤ g.offset p :=
      (Highlight.distance_le_iff (hspan h (List.mem_of_getElem? hi))
        (hspan g (List.mem_of_getElem? hg))).mp (hbest.distance_le hg hviable)
    refine ⟨h, i, rfl, hrow, fun g' hg' => hoffset.trans (hmin g' hg'), ?_⟩
    intro hstrict
    obtain ⟨hmid, hone⟩ := Stop.reached_spec (Policy.reaching_stopReach hc l.kind.axis) le_rfl
      (stopsOf_ne_nil hmeasured) hstrict hfirst hlast 0
    rw [← viable_highlights hc hcanvas hmeasured hspan] at hmid hone
    constructor
    · intro j hj
      have hplaces := hmid j hj
      rw [Nat.zero_add] at hplaces
      exact ⟨hplaces, eq_of_midway hcanvas hmeasured hspan hbest hj hplaces⟩
    · intro hnone
      obtain ⟨j, hj⟩ := hone hnone
      have hmem : i ∈ (Selection.viable .standard p (l.highlights q).zipIdx).map Prod.snd :=
        Selection.mem_map_snd_viable.mpr ⟨h, hi, hbest.viable⟩
      rw [hj, List.mem_singleton] at hmem
      rw [hj, hmem]

/-- A column that is one child short, which is being dragged, and has another one that
is not on screen. -/
def sidebar : Layout where
  canvas := mainCanvas
  kind := .alignedColumn
  path := [⟨"page"⟩, ⟨"sidebar"⟩]
  children := [⟨"title"⟩, ⟨"search"⟩, ⟨"menu"⟩, ⟨"footer"⟩]

/-- What is on screen while the second child is dragged. -/
def sidebarDrag : Query Rat where
  canvas := mainCanvas
  positions := .ofList [(⟨"title"⟩, ⟨10, 0, 40, 30⟩), (⟨"search"⟩, ⟨10, 30, 40, 30⟩),
    (⟨"menu"⟩, ⟨12, 60, 60, 20⟩)]
  dragged := [⟨⟨"search"⟩, "INPUT", .fill⟩]

theorem pick_sidebar_midway :
    ∃ h i, Selection.pick .standard ⟨72, 30⟩ (sidebar.highlights sidebarDrag) = some (h, i) ∧
      h.slot.row = i ∧
      (∀ g ∈ sidebar.highlights sidebarDrag, h.offset ⟨72, 30⟩ ≤ g.offset ⟨72, 30⟩) ∧
      (Selection.viable .standard ⟨72, 30⟩ (sidebar.highlights sidebarDrag).zipIdx).map Prod.snd =
        [0, 1] ∧ i = 0 := by
  have hmid : Midway (sidebar.stopsOf sidebarDrag) 30 0 :=
    ⟨0, 60, by decide +kernel, by decide +kernel, by norm_num⟩
  obtain ⟨h, i, hpick, hrow, hmin, hstrict⟩ := pick_highlights_nearest
    (l := sidebar) (q := sidebarDrag) (p := ⟨72, 30⟩) rfl (by decide +kernel) (by decide +kernel)
    (by decide +kernel) (by decide +kernel) (by decide +kernel)
  exact ⟨h, i, hpick, hrow, hmin, (hstrict (by decide +kernel)).1 0 hmid⟩

end Layout

end DragDrop
