import DragDrop.Proofs.Double.Sum
import DragDrop.Proofs.Layout.Bars

/-! The two outermost sides of a layout. They declare ZERO, and what that reaches is up
to the orientation. Along a row it is the standard range: a pointer that is not farther
than that from the outermost bar is caught, whichever way the edge of the reach was
rounded. Along a column it is NOTHING, so an outermost bar catches only what lies inside. -/

namespace DragDrop

/-- The first of two coordinates is less than the other one, by no more than a range.
An infinity is not near anything. -/
def Double.JustBelow (range a b : Float) : Prop :=
  (a.isFinite = true ∧ b.isFinite = true) ∧ a < b ∧
    Double.value b - Double.value a ≤ Double.value range

instance (range a b : Float) : Decidable (Double.JustBelow range a b) :=
  inferInstanceAs (Decidable (_ ∧ _))

namespace Double

variable {range a b : Float}

theorem JustBelow.sub_le (hr : range.isFinite = true) (h : JustBelow range a b) : b - range ≤ a :=
  sub_le_of_value h.1.2 h.1.1 hr (by linarith [h.2.2])

theorem JustBelow.le_add (hr : range.isFinite = true) (h : JustBelow range a b) :
    b ≤ a + range := le_add_of_value h.1.1 h.1.2 hr (by linarith [h.2.2])

theorem not_sub_zero_le (h : a < b) : ¬b - 0 ≤ a := by
  obtain ⟨⟨-, hb⟩, hlt⟩ := lt_iff.mp h
  intro hle
  have hvalue := (le_iff.mp hle).2
  rw [(value_sub_zero hb).2] at hvalue
  exact absurd hlt (not_lt.mpr hvalue)

theorem not_le_add_zero (h : a < b) : ¬b ≤ a + 0 := by
  obtain ⟨⟨ha, -⟩, hlt⟩ := lt_iff.mp h
  intro hle
  have hvalue := (le_iff.mp hle).2
  rw [(value_add_zero ha).2] at hvalue
  exact absurd hlt (not_lt.mpr hvalue)

end Double

theorem Policy.isFinite_range_standard : (standard : Policy Float).range.isFinite = true := by
  decide

section ZeroReach

variable {α : Type} [Scalar α]

/-- How far a side reaches that declares zero. -/
def Policy.zeroReach (c : Policy α) : Axis → α
  | .across => c.range
  | .down => 0

variable [Valued α] {c : Policy α} {p : Point α}

theorem Policy.stopReach_zero (axis : Axis) : c.stopReach axis 0 = c.zeroReach axis := by
  cases axis with
  | across =>
    show (if 0 < Scalar.nonneg 0 then Scalar.nonneg 0 else c.range) = c.range
    rw [Scalar.nonneg_zero, if_neg Selection.not_zero_lt_zero]
  | down => exact Scalar.nonneg_zero

namespace Layout

variable {l : Layout} {span : Rect α} {s : Stop α} {row : Nat}

theorem catches_before_zero (hs : s.before = 0) (hspan : (l.bar span s row).Spans p)
    (hp : p.along l.kind.axis < s.position) :
    (l.bar span s row).Catches c false p ↔
      s.position - c.zeroReach l.kind.axis ≤ p.along l.kind.axis := by
  rw [Highlight.catches_in_front hspan (by rwa [axis_bar, edge_bar]), reachBefore_bar, axis_bar,
    edge_bar, hs, Policy.stopReach_zero]

theorem catches_after_zero (hs : s.after = 0) (hspan : (l.bar span s row).Spans p)
    (hp : s.position < p.along l.kind.axis) :
    (l.bar span s row).Catches c false p ↔
      p.along l.kind.axis ≤ s.position + c.zeroReach l.kind.axis := by
  rw [Highlight.catches_behind hspan (by rwa [axis_bar, edge_bar]), reachAfter_bar, axis_bar,
    edge_bar, hs, Policy.stopReach_zero]

end Layout

end ZeroReach

namespace Layout

variable {l : Layout} {q : Query Float}

/-- The outermost bars of a row catch what is just outside of it, at either end. Those
of a column catch NOTHING outside of it, however near. -/
theorem outermost_viable (hcanvas : q.canvas = l.canvas) (hmeasured : l.measured q ≠ []) :
    ∃ first last, (l.highlights q).length = (l.measured q).length + 1 ∧
      (l.highlights q)[0]? = some first ∧
      (l.highlights q)[(l.measured q).length]? = some last ∧
      (l.kind.axis = .across →
        (∀ p, first.Spans p → Double.JustBelow Policy.standardRange p.x first.edge →
          (first, 0) ∈ Selection.viable .standard p (l.highlights q).zipIdx) ∧
        ∀ p, last.Spans p → Double.JustBelow Policy.standardRange last.edge p.x →
          (last, (l.measured q).length) ∈ Selection.viable .standard p (l.highlights q).zipIdx) ∧
      (l.kind.axis = .down →
        (∀ p, first.Spans p → p.y < first.edge →
          (first, 0) ∉ Selection.viable .standard p (l.highlights q).zipIdx) ∧
        ∀ p, last.Spans p → last.edge < p.y →
          (last, (l.measured q).length) ∉
            Selection.viable .standard p (l.highlights q).zipIdx) := by
  obtain ⟨span, hbars⟩ := exists_getElem?_highlights hcanvas hmeasured
  obtain ⟨s, hs, hbefore⟩ := Stop.exists_first 0 (stopsOf_ne_nil hmeasured)
  obtain ⟨t, ht, hafter⟩ := Stop.exists_last 0 (stopsOf_ne_nil hmeasured)
  rw [length_stopsOf hmeasured, Nat.add_sub_cancel] at ht
  have hfirst : (l.highlights q)[0]? = some (l.bar span s 0) := by rw [hbars, hs]; rfl
  have hlast : (l.highlights q)[(l.measured q).length]? =
      some (l.bar span t (l.measured q).length) := by rw [hbars, ht]; rfl
  refine ⟨_, _, length_bars hcanvas hmeasured, hfirst, hlast, ?_, ?_⟩
  · intro haxis
    constructor
    · intro p hspan hp
      rw [edge_bar] at hp
      rw [mem_viable_iff_catches hfirst,
        catches_before_zero hbefore hspan (by rw [haxis]; exact hp.2.1), haxis]
      exact hp.sub_le Policy.isFinite_range_standard
    · intro p hspan hp
      rw [edge_bar] at hp
      rw [mem_viable_iff_catches hlast,
        catches_after_zero hafter hspan (by rw [haxis]; exact hp.2.1), haxis]
      exact hp.le_add Policy.isFinite_range_standard
  · intro haxis
    constructor
    · intro p hspan hp
      rw [edge_bar] at hp
      rw [mem_viable_iff_catches hfirst,
        catches_before_zero hbefore hspan (by rw [haxis]; exact hp), haxis]
      exact Double.not_sub_zero_le hp
    · intro p hspan hp
      rw [edge_bar] at hp
      rw [mem_viable_iff_catches hlast,
        catches_after_zero hafter hspan (by rw [haxis]; exact hp), haxis]
      exact Double.not_le_add_zero hp

/-- A column with one child, in the corner of the canvas. -/
def panel : Layout where
  canvas := mainCanvas
  kind := .column
  path := [⟨"col"⟩]
  children := [⟨"a"⟩]

def panelDrag : Query Float where
  canvas := mainCanvas
  positions := .ofList [(⟨"a"⟩, ⟨0, 0, 300, 40⟩)]
  dragged := []

/-- Five pixels above its only child, the panel does not catch the pointer. -/
theorem outermost_viable_panel :
    ∃ first, (panel.highlights panelDrag)[0]? = some first ∧ first.Spans ⟨10, -5⟩ ∧
      Double.JustBelow Policy.standardRange (-5) first.edge ∧
      (first, 0) ∉ Selection.viable .standard ⟨10, -5⟩ (panel.highlights panelDrag).zipIdx := by
  have hnear : ∀ g ∈ (panel.highlights panelDrag)[0]?,
      g.Spans ⟨10, -5⟩ ∧ Double.JustBelow Policy.standardRange (-5) g.edge := by
    decide +kernel
  obtain ⟨first, last, -, hfirst, -, -, hcolumn⟩ := outermost_viable (l := panel)
    (q := panelDrag) rfl (List.ne_nil_of_length_pos (by decide +kernel))
  obtain ⟨hspan, hbelow⟩ := hnear first hfirst
  exact ⟨first, hfirst, hspan, hbelow, (hcolumn rfl).1 ⟨10, -5⟩ hspan hbelow.2.1⟩

end Layout

end DragDrop
