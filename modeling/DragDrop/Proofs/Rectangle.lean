import DragDrop.Proofs.Reach

/-! Catchments are closed rectangles. The pointer is compared with ONE end of the reach, the one
on its own side of the edge, and that comes to both, since no reach turns round: not one that
was declared below zero, and not one of which the bias takes its part, though nothing may be
left of it. So what lies between two pointers that a highlight catches, it catches too. -/

namespace DragDrop

/-! ## Rectangles -/

section Between

variable {α : Type} [Scalar α]

/-- The second one lies between the others, whichever of these comes first. -/
def Between (a b c : α) : Prop := (a ≤ b ∧ b ≤ c) ∨ (c ≤ b ∧ b ≤ a)

instance (a b c : α) : Decidable (Between a b c) := inferInstanceAs (Decidable (_ ∨ _))

variable [Valued α]

theorem within_of_between {lo hi a b c : α} (ha : lo ≤ a ∧ a ≤ hi) (hc : lo ≤ c ∧ c ≤ hi)
    (hb : Between a b c) : lo ≤ b ∧ b ≤ hi := by
  rcases hb with ⟨hab, hbc⟩ | ⟨hcb, hba⟩
  · exact ⟨Valued.transitive ha.1 hab, Valued.transitive hbc hc.2⟩
  · exact ⟨Valued.transitive hc.1 hcb, Valued.transitive hba ha.2⟩

/-- A rectangle has no gaps. -/
theorem Rect.contains_of_between {r : Rect α} {p q m : Point α} (hp : r.Contains p)
    (hq : r.Contains q) (hx : Between p.x m.x q.x) (hy : Between p.y m.y q.y) : r.Contains m :=
  ⟨within_of_between hp.1 hq.1 hx, within_of_between hp.2 hq.2 hy⟩

/-- Where the edge lies between the ends of the reach, the catchment is all that is caught. -/
theorem Highlight.catches_iff_contains {c : Policy α} {biased : Bool} {p : Point α}
    {h : Highlight α} (hb : h.edge - h.reachBefore c biased ≤ h.edge)
    (ha : h.edge ≤ h.edge + h.reachAfter c biased) :
    h.Catches c biased p ↔ (h.catchment c biased).Contains p := by
  rw [catches_iff_between hb ha]
  cases h with
  | vertical b => exact and_comm
  | horizontal b => exact Iff.rfl

end Between

/-! ## Reaches that stay numbers -/

/-- Neither the default range nor a scale of the bias turns a reach round, and scales are finite:
an infinite one would make NO number of a tolerance of zero. -/
structure Policy.Outward (c : Policy Float) : Prop where
  range : 0 ≤ c.range
  bottomScale : c.bottomScale.isFinite = true ∧ 0 ≤ c.bottomScale
  topScale : c.topScale.isFinite = true ∧ 0 ≤ c.topScale

namespace Highlight

variable {c : Policy Float} {h : Highlight Float}

theorem zero_le_reachBefore (hc : c.Outward)
    (hz : ∀ v ∈ h.bar.zone.declared, v.isFinite = true) (biased : Bool) :
    0 ≤ h.reachBefore c biased := by
  cases h with
  | vertical b => exact Policy.zero_le_sideReach hc.range
  | horizontal b =>
    exact Policy.zero_le_biasedReach_of_isFinite hc.range hc.topScale.1 hc.topScale.2
      (DropZone.forall_mem_declared.mp hz).1 biased

theorem zero_le_reachAfter (hc : c.Outward)
    (hz : ∀ v ∈ h.bar.zone.declared, v.isFinite = true) (biased : Bool) :
    0 ≤ h.reachAfter c biased := by
  cases h with
  | vertical b => exact Policy.zero_le_sideReach hc.range
  | horizontal b =>
    exact Policy.zero_le_biasedReach_of_isFinite hc.range hc.bottomScale.1 hc.bottomScale.2
      (DropZone.forall_mem_declared.mp hz).2.1 biased

/-- What a highlight catches is a rectangle, the edges included, under the bias and without it,
as long as the tolerances that it declares are finite. So a pointer that lies between two that
it catches, in each coordinate by itself, is caught too. -/
theorem catches_rectangle (hc : c.Outward) (hx : h.bar.x.isFinite = true)
    (hy : h.bar.y.isFinite = true) (hz : ∀ v ∈ h.bar.zone.declared, v.isFinite = true)
    (biased : Bool) :
    (∀ p, h.Catches c biased p ↔ (h.catchment c biased).Contains p) ∧
      ∀ p q m, h.Catches c biased p → h.Catches c biased q →
        Between p.x m.x q.x → Between p.y m.y q.y → h.Catches c biased m := by
  have hedge := isFinite_edge hx hy
  have hrectangle (p : Point Float) :
      h.Catches c biased p ↔ (h.catchment c biased).Contains p :=
    catches_iff_contains (Double.sub_le_of_zero_le hedge (zero_le_reachBefore hc hz biased))
      (Double.le_add_of_zero_le hedge (zero_le_reachAfter hc hz biased))
  refine ⟨hrectangle, ?_⟩
  intro p q m hp hq hmx hmy
  rw [hrectangle] at hp hq ⊢
  exact Rect.contains_of_between hp hq hmx hmy

/-- A policy under which the bias leaves nothing of a reach downward, and doubles one upward. -/
def steep : Policy Float := ⟨10, 0, 2⟩

/-- A row edge that reaches both ways. -/
def eaves : Highlight Float := .horizontal
  { x := 0, y := 100, width := 300, height := 4, zone := { top := some 20, bottom := some 50 } }

/-- From one corner of the catchment to the one across, the row edge catches what lies between.
Below its line nothing is left of what it declares, though the bar is thick. -/
theorem catches_rectangle_eaves :
    steep.Outward ∧ eaves.bar.x.isFinite = true ∧ eaves.bar.y.isFinite = true ∧
      (∀ v ∈ eaves.bar.zone.declared, v.isFinite = true) ∧
      eaves.Catches steep true ⟨300, 60⟩ ∧ eaves.Catches steep true ⟨0, 100⟩ ∧
      eaves.Catches steep true ⟨150, 80⟩ ∧ ¬eaves.Catches steep true ⟨150, 101⟩ := by
  have hc : steep.Outward := ⟨by decide, by decide, by decide⟩
  have hx : eaves.bar.x.isFinite = true := by decide
  have hy : eaves.bar.y.isFinite = true := by decide
  have hz : ∀ v ∈ eaves.bar.zone.declared, v.isFinite = true := by decide
  have hright : eaves.Catches steep true ⟨300, 60⟩ := by decide
  have hleft : eaves.Catches steep true ⟨0, 100⟩ := by decide
  obtain ⟨hrectangle, hbetween⟩ := catches_rectangle hc hx hy hz true
  refine ⟨hc, hx, hy, hz, hright, hleft, ?_, ?_⟩
  · exact hbetween _ _ _ hright hleft (.inr (by decide)) (.inl (by decide))
  · intro hbelow
    rw [hrectangle] at hbelow
    exact absurd hbelow.2.2 (by decide)

end Highlight

end DragDrop
