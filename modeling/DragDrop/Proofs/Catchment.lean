import DragDrop.Catchment
import DragDrop.Proofs.Selection

/-! Both kinds of highlight, seen alike. A highlight is measured along ONE axis,
from its edge, and it spans the other; whether it catches a pointer is a matter of
the two apart. Within the span the distance is the offset along the axis, so in
exact numbers candidates are ranked by their offsets. -/

namespace DragDrop

theorem Scalar.abs_rat (x : Rat) : Scalar.abs x = |x| := by
  show (if x < 0 then -x else x) = |x|
  split
  · rename_i h
    exact (abs_of_neg h).symm
  · rename_i h
    exact (abs_of_nonneg (not_lt.mp h)).symm

theorem Scalar.zero_le_nonneg (x : Rat) : 0 ≤ Scalar.nonneg x := by
  unfold Scalar.nonneg
  split
  · rename_i h
    exact le_of_lt h
  · exact le_rfl

/-- A vector is as long with its components exchanged. -/
instance : Std.Commutative (@Scalar.norm Rat _) where
  comm x y := add_comm (x * x) (y * y)

variable {α : Type} [Scalar α]

/-- Within the span there is no overshoot. -/
theorem overshoot_of_within [Valued α] {v lo hi : α} (hlo : lo ≤ v) (hhi : v ≤ hi) :
    overshoot v lo hi = 0 := by
  have hlo' : ¬v < lo := fun h =>
    not_le.mpr (Valued.lt_iff.mp h).2 (Valued.le_iff.mp hlo).2
  have hhi' : ¬hi < v := fun h =>
    not_le.mpr (Valued.lt_iff.mp h).2 (Valued.le_iff.mp hhi).2
  rw [overshoot, if_neg hlo', if_neg hhi']

/-- The coordinate of a point along an axis. -/
def Point.along {α : Type} (p : Point α) : Axis → α
  | .across => p.x
  | .down => p.y

namespace Highlight

/-- The axis along which a highlight is measured. -/
def axis {α : Type} : Highlight α → Axis
  | vertical _ => .across
  | horizontal _ => .down

/-- The edge from which it is measured. -/
def edge : Highlight α → α
  | vertical b => b.bounds.left
  | horizontal b => b.bounds.top

/-- How far the pointer is from the edge, along the axis. -/
def offset (p : Point α) (h : Highlight α) : α := Scalar.abs (p.along h.axis - h.edge)

/-- Whether the pointer lies within the run of the bar. -/
def Spans (p : Point α) : Highlight α → Prop
  | vertical b => b.bounds.top ≤ p.y ∧ p.y ≤ b.bounds.bottom
  | horizontal b => b.bounds.left ≤ p.x ∧ p.x ≤ b.bounds.right

instance (p : Point α) : (h : Highlight α) → Decidable (h.Spans p)
  | vertical _ => inferInstanceAs (Decidable (_ ∧ _))
  | horizontal _ => inferInstanceAs (Decidable (_ ∧ _))

/-- How far the pointer is past the ends of the run, with a sign. -/
def overrun (p : Point α) : Highlight α → α
  | vertical b => overshoot p.y b.bounds.top b.bounds.bottom
  | horizontal b => overshoot p.x b.bounds.left b.bounds.right

/-- How far the highlight reaches in front of its edge. -/
def reachBefore (c : Policy α) (biased : Bool) : Highlight α → α
  | vertical b => c.sideReach b.zone.left
  | horizontal b => c.reachAbove biased b.zone

/-- How far the highlight reaches behind its edge. -/
def reachAfter (c : Policy α) (biased : Bool) : Highlight α → α
  | vertical b => c.sideReach b.zone.right
  | horizontal b => c.reachBelow biased b.zone

omit [Scalar α] in
theorem isVertical_eq (h : Highlight α) : h.isVertical = decide (h.axis = .across) := by
  cases h <;> rfl

/-- A distance is made of what the pointer is away along the axis, and past the run. -/
theorem distance_eq_norm [Std.Commutative (@Scalar.norm α _)] (p : Point α) (h : Highlight α) :
    h.distance p = Scalar.norm (p.along h.axis - h.edge) (h.overrun p) := by
  cases h with
  | vertical b => rfl
  | horizontal b => exact @Std.Commutative.comm α Scalar.norm _ _ _

theorem overrun_of_spans [Valued α] {p : Point α} {h : Highlight α} (hs : h.Spans p) :
    h.overrun p = 0 := by
  cases h with
  | vertical b | horizontal b => exact overshoot_of_within hs.1 hs.2

theorem catches_iff {c : Policy α} {biased : Bool} {p : Point α} {h : Highlight α} :
    h.Catches c biased p ↔ h.Spans p ∧
      if h.edge ≤ p.along h.axis then p.along h.axis ≤ h.edge + h.reachAfter c biased
      else h.edge - h.reachBefore c biased ≤ p.along h.axis := by
  cases h <;> exact Iff.rfl

/-- In front of its edge, a bar catches as far as it reaches there. -/
theorem catches_in_front [Valued α] {c : Policy α} {biased : Bool} {p : Point α}
    {h : Highlight α} (hs : h.Spans p) (hp : p.along h.axis < h.edge) :
    h.Catches c biased p ↔ h.edge - h.reachBefore c biased ≤ p.along h.axis := by
  have hlt := (Valued.lt_iff.mp hp).2
  rw [catches_iff, if_neg fun hle => not_le.mpr hlt (Valued.le_iff.mp hle).2]
  exact and_iff_right hs

theorem catches_behind [Valued α] {c : Policy α} {biased : Bool} {p : Point α}
    {h : Highlight α} (hs : h.Spans p) (hp : h.edge < p.along h.axis) :
    h.Catches c biased p ↔ p.along h.axis ≤ h.edge + h.reachAfter c biased := by
  obtain ⟨hn, hlt⟩ := Valued.lt_iff.mp hp
  rw [catches_iff, if_pos (Valued.le_iff.mpr ⟨hn, hlt.le⟩)]
  exact and_iff_right hs

/-- A catchment is an interval, if the edge lies between its ends. -/
theorem catches_iff_between [Valued α] {c : Policy α} {biased : Bool} {p : Point α}
    {h : Highlight α} (hb : h.edge - h.reachBefore c biased ≤ h.edge)
    (ha : h.edge ≤ h.edge + h.reachAfter c biased) :
    h.Catches c biased p ↔ h.Spans p ∧ h.edge - h.reachBefore c biased ≤ p.along h.axis ∧
      p.along h.axis ≤ h.edge + h.reachAfter c biased := by
  rw [catches_iff]
  refine and_congr_right fun _ => ?_
  split
  · rename_i hle
    exact ⟨fun h' => ⟨Valued.transitive hb hle, h'⟩, And.right⟩
  · rename_i hnot
    refine ⟨fun h' => ⟨h', Valued.transitive ?_ ha⟩, And.left⟩
    exact Valued.le_of_not_le (Valued.le_iff.mp ha).1.1 (Valued.le_iff.mp h').1.2 hnot

/-- In exact numbers it does where no reach is below zero. -/
theorem catches_iff_of_nonneg {c : Policy Rat} {biased : Bool} {p : Point Rat}
    {h : Highlight Rat} (hb : 0 ≤ h.reachBefore c biased) (ha : 0 ≤ h.reachAfter c biased) :
    h.Catches c biased p ↔ h.Spans p ∧ h.edge - h.reachBefore c biased ≤ p.along h.axis ∧
      p.along h.axis ≤ h.edge + h.reachAfter c biased :=
  catches_iff_between (sub_le_self h.edge hb) (le_add_of_nonneg_right ha)

/-- Within the span nothing but the offset counts. -/
theorem distance_of_spans {p : Point Rat} {h : Highlight Rat} (hs : h.Spans p) :
    h.distance p = h.offset p * h.offset p := by
  rw [distance_eq_norm, overrun_of_spans hs, offset, Scalar.abs_rat, abs_mul_abs_self]
  show (p.along h.axis - h.edge) * (p.along h.axis - h.edge) + 0 * 0 = _
  rw [mul_zero, add_zero]

theorem offset_nonneg (p : Point Rat) (h : Highlight Rat) : 0 ≤ h.offset p := by
  rw [offset, Scalar.abs_rat]
  exact abs_nonneg _

theorem distance_le_iff {p : Point Rat} {h g : Highlight Rat} (hs : h.Spans p) (gs : g.Spans p) :
    h.distance p ≤ g.distance p ↔ h.offset p ≤ g.offset p := by
  rw [distance_of_spans hs, distance_of_spans gs]
  exact (mul_self_le_mul_self_iff (h.offset_nonneg p) (g.offset_nonneg p)).symm

end Highlight

/-- What is viable catches the pointer, under the bias or without it. -/
theorem Selection.exists_catches_of_mem_viable {c : Policy α} {p : Point α} {κ : Type}
    {l : List (Highlight α × κ)} {h : Highlight α × κ} (hh : h ∈ viable c p l) :
    ∃ biased, h.1.Catches c biased p := by
  rcases List.mem_append.mp hh with hv | hh
  · exact ⟨_, (mem_verticals.mp hv).2.2⟩
  · exact ⟨_, (mem_horizontals.mp hh).2.2⟩

end DragDrop
