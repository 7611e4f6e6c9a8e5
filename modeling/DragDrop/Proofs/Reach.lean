import DragDrop.Proofs.Catchment
import DragDrop.Proofs.Double.Infinity

/-! How far a bar reaches, in doubles. A reach is laid off from ONE edge of the bar, the left or
the top one, and the thickness of the bar is not added to it: of its box a bar catches what the
reach covers, and nothing beyond. To the left and to the right of a vertical bar the default
range counts for a side that declares nothing, or nothing above zero. A side that declares LESS
than the default loses the rest of it. -/

namespace DragDrop

/-! ## Reaches that are not below zero -/

namespace Policy

variable {c : Policy Float} {declared : Option Float} {scale : Float}

theorem zero_le_sideReach (hc : 0 ≤ c.range) : 0 ≤ c.sideReach declared := by
  cases declared with
  | none => exact hc
  | some v =>
    show 0 ≤ if 0 < v then v else c.range
    split
    · rename_i h
      exact Valued.le_of_strict h
    · exact hc

/-- Only between zero and the default range can a side declare less than the default. -/
theorem range_le_sideReach (hc : 0 ≤ c.range) (h : ∀ v ∈ declared, 0 < v → c.range ≤ v) :
    c.range ≤ c.sideReach declared := by
  have hself : c.range ≤ c.range := Double.reflexive (Double.number_of_zero_le hc)
  cases declared with
  | none => exact hself
  | some v =>
    show c.range ≤ if 0 < v then v else c.range
    split
    · rename_i hpos
      exact h v rfl hpos
    · exact hself

/-- What is left of a tolerance under the bias is not below zero, if it is a number. -/
theorem zero_le_biasedReach_of_isNaN (hc : 0 ≤ c.range) (hs : scale.isFinite = true)
    (h0 : 0 ≤ scale) (hn : ∀ v ∈ declared, (Scalar.nonneg v * scale).isNaN = false)
    (biased : Bool) : 0 ≤ c.biasedReach declared scale biased := by
  cases declared with
  | none => exact hc
  | some v =>
    have hv := Scalar.nonneg_float v
    cases biased with
    | false => exact hv
    | true => exact Double.zero_le_mul hv hs h0 (hn v rfl)

/-- If anything is left, it is a number even of an infinite tolerance. -/
theorem zero_le_biasedReach (hc : 0 ≤ c.range) (hs : scale.isFinite = true) (h0 : 0 < scale)
    (biased : Bool) : 0 ≤ c.biasedReach declared scale biased := by
  apply zero_le_biasedReach_of_isNaN hc hs (Valued.le_of_strict h0)
  intro v _
  exact Double.isNaN_mul_of_pos (Double.number_of_zero_le (Scalar.nonneg_float v)) hs h0

/-- Of a finite one it is a number in any case. -/
theorem zero_le_biasedReach_of_isFinite (hc : 0 ≤ c.range) (hs : scale.isFinite = true)
    (h0 : 0 ≤ scale) (hv : ∀ v ∈ declared, v.isFinite = true) (biased : Bool) :
    0 ≤ c.biasedReach declared scale biased := by
  apply zero_le_biasedReach_of_isNaN hc hs h0
  intro v hmem
  exact (Double.value_mul (Scalar.isFinite_nonneg (hv v hmem)) hs).1

end Policy

namespace Highlight

/-! ## The box of a bar -/

section Box

variable {α : Type} [Scalar α] {p : Point α} {h : Highlight α}

/-- How far the bar extends from the edge that it is measured from. -/
def thickness : Highlight α → α
  | vertical b => Scalar.nonneg b.width
  | horizontal b => Scalar.nonneg b.height

/-- The box of a bar is its span, from the edge on for as long as the bar is thick. -/
theorem contains_iff : h.bounds.Contains p ↔ h.Spans p ∧ h.edge ≤ p.along h.axis ∧
    p.along h.axis ≤ h.edge + h.thickness := by
  cases h with
  | vertical b => exact and_comm
  | horizontal b => exact Iff.rfl

/-- In its box, a bar catches as far as it reaches behind the edge. -/
theorem catches_iff_of_contains {c : Policy α} {biased : Bool} (hp : h.bounds.Contains p) :
    h.Catches c biased p ↔ p.along h.axis ≤ h.edge + h.reachAfter c biased := by
  obtain ⟨hspan, hedge, -⟩ := contains_iff.mp hp
  rw [catches_iff, if_pos hedge]
  exact and_iff_right hspan

end Box

variable {h : Highlight Float}

theorem isFinite_edge (hx : h.bar.x.isFinite = true) (hy : h.bar.y.isFinite = true) :
    h.edge.isFinite = true := by
  cases h
  · exact hx
  · exact hy

/-- The corner across from the upper left one belongs to the box. -/
theorem exists_corner (hx : h.bar.x.isFinite = true) (hy : h.bar.y.isFinite = true) :
    ∃ p, h.bounds.Contains p ∧ p.along h.axis = h.edge + h.thickness := by
  have hright : h.bounds.left ≤ h.bounds.right :=
    Double.le_add_of_zero_le hx (Scalar.nonneg_float h.bar.width)
  have hbottom : h.bounds.top ≤ h.bounds.bottom :=
    Double.le_add_of_zero_le hy (Scalar.nonneg_float h.bar.height)
  refine ⟨⟨h.bounds.right, h.bounds.bottom⟩, ⟨⟨hright, ?_⟩, ⟨hbottom, ?_⟩⟩, ?_⟩
  · exact Double.reflexive (Double.le_iff.mp hright).1.2
  · exact Double.reflexive (Double.le_iff.mp hbottom).1.2
  · cases h <;> rfl

/-- In its box a bar catches what it reaches from its edge, so ALL of the box if and only if the
reach goes to the far side, for which it has to be about as long as the bar is thick. What is
declared for behind the bar is not reached beyond the box; in front of the edge it is. -/
theorem box_caught_iff (hx : h.bar.x.isFinite = true) (hy : h.bar.y.isFinite = true)
    (c : Policy Float) (biased : Bool) :
    (∀ p, h.bounds.Contains p →
        (h.Catches c biased p ↔ p.along h.axis ≤ h.edge + h.reachAfter c biased)) ∧
      ((∀ p, h.bounds.Contains p → h.Catches c biased p) ↔
        h.edge + h.thickness ≤ h.edge + h.reachAfter c biased) ∧
      (h.thickness ≤ h.reachAfter c biased → ∀ p, h.bounds.Contains p → h.Catches c biased p) ∧
      ∀ p, h.Spans p → p.along h.axis < h.edge →
        (h.Catches c biased p ↔ h.edge - h.reachBefore c biased ≤ p.along h.axis) := by
  have hwhole (hle : h.edge + h.thickness ≤ h.edge + h.reachAfter c biased) :
      ∀ p, h.bounds.Contains p → h.Catches c biased p := by
    intro p hp
    exact (catches_iff_of_contains hp).mpr (Valued.transitive (contains_iff.mp hp).2.2 hle)
  refine ⟨fun p => catches_iff_of_contains, ⟨?_, hwhole⟩, ?_, fun p => catches_in_front⟩
  · intro hall
    obtain ⟨p, hp, hfar⟩ := exists_corner hx hy
    rw [← hfar]
    exact (catches_iff_of_contains hp).mp (hall p hp)
  · intro hle
    exact hwhole (Double.add_le_add_of_isFinite (isFinite_edge hx hy) hle)

/-- A bar that is three times as thick as it reaches. -/
def plank : Highlight Float := .vertical
  { x := 100, y := 0, width := 30, height := 40, zone := { left := some 10, right := some 10 } }

/-- Twenty pixels behind its edge the plank is painted, and does not catch the pointer. -/
theorem box_caught_plank :
    (plank.normalized == plank) = true ∧ plank.bar.x.isFinite = true ∧
      plank.bar.y.isFinite = true ∧ plank.bounds.Contains ⟨120, 20⟩ ∧
      ¬plank.Catches .standard false ⟨120, 20⟩ := by
  have hx : plank.bar.x.isFinite = true := by decide
  have hy : plank.bar.y.isFinite = true := by decide
  have hin : plank.bounds.Contains ⟨120, 20⟩ := by decide +kernel
  refine ⟨by decide +kernel, hx, hy, hin, ?_⟩
  rw [(box_caught_iff hx hy .standard false).1 _ hin]
  decide +kernel

end Highlight

/-! ## The default range of a vertical bar -/

/-- A coordinate is not farther from another one than the range, on either side. -/
def Double.Within (range a b : Float) : Prop := a - range ≤ b ∧ b ≤ a + range

/-- The ends of a range are rounded, and that leaves nothing out. -/
theorem Double.within_of_value {range a b : Float} (ha : a.isFinite = true)
    (hb : b.isFinite = true) (hr : 0 ≤ range) (h : |value b - value a| ≤ value range) :
    Within range a b := by
  have hn := number_of_zero_le hr
  by_cases hi : range.isInf = true
  · -- An infinite range ends at the infinities.
    have hadd := isNaN_add_of_isFinite ha hn
    have hsub := isNaN_add_of_isFinite ha ((isNaN_neg range).trans hn)
    have htop : value range = top := by
      rcases value_of_isInf hi with h | h
      · exact h
      · linarith [value_of_zero_le hr, top_pos]
    have hbound := abs_le.mp (abs_value_le_top b)
    constructor
    · rw [sub_eq_add]
      refine le_iff.mpr ⟨⟨hsub, isNaN_of_isFinite hb⟩, ?_⟩
      rw [value_add_right_of_isInf ((isInf_neg range).mpr hi) hsub, value_neg, htop]
      exact hbound.1
    · refine le_iff.mpr ⟨⟨isNaN_of_isFinite hb, hadd⟩, ?_⟩
      rw [value_add_right_of_isInf hi hadd, htop]
      exact hbound.2
  · have hfin := isFinite_of_not_isInf hn hi
    obtain ⟨hlo, hhi⟩ := abs_le.mp h
    exact ⟨sub_le_of_value ha hb hfin (by linarith), le_add_of_value ha hb hfin (by linarith)⟩

namespace Selection

section Always

variable {α : Type} [Scalar α] {c : Policy α} {p : Point α} {b : Bar α}

/-- The highlight is viable in EVERY list that it is in. -/
def AlwaysViable (c : Policy α) (p : Point α) (h : Highlight α) : Prop :=
  ∀ (hs : List (Highlight α)) (i : Nat), hs[i]? = some h → (h, i) ∈ viable c p hs.zipIdx

/-- Nothing in a list matters to a vertical bar but the bar. -/
theorem mem_viable_vertical_iff {hs : List (Highlight α)} {i : Nat}
    (hi : hs[i]? = some (.vertical b)) :
    (.vertical b, i) ∈ viable c p hs.zipIdx ↔ (Highlight.vertical b).Catches c false p := by
  rw [mem_viable_zipIdx, and_iff_right hi]
  exact Iff.rfl

theorem alwaysViable_vertical_iff :
    AlwaysViable c p (.vertical b) ↔ (Highlight.vertical b).Catches c false p := by
  constructor
  · intro hall
    exact (mem_viable_vertical_iff (i := 0) rfl).mp (hall [.vertical b] 0 rfl)
  · intro hp hs i hi
    exact (mem_viable_vertical_iff hi).mpr hp

end Always

variable {c : Policy Float} {b : Bar Float}

/-- A vertical bar is viable between the two places to which it reaches, in whatever list. So it
keeps the default range if and only if neither of them lies within that range. They do not,
where each side declares nothing, nothing above zero, or at least the default; a side that
declares LESS ends where it says. -/
theorem default_kept_iff (hc : 0 ≤ c.range) (hx : b.x.isFinite = true)
    (hy : b.y.isFinite = true) :
    (∀ (p : Point Float) (hs : List (Highlight Float)) (i : Nat), hs[i]? = some (.vertical b) →
        ((.vertical b, i) ∈ viable c p hs.zipIdx ↔ (Highlight.vertical b).Spans p ∧
          b.x - c.sideReach b.zone.left ≤ p.x ∧ p.x ≤ b.x + c.sideReach b.zone.right)) ∧
      ((∀ p, (Highlight.vertical b).Spans p → Double.Within c.range b.x p.x →
          AlwaysViable c p (.vertical b)) ↔
        b.x - c.sideReach b.zone.left ≤ b.x - c.range ∧
          b.x + c.range ≤ b.x + c.sideReach b.zone.right) ∧
      ((∀ v ∈ b.zone.left, 0 < v → c.range ≤ v) → (∀ v ∈ b.zone.right, 0 < v → c.range ≤ v) →
        ∀ p, (Highlight.vertical b).Spans p → p.x.isFinite = true →
          |Double.value p.x - Double.value b.x| ≤ Double.value c.range →
          AlwaysViable c p (.vertical b)) := by
  have hcatches (p : Point Float) : (Highlight.vertical b).Catches c false p ↔
      (Highlight.vertical b).Spans p ∧ b.x - c.sideReach b.zone.left ≤ p.x ∧
        p.x ≤ b.x + c.sideReach b.zone.right :=
    Highlight.catches_iff_between (Double.sub_le_of_zero_le hx (Policy.zero_le_sideReach hc))
      (Double.le_add_of_zero_le hx (Policy.zero_le_sideReach hc))
  have hkept (hl : b.x - c.sideReach b.zone.left ≤ b.x - c.range)
      (hr : b.x + c.range ≤ b.x + c.sideReach b.zone.right) (p : Point Float)
      (hspan : (Highlight.vertical b).Spans p) (hp : Double.Within c.range b.x p.x) :
      AlwaysViable c p (.vertical b) := by
    rw [alwaysViable_vertical_iff, hcatches]
    exact ⟨hspan, Valued.transitive hl hp.1, Valued.transitive hp.2 hr⟩
  refine ⟨?_, ⟨?_, fun h => hkept h.1 h.2⟩, ?_⟩
  · intro p hs i hi
    rw [mem_viable_vertical_iff hi, hcatches]
  · -- The two ends of the default range decide, at the top of the bar.
    intro hall
    have hsub := Double.sub_le_of_zero_le hx hc
    have hadd := Double.le_add_of_zero_le hx hc
    have hspan (x : Float) : (Highlight.vertical b).Spans ⟨x, b.y⟩ :=
      ⟨Double.reflexive (Double.isNaN_of_isFinite hy),
        Double.le_add_of_zero_le hy (Scalar.nonneg_float b.height)⟩
    have hleft := hall ⟨b.x - c.range, b.y⟩ (hspan _)
      ⟨Double.reflexive (Double.le_iff.mp hsub).1.1, Valued.transitive hsub hadd⟩
    have hright := hall ⟨b.x + c.range, b.y⟩ (hspan _)
      ⟨Valued.transitive hsub hadd, Double.reflexive (Double.le_iff.mp hadd).1.2⟩
    rw [alwaysViable_vertical_iff, hcatches] at hleft hright
    exact ⟨hleft.2.1, hright.2.2⟩
  · intro hleft hright p hspan hp hoffset
    exact hkept (Double.sub_le_sub_of_isFinite hx (Policy.range_le_sideReach hc hleft))
      (Double.add_le_add_of_isFinite hx (Policy.range_le_sideReach hc hright)) p hspan
      (Double.within_of_value hx hp hc hoffset)

/-- A bar that is close to its neighbour on the right. -/
def closeBar : Bar Float where
  x := 100
  y := 0
  width := 4
  height := 40
  zone := { left := some 24, right := some 3 }

/-- Eight pixels to the right of its edge the bar does not catch the pointer, though that is
less than the default range. To the left it keeps more than that range. -/
theorem default_kept_closeBar :
    (0 : Float) ≤ (Policy.standard : Policy Float).range ∧ closeBar.x.isFinite = true ∧
      closeBar.y.isFinite = true ∧ (Highlight.vertical closeBar).Spans ⟨108, 10⟩ ∧
      (.vertical closeBar, 0) ∉ viable .standard ⟨108, 10⟩ [Highlight.vertical closeBar].zipIdx ∧
      (.vertical closeBar, 0) ∈ viable .standard ⟨76, 10⟩ [Highlight.vertical closeBar].zipIdx := by
  have hc : (0 : Float) ≤ (Policy.standard : Policy Float).range := by decide
  have hx : closeBar.x.isFinite = true := by decide
  have hy : closeBar.y.isFinite = true := by decide
  have hiff := (default_kept_iff hc hx hy).1
  refine ⟨hc, hx, hy, by decide +kernel, ?_, ?_⟩
  · rw [hiff _ _ _ rfl]
    decide +kernel
  · rw [hiff _ _ _ rfl]
    decide +kernel

end Selection

end DragDrop
