import DragDrop.Proofs.Numbers
import DragDrop.Proofs.Reach

/-! Pointing at a bar itself. On its line a bar is at distance zero, and it catches the pointer
there if it reaches anything but LESS than nothing, which under the standard policy no bar
does: not one that declares zero, or what is no number, or an infinity of which the bias takes
its part. Other bars may be picked instead, but only at distance zero. -/

namespace DragDrop

theorem Double.norm_beq_zero {x y : Float} (hx : (x == 0) = true) (hy : (y == 0) = true) :
    (Scalar.norm x y == 0) = true :=
  sqrt_beq_zero (add_beq_zero (mul_self_beq_zero hx) (mul_self_beq_zero hy))

namespace Highlight

/-- The line of the bar goes through the pointer: it is at the edge, and within the span. -/
def Touches (p : Point Float) (h : Highlight Float) : Prop :=
  (p.along h.axis == h.edge) = true ∧ h.Spans p

instance (p : Point Float) (h : Highlight Float) : Decidable (h.Touches p) :=
  inferInstanceAs (Decidable (_ ∧ _))

variable {c : Policy Float} {biased : Bool} {p : Point Float} {h : Highlight Float}

theorem catches_of_touches (hp : (p.along h.axis).isFinite = true)
    (hr : 0 ≤ h.reachAfter c biased) (ht : h.Touches p) : h.Catches c biased p := by
  obtain ⟨⟨hplace, hedge⟩, hvalue⟩ := Double.beq_iff.mp ht.1
  have hfin : h.edge.isFinite = true := by
    rw [Double.isFinite_iff, ← hvalue]
    exact ⟨hedge, (Double.isFinite_iff.mp hp).2⟩
  have hbehind : h.edge ≤ p.along h.axis := Double.le_iff.mpr ⟨⟨hedge, hplace⟩, hvalue.ge⟩
  have hbefore : p.along h.axis ≤ h.edge := Double.le_iff.mpr ⟨⟨hplace, hedge⟩, hvalue.le⟩
  rw [catches_iff, if_pos hbehind]
  exact ⟨ht.2, Valued.transitive hbefore (Double.le_add_of_zero_le hfin hr)⟩

theorem distance_of_touches (hp : (p.along h.axis).isFinite = true) (ht : h.Touches p) :
    (h.distance p == 0) = true := by
  rw [distance_eq_norm, overrun_of_spans ht.2]
  exact Double.norm_beq_zero (Double.sub_beq_zero hp ht.1) (by decide)

/-- Under the standard policy no bar reaches less than nothing behind its edge. -/
theorem zero_le_reachAfter_standard (h : Highlight Float) (biased : Bool) :
    0 ≤ h.reachAfter .standard biased := by
  have hrange : (0 : Float) ≤ (Policy.standard : Policy Float).range := by decide
  cases h with
  | vertical b => exact Policy.zero_le_sideReach hrange
  | horizontal b => exact Policy.zero_le_biasedReach hrange (by decide) (by decide) biased

end Highlight

namespace Selection

variable {c : Policy Float} {p : Point Float} {hs : List (Highlight Float)}
  {h : Highlight Float} {i : Nat}

/-- Next to something viable at distance zero, what is picked is at distance zero. -/
theorem exists_pick_beq_zero (hx : p.x.isFinite = true) (hy : p.y.isFinite = true)
    (hv : (h, i) ∈ viable c p hs.zipIdx) (hd : (h.distance p == 0) = true) :
    ∃ g, pick c p hs = some g ∧ (g.1.distance p == 0) = true := by
  obtain ⟨hi, hviable⟩ := mem_viable_zipIdx.mp hv
  cases hp : pick c p hs with
  | none => exact absurd hviable (pick_eq_none_iff.mp hp h (List.mem_of_getElem? hi))
  | some g =>
    have hle := zero_le_distance_of_isFinite hx hy (mem_of_firstLeast hp)
    obtain ⟨hnumber, hzero⟩ := Double.beq_zero_iff.mp hd
    refine ⟨g, rfl, Double.beq_zero_iff.mpr ⟨Double.number_of_zero_le hle, ?_⟩⟩
    -- Were it farther away, then the one at zero would be nearer.
    by_contra hne
    have hpos : 0 < Double.value (g.1.distance p) :=
      lt_of_le_of_ne (Double.value_of_zero_le hle) (Ne.symm hne)
    have hnearer : h.distance p < g.1.distance p :=
      Double.lt_iff.mpr ⟨⟨hnumber, Double.number_of_zero_le hle⟩, hzero.trans_lt hpos⟩
    exact (best_of_pick hp).nearest h i hi hviable (byDistance_eq_lt_iff.mpr (.inl hnearer))

/-- A bar that a finite pointer touches is viable next to whatever other bars there are, with
whatever tolerances, and something at distance zero is picked. -/
theorem pick_touching (hx : p.x.isFinite = true) (hy : p.y.isFinite = true)
    (hi : hs[i]? = some h) (ht : h.Touches p) :
    (h, i) ∈ viable .standard p hs.zipIdx ∧
      ∃ g, pick .standard p hs = some g ∧ (g.1.distance p == 0) = true := by
  have hp : (p.along h.axis).isFinite = true := by
    cases h.axis with
    | across => exact hx
    | down => exact hy
  have hv : (h, i) ∈ viable .standard p hs.zipIdx := by
    rw [mem_viable_zipIdx, Viable]
    refine ⟨hi, ?_⟩
    split
    · exact Highlight.catches_of_touches hp (h.zero_le_reachAfter_standard false) ht
    · exact Highlight.catches_of_touches hp (h.zero_le_reachAfter_standard _) ht
  exact ⟨hv, exists_pick_beq_zero hx hy hv (Highlight.distance_of_touches hp ht)⟩

/-- A row edge that reaches nothing, in front of a bar that brings the bias in, and of one that
is far away and reaches everything. -/
def crowd : List (Highlight Float) :=
  [.horizontal { x := 0, y := 100, width := 300, height := 0, zone := { bottom := some (0 / 0) } },
    .vertical { x := 150, y := 80, width := 0, height := 60 },
    .vertical { x := 400, y := 0, width := 0, height := 200, zone := { left := some (1 / 0) } }]

/-- On the row edge all three are viable, and the row edge is picked. -/
theorem pick_touching_crowd : ∃ h : Highlight Float, crowd[0]? = some h ∧
    h.Touches ⟨155, 100⟩ ∧
    (viable .standard ⟨155, 100⟩ crowd.zipIdx).map Prod.snd = [1, 2, 0] ∧
    (h, 0) ∈ viable .standard ⟨155, 100⟩ crowd.zipIdx ∧
    ∃ g, pick .standard ⟨155, 100⟩ crowd = some g ∧ g.2 = 0 ∧
      (g.1.distance ⟨155, 100⟩ == 0) = true := by
  have htouches : ∀ h ∈ crowd[0]?, h.Touches ⟨155, 100⟩ := by decide +kernel
  have hplace : ∀ g ∈ pick .standard ⟨155, 100⟩ crowd, g.2 = 0 := by decide +kernel
  have hfirst : crowd[0]? = some (crowd.get ⟨0, by decide⟩) := rfl
  obtain ⟨hv, g, hg, hzero⟩ := pick_touching (p := ⟨155, 100⟩) (by decide) (by decide) hfirst
    (htouches _ rfl)
  exact ⟨_, rfl, htouches _ rfl, by decide +kernel, hv, g, hg, hplace g hg, hzero⟩

end Selection

end DragDrop
