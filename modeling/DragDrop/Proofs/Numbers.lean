import DragDrop.Proofs.Catchment
import DragDrop.Proofs.Double.Infinity

/-! What is no number never decides a selection. It is comparable to nothing, so a pointer or
a bar that has it for a coordinate fails every test; out of infinities it can still come up
in a distance, but only where the pointer and the bar are at the SAME infinity. Under a
finite pointer all distances are numbers, and not below zero. -/

namespace DragDrop

/-- One infinity, twice. -/
def Double.SameInfinity (x y : Float) : Prop := x.isInf = true ∧ (x == y) = true

instance (x y : Float) : Decidable (Double.SameInfinity x y) :=
  inferInstanceAs (Decidable (_ ∧ _))

namespace Double

variable {x y a b : Float}

theorem SameInfinity.of_isNaN_sub (hx : x.isNaN = false) (hy : y.isNaN = false)
    (h : (x - y).isNaN = true) : SameInfinity x y := by
  by_contra hne
  have hnumber : (x - y).isNaN = false := by
    apply isNaN_sub hx hy
    intro hi heq
    exact hne ⟨hi, beq_iff.mpr ⟨⟨hx, hy⟩, heq⟩⟩
  exact Bool.false_ne_true (hnumber.symm.trans h)

theorem not_sameInfinity_of_isFinite (hx : x.isFinite = true) : ¬SameInfinity x y :=
  fun h => (isFinite_iff_not_isInf.mp hx).2 h.1

/-- A vector of numbers has a length. -/
theorem zero_le_norm (hx : x.isNaN = false) (hy : y.isNaN = false) : 0 ≤ Scalar.norm x y :=
  zero_le_sqrt (zero_le_add (zero_le_mul_self hx) (zero_le_mul_self hy))

/-- What reaches from an edge to a place has both. -/
theorem isNaN_of_reaches (h : if x ≤ y then y ≤ x + a else x - b ≤ y) :
    x.isNaN = false ∧ y.isNaN = false := by
  split at h
  · rename_i hle
    exact (le_iff.mp hle).1
  · have hn := (le_iff.mp h).1
    exact ⟨isNaN_left_of_sub hn.1, hn.2⟩

end Double

namespace Highlight

variable {c : Policy Float} {biased : Bool} {p : Point Float} {h : Highlight Float}

/-- Neither the pointer nor the bar is without a number for a coordinate. -/
theorem numbers_of_catches (hp : h.Catches c biased p) :
    (p.x.isNaN = false ∧ p.y.isNaN = false) ∧
      (h.bar.x.isNaN = false ∧ h.bar.y.isNaN = false) := by
  cases h with
  | vertical b =>
    have hspan := (Double.le_iff.mp hp.1.1).1
    have hreach := Double.isNaN_of_reaches hp.2
    exact ⟨⟨hreach.2, hspan.2⟩, hreach.1, hspan.1⟩
  | horizontal b =>
    have hspan := (Double.le_iff.mp hp.1.1).1
    have hreach := Double.isNaN_of_reaches hp.2
    exact ⟨⟨hspan.2, hreach.2⟩, hspan.1, hreach.1⟩

theorem zero_le_distance (hs : h.Spans p) (hn : (p.along h.axis - h.edge).isNaN = false) :
    0 ≤ h.distance p := by
  rw [distance_eq_norm, overrun_of_spans hs]
  exact Double.zero_le_norm hn (Double.value_ofNat 0).1

/-- Whoever catches the pointer has a distance from it, unless both are at one infinity. -/
theorem zero_le_distance_of_catches (hp : h.Catches c biased p)
    (hne : ¬Double.SameInfinity (p.along h.axis) h.edge) : 0 ≤ h.distance p := by
  rw [catches_iff] at hp
  obtain ⟨hedge, hplace⟩ := Double.isNaN_of_reaches hp.2
  apply zero_le_distance hp.1
  by_contra hnan
  exact hne (.of_isNaN_sub hplace hedge (Bool.eq_true_of_not_eq_false hnan))

end Highlight

/-- Two numbers are compared by their order, and by nothing else. -/
theorem byDistance_of_numbers {a b : Float} (ha : a.isNaN = false) (hb : b.isNaN = false) :
    byDistance a b = .lt ∧ a < b ∨ byDistance a b = .gt ∧ b < a ∨
      byDistance a b = .eq ∧ (a == b) = true := by
  rcases lt_trichotomy (Double.value a) (Double.value b) with h | h | h
  · have hlt := Double.lt_iff.mpr ⟨⟨ha, hb⟩, h⟩
    exact .inl ⟨if_pos hlt, hlt⟩
  · have heq := Double.beq_iff.mpr ⟨⟨ha, hb⟩, h⟩
    exact .inr (.inr ⟨(byDistance_float a b).2.mpr (.inl heq), heq⟩)
  · have hgt := Double.lt_iff.mpr ⟨⟨hb, ha⟩, h⟩
    have hge : ¬a < b := fun hlt => h.not_gt (Double.lt_iff.mp hlt).2
    exact .inr (.inl ⟨(if_neg hge).trans (if_pos hgt), hgt⟩)

namespace Selection

variable {c : Policy Float} {p : Point Float} {κ : Type} {l : List (Highlight Float × κ)}
  {h : Highlight Float × κ}

theorem numbers_of_mem_viable (hh : h ∈ viable c p l) :
    (p.x.isNaN = false ∧ p.y.isNaN = false) ∧
      (h.1.bar.x.isNaN = false ∧ h.1.bar.y.isNaN = false) := by
  obtain ⟨biased, hcatches⟩ := exists_catches_of_mem_viable hh
  exact Highlight.numbers_of_catches hcatches

theorem zero_le_distance_of_mem_viable (hh : h ∈ viable c p l)
    (hne : ¬Double.SameInfinity (p.along h.1.axis) h.1.edge) : 0 ≤ h.1.distance p := by
  obtain ⟨biased, hcatches⟩ := exists_catches_of_mem_viable hh
  exact Highlight.zero_le_distance_of_catches hcatches hne

theorem zero_le_distance_of_isFinite (hx : p.x.isFinite = true) (hy : p.y.isFinite = true)
    (hh : h ∈ viable c p l) : 0 ≤ h.1.distance p := by
  apply zero_le_distance_of_mem_viable hh
  apply Double.not_sameInfinity_of_isFinite
  cases h.1.axis with
  | across => exact hx
  | down => exact hy

/-- What is no number never decides. With such a coordinate a pointer finds nothing viable,
and a bar is not viable itself. A viable one has a number for its distance, unless it is
measured at the very infinity the pointer is at. So under a finite pointer any two distances
are compared by the order of numbers, and the one that is picked is not below zero. -/
theorem numbers_decide (c : Policy Float) (p : Point Float) (hs : List (Highlight Float)) :
    (p.x.isNaN = true ∨ p.y.isNaN = true → viable c p hs.zipIdx = []) ∧
      (∀ h ∈ viable c p hs.zipIdx, h.1.bar.x.isNaN = false ∧ h.1.bar.y.isNaN = false) ∧
      (∀ h ∈ viable c p hs.zipIdx, (h.1.distance p).isNaN = true →
        Double.SameInfinity (p.along h.1.axis) h.1.edge) ∧
      (p.x.isFinite = true ∧ p.y.isFinite = true →
        (∀ h ∈ viable c p hs.zipIdx, ∀ g ∈ viable c p hs.zipIdx,
          byDistance (h.1.distance p) (g.1.distance p) = .lt ∧ h.1.distance p < g.1.distance p ∨
          byDistance (h.1.distance p) (g.1.distance p) = .gt ∧ g.1.distance p < h.1.distance p ∨
          byDistance (h.1.distance p) (g.1.distance p) = .eq ∧
            (h.1.distance p == g.1.distance p) = true) ∧
        ∀ h, pick c p hs = some h → (h.1.distance p).isNaN = false ∧ 0 ≤ h.1.distance p) := by
  refine ⟨?_, fun h hh => (numbers_of_mem_viable hh).2, ?_, ?_⟩
  · intro hnan
    rw [List.eq_nil_iff_forall_not_mem]
    intro h hh
    obtain ⟨⟨hx, hy⟩, -⟩ := numbers_of_mem_viable hh
    rcases hnan with h' | h'
    · exact Bool.false_ne_true (hx.symm.trans h')
    · exact Bool.false_ne_true (hy.symm.trans h')
  · intro h hh hnan
    by_contra hne
    have hle := zero_le_distance_of_mem_viable hh hne
    exact Bool.false_ne_true ((Double.number_of_zero_le hle).symm.trans hnan)
  · rintro ⟨hx, hy⟩
    refine ⟨?_, ?_⟩
    · intro h hh g hg
      exact byDistance_of_numbers
        (Double.number_of_zero_le (zero_le_distance_of_isFinite hx hy hh))
        (Double.number_of_zero_le (zero_le_distance_of_isFinite hx hy hg))
    · intro h hp
      have hle := zero_le_distance_of_isFinite hx hy (mem_of_firstLeast hp)
      exact ⟨Double.number_of_zero_le hle, hle⟩

/-- A bar at no place at all, one that is infinitely far to the right, and a row edge
whose reach is no number. -/
def torn : List (Highlight Float) :=
  [.vertical { x := 0 / 0, y := 0, width := 0, height := 40 },
    .vertical { x := 1 / 0, y := 0, width := 0, height := 40 },
    .horizontal { x := 0, y := 10, width := 300, height := 0, zone := { bottom := some (0 / 0) } }]

/-- Infinitely far to the right the pointer is no distance from the second bar. On the row
edge it is at distance zero, whatever the reach and the policy are. -/
theorem numbers_decide_torn :
    (viable .standard ⟨1 / 0, 5⟩ torn.zipIdx).map Prod.snd = [1] ∧
      (∃ h ∈ viable .standard ⟨1 / 0, 5⟩ torn.zipIdx, (h.1.distance ⟨1 / 0, 5⟩).isNaN = true ∧
        Double.SameInfinity ((⟨1 / 0, 5⟩ : Point Float).along h.1.axis) h.1.edge) ∧
      ∃ h, pick ⟨0 / 0, 0 / 0, 0 / 0⟩ ⟨20, 10⟩ torn = some h ∧ h.2 = 2 ∧
        (h.1.distance ⟨20, 10⟩).isNaN = false ∧ 0 ≤ h.1.distance ⟨20, 10⟩ := by
  have hnan : ∃ h ∈ viable .standard ⟨1 / 0, 5⟩ torn.zipIdx,
      (h.1.distance ⟨1 / 0, 5⟩).isNaN = true := by decide +kernel
  obtain ⟨h, hh, hdistance⟩ := hnan
  have hpick : (pick ⟨0 / 0, 0 / 0, 0 / 0⟩ ⟨20, 10⟩ torn).map Prod.snd = some 2 := by
    decide +kernel
  obtain ⟨g, hg, hplace⟩ := Option.map_eq_some_iff.mp hpick
  exact ⟨by decide +kernel,
    ⟨h, hh, hdistance, (numbers_decide .standard ⟨1 / 0, 5⟩ torn).2.2.1 h hh hdistance⟩,
    g, hg, hplace, ((numbers_decide ⟨0 / 0, 0 / 0, 0 / 0⟩ ⟨20, 10⟩ torn).2.2.2
      ⟨by decide +kernel, by decide +kernel⟩).2 g hg⟩

end Selection

end DragDrop
