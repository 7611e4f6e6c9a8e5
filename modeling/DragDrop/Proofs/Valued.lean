import DragDrop.Proofs.Double.Order

/-! The order laws that the coordinates of both carriers obey. What is no number
is comparable to nothing; all else has an exact value and is ordered by it. -/

namespace DragDrop

/-- Coordinates with an exact value. -/
class Valued (α : Type) [Scalar α] where
  /-- The value of what is a number. -/
  value : α → Rat
  lt_iff {a b : α} :
    a < b ↔ (Scalar.isNaN a = false ∧ Scalar.isNaN b = false) ∧ value a < value b
  le_iff {a b : α} :
    a ≤ b ↔ (Scalar.isNaN a = false ∧ Scalar.isNaN b = false) ∧ value a ≤ value b

theorem Scalar.isNaN_float (x : Float) : Scalar.isNaN x = x.isNaN := by
  have h : x ≤ x ↔ x.isNaN = false := by rw [Double.le_iff]; simp
  cases hx : x.isNaN <;> simp_all [Scalar.isNaN]

theorem Scalar.nonneg_float (x : Float) : 0 ≤ Scalar.nonneg x := by
  by_cases h : 0 < x
  · rw [nonneg_of_pos h]
    obtain ⟨hn, hlt⟩ := Double.lt_iff.mp h
    exact Double.le_iff.mpr ⟨hn, hlt.le⟩
  · rw [nonneg_of_not_pos h]
    decide

/-- What has been cut off spans something, or nothing; it is a number in any case. -/
theorem Scalar.isFinite_nonneg {x : Float} (h : x.isFinite = true) :
    (Scalar.nonneg x).isFinite = true := by
  by_cases h0 : 0 < x
  · rwa [nonneg_of_pos h0]
  · rw [nonneg_of_not_pos h0]
    decide

instance : Valued Float where
  value := Double.value
  lt_iff {a b} := by rw [Scalar.isNaN_float, Scalar.isNaN_float]; exact Double.lt_iff
  le_iff {a b} := by rw [Scalar.isNaN_float, Scalar.isNaN_float]; exact Double.le_iff

instance : Valued Rat where
  value x := x
  lt_iff {a b} := by rw [Scalar.isNaN_rat, Scalar.isNaN_rat]; exact (and_iff_right ⟨rfl, rfl⟩).symm
  le_iff {a b} := by rw [Scalar.isNaN_rat, Scalar.isNaN_rat]; exact (and_iff_right ⟨rfl, rfl⟩).symm

namespace Valued

variable {α : Type} [Scalar α] [Valued α] {a b c : α}

theorem reflexive (ha : Scalar.isNaN a = false) : a ≤ a := le_iff.mpr ⟨⟨ha, ha⟩, le_rfl⟩

theorem transitive (hab : a ≤ b) (hbc : b ≤ c) : a ≤ c := by
  obtain ⟨⟨ha, -⟩, hle⟩ := le_iff.mp hab
  obtain ⟨⟨-, hc⟩, hle'⟩ := le_iff.mp hbc
  exact le_iff.mpr ⟨⟨ha, hc⟩, hle.trans hle'⟩

theorem le_of_strict (h : a < b) : a ≤ b := by
  obtain ⟨hn, hlt⟩ := lt_iff.mp h
  exact le_iff.mpr ⟨hn, hlt.le⟩

theorem le_of_not_strict (ha : Scalar.isNaN a = false) (hb : Scalar.isNaN b = false)
    (h : ¬a < b) : b ≤ a := by
  refine le_iff.mpr ⟨⟨hb, ha⟩, ?_⟩
  by_contra hlt
  exact h (lt_iff.mpr ⟨⟨ha, hb⟩, not_le.mp hlt⟩)

/-- Of two numbers, one is not greater than the other. -/
theorem le_of_not_le (ha : Scalar.isNaN a = false) (hb : Scalar.isNaN b = false)
    (h : ¬a ≤ b) : b ≤ a :=
  le_of_not_strict ha hb fun hlt => h (le_of_strict hlt)

/-- The place of a coordinate in an order in which what is no number comes last. -/
def rank (a : α) : WithTop Rat := if Scalar.isNaN a then ⊤ else value a

end Valued

end DragDrop
