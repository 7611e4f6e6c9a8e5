import DragDrop.Proofs.Double.Format
import DragDrop.Scalar

/-! The order of doubles. Every double but the one that is no number has a value,
an exact rational number, and doubles are ordered as their values are. An infinity
counts as the power of two that follows the greatest finite double. -/

namespace DragDrop.Double

open Float.Model Float.Model.UnpackedFloat

/-- The power of two that follows the greatest finite double. -/
def top : Rat := 2 ^ (1024 : Int)

/-- A number of this sign. -/
def signed : Sign → Rat → Rat
  | .negative, v => -v
  | .positive, v => v

/-- The value of what a double is made of. What is no number counts as zero. -/
def partsValue : UnpackedFloat → Rat
  | .finite s m e _ => signed s (m * 2 ^ e)
  | .infinity s => signed s top
  | .zero _ | .notANumber => 0

theorem two_zpow_pos (e : Int) : (0 : Rat) < 2 ^ e := zpow_pos (by simp) e

theorem two_zpow_le {e e' : Int} (h : e ≤ e') : (2 : Rat) ^ e ≤ 2 ^ e' :=
  zpow_le_zpow_right₀ (by simp) h

theorem two_zpow_add (e e' : Int) : (2 : Rat) ^ (e + e') = 2 ^ e * 2 ^ e' :=
  zpow_add₀ (by simp) e e'

/-- Finite parts are below the value of the infinity. -/
theorem finite_lt {m : Nat} {e : Int} (hm : m < 2 ^ 53) (he : e ≤ 971) :
    (m : Rat) * 2 ^ e < top := by
  have hm' : (m : Rat) < 2 ^ (53 : Int) := by exact_mod_cast hm
  calc (m : Rat) * 2 ^ e < 2 ^ (53 : Int) * 2 ^ e := mul_lt_mul_of_pos_right hm' (two_zpow_pos e)
    _ = 2 ^ (53 + e) := (two_zpow_add _ _).symm
    _ ≤ top := two_zpow_le (by omega)

/-- Of two significands the one with the greater exponent counts for more. -/
theorem finite_lt_finite {m₁ m₂ : Nat} {e₁ e₂ : Int} (h₁ : m₁ < 2 ^ 53) (hlo : -1074 ≤ e₁)
    (h₂ : 2 ^ 52 ≤ m₂ ∨ e₂ = -1074) (he : e₁ < e₂) : (m₁ : Rat) * 2 ^ e₁ < m₂ * 2 ^ e₂ := by
  have hn : 2 ^ 52 ≤ m₂ := h₂.resolve_right (by omega)
  have h₁' : (m₁ : Rat) < 2 ^ (53 : Int) := by exact_mod_cast h₁
  have h₂' : (2 : Rat) ^ (52 : Int) ≤ m₂ := by exact_mod_cast hn
  calc (m₁ : Rat) * 2 ^ e₁ < 2 ^ (53 : Int) * 2 ^ e₁ :=
        mul_lt_mul_of_pos_right h₁' (two_zpow_pos _)
    _ = 2 ^ (53 + e₁) := (two_zpow_add _ _).symm
    _ ≤ 2 ^ (52 + e₂) := two_zpow_le (by omega)
    _ = 2 ^ (52 : Int) * 2 ^ e₂ := two_zpow_add _ _
    _ ≤ m₂ * 2 ^ e₂ := mul_le_mul_of_nonneg_right h₂' (two_zpow_pos _).le

theorem compare_finite {m₁ m₂ : Nat} {e₁ e₂ : Int} (h₁ : m₁ < 2 ^ 53 ∧ -1074 ≤ e₁ ∧ e₁ ≤ 971 ∧
      (2 ^ 52 ≤ m₁ ∨ e₁ = -1074))
    (h₂ : m₂ < 2 ^ 53 ∧ -1074 ≤ e₂ ∧ e₂ ≤ 971 ∧ (2 ^ 52 ≤ m₂ ∨ e₂ = -1074)) :
    (compare e₁ e₂).then (compare m₁ m₂) = compare ((m₁ : Rat) * 2 ^ e₁) (m₂ * 2 ^ e₂) := by
  rcases lt_trichotomy e₁ e₂ with he | rfl | he
  · rw [compare_lt_iff_lt.mpr he, compare_lt_iff_lt.mpr (finite_lt_finite h₁.1 h₁.2.1 h₂.2.2.2 he)]
    rfl
  · rw [compare_eq_iff_eq.mpr rfl, Ordering.eq_then]
    have hp := two_zpow_pos e₁
    rcases lt_trichotomy m₁ m₂ with hm | rfl | hm
    · rw [compare_lt_iff_lt.mpr hm, compare_lt_iff_lt.mpr
        (mul_lt_mul_of_pos_right (by exact_mod_cast hm) hp)]
    · rw [compare_eq_iff_eq.mpr rfl, compare_eq_iff_eq.mpr rfl]
    · rw [compare_gt_iff_gt.mpr hm, compare_gt_iff_gt.mpr
        (mul_lt_mul_of_pos_right (by exact_mod_cast hm) hp)]
  · rw [compare_gt_iff_gt.mpr he, compare_gt_iff_gt.mpr
      (finite_lt_finite h₂.1 h₂.2.1 h₁.2.2.2 he)]
    rfl

theorem lt_of_value {x y : Rat} (h : x < y) : some Ordering.lt = some (compare x y) :=
  congrArg some (compare_lt_iff_lt.mpr h).symm

theorem gt_of_value {x y : Rat} (h : y < x) : some Ordering.gt = some (compare x y) :=
  congrArg some (compare_gt_iff_gt.mpr h).symm

theorem eq_of_value (x : Rat) : some Ordering.eq = some (compare x x) :=
  congrArg some (compare_eq_iff_eq.mpr rfl).symm

theorem compare_neg_neg (x y : Rat) : compare (-x) (-y) = (compare x y).swap := by
  rcases lt_trichotomy x y with h | rfl | h
  · rw [compare_lt_iff_lt.mpr h, compare_gt_iff_gt.mpr (neg_lt_neg h)]
    rfl
  · rw [compare_eq_iff_eq.mpr rfl, compare_eq_iff_eq.mpr rfl]
    rfl
  · rw [compare_gt_iff_gt.mpr h, compare_lt_iff_lt.mpr (neg_lt_neg h)]
    rfl

theorem top_pos : 0 < top := two_zpow_pos 1024

/-- The value of finite parts without their sign. -/
theorem finite_pos {m : Nat} (e : Int) (hm : 0 < m) : (0 : Rat) < m * 2 ^ e :=
  mul_pos (by exact_mod_cast hm) (two_zpow_pos e)

theorem compare_infinity {s : Sign} {b : UnpackedFloat} (hb : Canonical b)
    (nb : b ≠ .notANumber) :
    (infinity s).compare b = some (compare (signed s top) (partsValue b)) := by
  have ht := top_pos
  cases b with
  | notANumber => exact absurd rfl nb
  | infinity s' =>
    cases s <;> cases s' <;> simp only [partsValue, signed]
    · exact eq_of_value _
    · exact lt_of_value (by linarith)
    · exact gt_of_value (by linarith)
    · exact eq_of_value _
  | zero s' =>
    cases s <;> simp only [partsValue, signed]
    · exact lt_of_value (by linarith)
    · exact gt_of_value (by linarith)
  | finite s' m e hm =>
    have h := finite_lt hb.1 hb.2.2.1
    have hp := finite_pos e hm
    cases s <;> cases s' <;> simp only [partsValue, signed]
    · exact lt_of_value (by linarith)
    · exact lt_of_value (by linarith)
    · exact gt_of_value (by linarith)
    · exact gt_of_value (by linarith)

theorem compare_zero {s : Sign} {b : UnpackedFloat} (nb : b ≠ .notANumber) :
    (zero s).compare b = some (compare 0 (partsValue b)) := by
  have ht := top_pos
  cases b with
  | notANumber => exact absurd rfl nb
  | infinity s' =>
    cases s' <;> simp only [partsValue, signed]
    · exact gt_of_value (by linarith)
    · exact lt_of_value (by linarith)
  | zero s' => exact eq_of_value _
  | finite s' m e hm =>
    have hp := finite_pos e hm
    cases s' <;> simp only [partsValue, signed]
    · exact gt_of_value (by linarith)
    · exact lt_of_value (by linarith)

/-- Doubles are compared as their values are. -/
theorem compare_parts {a b : UnpackedFloat} (ha : Canonical a) (hb : Canonical b)
    (na : a ≠ .notANumber) (nb : b ≠ .notANumber) :
    a.compare b = some (compare (partsValue a) (partsValue b)) := by
  cases a with
  | notANumber => exact absurd rfl na
  | infinity s => exact compare_infinity hb nb
  | zero s => exact compare_zero nb
  | finite s m e hm =>
    have hp := finite_pos e hm
    cases b with
    | notANumber => exact absurd rfl nb
    | infinity s' =>
      have h := finite_lt ha.1 ha.2.2.1
      cases s <;> cases s' <;> simp only [partsValue, signed]
      · exact gt_of_value (by linarith)
      · exact lt_of_value (by linarith)
      · exact gt_of_value (by linarith)
      · exact lt_of_value (by linarith)
    | zero s' =>
      cases s <;> simp only [partsValue, signed]
      · exact lt_of_value (by linarith)
      · exact gt_of_value (by linarith)
    | finite s' m' e' hm' =>
      have hp' := finite_pos e' hm'
      cases s <;> cases s' <;> simp only [partsValue, signed]
      · simp only [UnpackedFloat.compare, compare_finite ha hb, compare_neg_neg]
      · exact lt_of_value (by linarith)
      · exact gt_of_value (by linarith)
      · exact congrArg some (compare_finite ha hb)

/-- The value of a double. What is no number counts as zero. -/
def value (x : Float) : Rat := partsValue x.toModel.unpack

theorem isNaN_eq_false_iff {x : Float} : x.isNaN = false ↔ x.toModel.unpack ≠ .notANumber := by
  unfold Float.isNaN Float.Model.isNaN
  cases x.toModel.unpack <;> simp [UnpackedFloat.isNaN]

theorem compare_number {a b : Float} (ha : a.isNaN = false) (hb : b.isNaN = false) :
    a.toModel.unpack.compare b.toModel.unpack = some (compare (value a) (value b)) :=
  compare_parts (canonical_unpack _) (canonical_unpack _) (isNaN_eq_false_iff.mp ha)
    (isNaN_eq_false_iff.mp hb)

theorem compare_isNaN {a b : Float} (h : ¬(a.isNaN = false ∧ b.isNaN = false)) :
    a.toModel.unpack.compare b.toModel.unpack = none := by
  rw [isNaN_eq_false_iff, isNaN_eq_false_iff] at h
  generalize a.toModel.unpack = u at h
  generalize b.toModel.unpack = v at h
  cases u <;> cases v <;> simp_all [UnpackedFloat.compare]

theorem lt_iff_compare {a b : Float} :
    a < b ↔ a.toModel.unpack.compare b.toModel.unpack = some .lt := by
  show decide (a.toModel.lt b.toModel = true) = true ↔ _
  rw [decide_eq_true_eq, Float.Model.lt, UnpackedFloat.lt, beq_iff_eq]

theorem le_iff_compare {a b : Float} :
    a ≤ b ↔ (a.toModel.unpack.compare b.toModel.unpack).any (·.isLE) := by
  show decide (a.toModel.le b.toModel = true) = true ↔ _
  rw [decide_eq_true_eq, Float.Model.le, UnpackedFloat.le]

theorem beq_iff_compare {a b : Float} :
    (a == b) = true ↔ a.toModel.unpack.compare b.toModel.unpack = some .eq := by
  show UnpackedFloat.beq _ _ = true ↔ _
  rw [UnpackedFloat.beq, beq_iff_eq]

theorem lt_iff {a b : Float} :
    a < b ↔ (a.isNaN = false ∧ b.isNaN = false) ∧ value a < value b := by
  rw [lt_iff_compare]
  by_cases h : a.isNaN = false ∧ b.isNaN = false
  · rw [compare_number h.1 h.2, Option.some.injEq, compare_lt_iff_lt]
    exact (and_iff_right h).symm
  · rw [compare_isNaN h]
    exact iff_of_false nofun fun hv => h hv.1

theorem le_iff {a b : Float} :
    a ≤ b ↔ (a.isNaN = false ∧ b.isNaN = false) ∧ value a ≤ value b := by
  rw [le_iff_compare]
  by_cases h : a.isNaN = false ∧ b.isNaN = false
  · rw [compare_number h.1 h.2, Option.any_some, ← compare_le_iff_le, Ordering.isLE_iff_ne_gt]
    exact (and_iff_right h).symm
  · rw [compare_isNaN h]
    exact iff_of_false nofun fun hv => h hv.1

theorem beq_iff {a b : Float} :
    (a == b) = true ↔ (a.isNaN = false ∧ b.isNaN = false) ∧ value a = value b := by
  rw [beq_iff_compare]
  by_cases h : a.isNaN = false ∧ b.isNaN = false
  · rw [compare_number h.1 h.2, Option.some.injEq, compare_eq_iff_eq]
    exact (and_iff_right h).symm
  · rw [compare_isNaN h]
    exact iff_of_false nofun fun hv => h hv.1

end DragDrop.Double
