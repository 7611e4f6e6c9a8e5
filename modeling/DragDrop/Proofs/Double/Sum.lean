import DragDrop.Proofs.Double.Arithmetic

/-! Sums and differences of doubles. The exact result is rounded ONCE, so a comparison
with a double that was made before the rounding is right after it too. Adding a zero
changes no value, not even an infinite one. -/

namespace DragDrop.Double

open Float.Model Float.Model.UnpackedFloat

/-- Parts that a double can have keep their value. -/
theorem value_ofModel_of_canonical {u : UnpackedFloat} (h : Canonical u) :
    (Float.ofModel (.pack u)).isNaN = u.isNaN ∧ value (.ofModel (.pack u)) = partsValue u := by
  refine ⟨?_, ?_⟩
  · show (Float.Model.pack u).unpack.isNaN = _
    rw [unpack_pack h]
  · show partsValue (Float.Model.pack u).unpack = _
    rw [unpack_pack h]

/-- A significand with a sign is rounded by its size. -/
theorem value_normalize (m e : Int) :
    (Float.ofModel (.pack (UnpackedFloat.normalize Format.binary64 m e .positive))).isNaN = false ∧
      value (.ofModel (.pack (UnpackedFloat.normalize Format.binary64 m e .positive))) =
        nearest (m * 2 ^ e) := by
  rcases lt_trichotomy m 0 with h | rfl | h
  · obtain ⟨k, rfl⟩ := Int.exists_eq_neg_ofNat h.le
    have hk : 0 < k := by omega
    have hnorm : UnpackedFloat.normalize Format.binary64 (-(k : Int)) e .positive =
        UnpackedFloat.round Format.binary64 .negative k e := by
      rw [UnpackedFloat.normalize, compare_lt_iff_lt.mpr h, neg_neg, Int.toNat_natCast]
    have hvalue : ((-(k : Int) : Int) : Rat) * 2 ^ e = signed .negative (k * 2 ^ e) := by
      push_cast
      exact neg_mul _ _
    rw [hnorm, hvalue]
    exact value_ofModel_pack (by positivity) (value_round .negative hk e)
  · have hnorm : UnpackedFloat.normalize Format.binary64 0 e .positive = .zero .positive := rfl
    rw [hnorm, Int.cast_zero, zero_mul, nearest_of_nonneg le_rfl, rounded_zero,
      min_eq_left top_pos.le]
    exact value_ofModel_of_canonical trivial
  · obtain ⟨k, rfl⟩ := Int.eq_ofNat_of_zero_le h.le
    have hk : 0 < k := by omega
    have hnorm : UnpackedFloat.normalize Format.binary64 k e .positive =
        UnpackedFloat.round Format.binary64 .positive k e := by
      rw [UnpackedFloat.normalize, compare_gt_iff_gt.mpr h, Int.toNat_natCast]
    rw [hnorm, Int.cast_natCast]
    exact value_ofModel_pack (s := .positive) (by positivity) (value_round .positive hk e)

/-- A significand is brought to a lower exponent without loss. -/
theorem apply_decreaseExponent (s : Sign) (m : Nat) {e t : Int} (h : t ≤ e) :
    ((s.apply (decreaseExponent m e t).1 : Int) : Rat) * 2 ^ t = signed s (m * 2 ^ e) := by
  obtain ⟨k, hk⟩ := Int.eq_ofNat_of_zero_le (sub_nonneg.mpr h)
  have he : e = k + t := by omega
  have hfst : (decreaseExponent m e t).1 = m <<< k := by
    show m <<< (e - t).toNat = m <<< k
    rw [hk, Int.toNat_natCast]
  have hvalue : ((m <<< k : Nat) : Rat) * 2 ^ t = m * 2 ^ e := by
    rw [Nat.shiftLeft_eq, he, two_zpow_add, zpow_natCast]
    push_cast
    rw [mul_assoc]
  rw [hfst, ← hvalue]
  cases s with
  | positive => rfl
  | negative =>
    show ((-((m <<< k : Nat) : Int) : Int) : Rat) * 2 ^ t = -(_ * _)
    rw [Int.cast_neg, Int.cast_natCast, neg_mul]

theorem value_add_of_zero {x z : Float} {s : Sign} (hx : x.isNaN = false)
    (hz : z.toModel.unpack = .zero s) : (x + z).isNaN = false ∧ value (x + z) = value x := by
  have hsum : x + z = .ofModel (.pack (UnpackedFloat.add Format.binary64 x.toModel.unpack
      (.zero s))) := by
    rw [← hz]
    rfl
  have hc := canonical_unpack x.toModel
  rw [isNaN_eq_false_iff] at hx
  rw [hsum, value.eq_def x]
  generalize x.toModel.unpack = u at hc hx
  cases u with
  | notANumber => exact absurd rfl hx
  | infinity t => exact value_ofModel_of_canonical (u := .infinity t) trivial
  | finite t m e hm => exact value_ofModel_of_canonical (u := .finite t m e hm) hc
  | zero t => cases t <;> cases s <;> exact value_ofModel_of_canonical (u := .zero _) trivial

/-- A sum is the double nearest to the exact one. -/
theorem value_add {a b : Float} (ha : a.isFinite = true) (hb : b.isFinite = true) :
    (a + b).isNaN = false ∧ value (a + b) = nearest (value a + value b) := by
  obtain ⟨s₁, m₁, e₁, h₁, -⟩ := exists_parts ha
  obtain ⟨s₂, m₂, e₂, h₂, -⟩ := exists_parts hb
  have hsum : a + b = .ofModel (.pack (UnpackedFloat.add Format.binary64 a.toModel.unpack
      b.toModel.unpack)) := rfl
  -- A zero has no exponent to align, and is added by a rule of its own.
  rcases m₂.eq_zero_or_pos with rfl | hm₂
  · rw [value_eq_zero_of_parts h₂, add_zero, nearest_value ha]
    exact value_add_of_zero (isNaN_of_isFinite ha) h₂
  rcases m₁.eq_zero_or_pos with rfl | hm₁
  · have hadd : UnpackedFloat.add Format.binary64 a.toModel.unpack b.toModel.unpack =
        b.toModel.unpack := by
      rw [h₁, h₂, parts, parts, dif_pos rfl, dif_neg hm₂.ne']
      rfl
    obtain ⟨hn, hv⟩ := value_ofModel_of_canonical (canonical_unpack b.toModel)
    rw [value_eq_zero_of_parts h₁, zero_add, nearest_value hb, hsum, hadd]
    exact ⟨hn.trans (isNaN_of_isFinite hb), hv⟩
  · have hadd : UnpackedFloat.add Format.binary64 a.toModel.unpack b.toModel.unpack =
        UnpackedFloat.normalize Format.binary64
          (s₁.apply (decreaseExponent m₁ e₁ (min e₁ e₂)).1 +
            s₂.apply (decreaseExponent m₂ e₂ (min e₁ e₂)).1) (min e₁ e₂) .positive := by
      rw [h₁, h₂, parts, parts, dif_neg hm₁.ne', dif_neg hm₂.ne']
      rfl
    rw [hsum, hadd, value_parts h₁, value_parts h₂,
      ← apply_decreaseExponent s₁ m₁ (min_le_left e₁ e₂),
      ← apply_decreaseExponent s₂ m₂ (min_le_right e₁ e₂), ← add_mul, ← Int.cast_add]
    exact value_normalize _ _

theorem sub_eq_add (a b : Float) : a - b = a + -b := by
  have hunpacked (u v : UnpackedFloat) : UnpackedFloat.sub Format.binary64 u v =
      UnpackedFloat.add Format.binary64 u v.neg := by
    have happly (s : Sign) (k : Int) : (-s).apply k = -s.apply k := by
      cases s
      · exact (neg_neg k).symm
      · rfl
    cases u <;> cases v <;>
      simp only [UnpackedFloat.sub, UnpackedFloat.add, UnpackedFloat.neg, happly,
        Int.sub_eq_add_neg]
  show Float.ofModel (.pack (UnpackedFloat.sub Format.binary64 _ _)) =
    .ofModel (.pack (UnpackedFloat.add Format.binary64 _ (-b).toModel.unpack))
  rw [hunpacked, unpack_neg]

/-- A difference is the double nearest to the exact one. -/
theorem value_sub {a b : Float} (ha : a.isFinite = true) (hb : b.isFinite = true) :
    (a - b).isNaN = false ∧ value (a - b) = nearest (value a - value b) := by
  rw [sub_eq_add, sub_eq_add_neg (value a), ← value_neg]
  exact value_add ha (isFinite_neg hb)

theorem value_sub_zero {x : Float} (hx : x.isNaN = false) :
    (x - 0).isNaN = false ∧ value (x - 0) = value x := by
  rw [sub_eq_add]
  exact value_add_of_zero (s := .negative) hx rfl

/-- Adding a zero changes no value, not even an infinite one. -/
theorem value_add_zero {x : Float} (hx : x.isNaN = false) :
    (x + 0).isNaN = false ∧ value (x + 0) = value x :=
  value_add_of_zero (s := .positive) hx rfl

variable {x y r : Float}

/-- What the exact difference does not exceed, the rounded one does not exceed either. -/
theorem sub_le_of_value (hx : x.isFinite = true) (hy : y.isFinite = true)
    (hr : r.isFinite = true) (h : value x - value r ≤ value y) : x - r ≤ y := by
  obtain ⟨hn, hv⟩ := value_sub hx hr
  refine le_iff.mpr ⟨⟨hn, isNaN_of_isFinite hy⟩, ?_⟩
  rw [hv, ← nearest_value hy]
  exact nearest_mono h

theorem le_add_of_value (hx : x.isFinite = true) (hy : y.isFinite = true)
    (hr : r.isFinite = true) (h : value y ≤ value x + value r) : y ≤ x + r := by
  obtain ⟨hn, hv⟩ := value_add hx hr
  refine le_iff.mpr ⟨⟨isNaN_of_isFinite hy, hn⟩, ?_⟩
  rw [hv, ← nearest_value hy]
  exact nearest_mono h

end DragDrop.Double
