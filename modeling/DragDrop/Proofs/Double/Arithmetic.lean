import DragDrop.Proofs.Double.Rounding

/-! Arithmetic on doubles. A product, a quotient, and a double made of an integer
have the value that is NEAREST to the exact result, and what is too great becomes
an infinity. Nothing else is known of them where they are used. -/

namespace DragDrop.Double

open Float.Model Float.Model.UnpackedFloat

/-- The value of the double nearest to a number. -/
def nearest (v : Rat) : Rat := clipped (if v < 0 then -rounded (-v) else rounded v)

theorem nearest_signed (s : Sign) {v : Rat} (hv : 0 ≤ v) :
    nearest (signed s v) = clipped (signed s (rounded v)) := by
  cases s
  · show nearest (-v) = clipped (-rounded v)
    rcases hv.eq_or_lt with rfl | hv
    · simp [nearest]
    · rw [nearest, if_pos (by linarith), neg_neg]
  · show nearest v = clipped (rounded v)
    rw [nearest, if_neg (not_lt.mpr hv)]

theorem nearest_of_nonneg {v : Rat} (hv : 0 ≤ v) : nearest v = min (rounded v) top := by
  exact (nearest_signed .positive hv).trans (signed_clipped .positive (rounded_nonneg hv))

theorem nearest_nonneg {v : Rat} (hv : 0 ≤ v) : 0 ≤ nearest v := by
  rw [nearest_of_nonneg hv]
  exact le_min (rounded_nonneg hv) top_pos.le

theorem clipped_mono {v w : Rat} (h : v ≤ w) : clipped v ≤ clipped w :=
  max_le_max_left _ (min_le_min_right _ h)

theorem nearest_mono {v w : Rat} (h : v ≤ w) : nearest v ≤ nearest w := by
  apply clipped_mono
  by_cases hv : v < 0
  · rw [if_pos hv]
    by_cases hw : w < 0
    · rw [if_pos hw]
      exact neg_le_neg (rounded_mono (by linarith) (by linarith))
    · rw [if_neg hw]
      have := rounded_nonneg (by linarith : 0 ≤ -v)
      have := rounded_nonneg (not_lt.mp hw)
      linarith
  · rw [if_neg hv, if_neg (by linarith)]
    exact rounded_mono (not_lt.mp hv) h

/-- A finite double in one form, zero included. -/
theorem exists_parts {x : Float} (h : x.isFinite = true) :
    ∃ s m e, x.toModel.unpack = parts s m e ∧ m < 2 ^ 53 ∧ -1074 ≤ e ∧ e ≤ 971 ∧
      (2 ^ 52 ≤ m ∨ e = -1074) := by
  have hc := canonical_unpack x.toModel
  change x.toModel.unpack.isFinite = true at h
  generalize x.toModel.unpack = u at h hc
  cases u with
  | notANumber => exact (Bool.false_ne_true h).elim
  | infinity s => exact (Bool.false_ne_true h).elim
  | zero s => exact ⟨s, 0, -1074, rfl, by simp, by simp, by simp, .inr rfl⟩
  | finite s m e hm =>
    refine ⟨s, m, e, ?_, hc⟩
    rw [parts, dif_neg hm.ne']

theorem value_parts {x : Float} {s : Sign} {m : Nat} {e : Int}
    (h : x.toModel.unpack = parts s m e) : value x = signed s (m * 2 ^ e) := by
  rw [value, h, partsValue_parts]

theorem value_eq_zero_of_parts {x : Float} {s : Sign} {e : Int}
    (h : x.toModel.unpack = parts s 0 e) : value x = 0 := by
  rw [value_parts h, Nat.cast_zero, zero_mul]
  cases s
  · exact neg_zero
  · rfl

theorem isNaN_of_isFinite {x : Float} (h : x.isFinite = true) : x.isNaN = false := by
  change x.toModel.unpack.isFinite = true at h
  show x.toModel.unpack.isNaN = false
  generalize x.toModel.unpack = u at h
  cases u <;> first | rfl | exact (Bool.false_ne_true h).elim

/-- The infinities are the numbers at the ends. -/
theorem isInf_iff {x : Float} : x.isInf = true ↔ x.isNaN = false ∧ top ≤ |value x| := by
  have hc := canonical_unpack x.toModel
  show x.toModel.unpack.isInf = true ↔ x.toModel.unpack.isNaN = false ∧ _
  rw [value]
  generalize x.toModel.unpack = u at hc
  have htop := top_pos
  cases u with
  | notANumber =>
    exact ⟨fun h => absurd h Bool.false_ne_true, fun h => absurd h.1.symm Bool.false_ne_true⟩
  | infinity s =>
    refine ⟨fun _ => ⟨rfl, ?_⟩, fun _ => rfl⟩
    cases s <;> simp [partsValue, signed, abs_of_pos htop]
  | zero s =>
    refine ⟨fun h => absurd h Bool.false_ne_true, ?_⟩
    intro h
    have h0 := h.2
    simp only [partsValue, abs_zero] at h0
    linarith
  | finite s m e hm =>
    refine ⟨fun h => absurd h Bool.false_ne_true, ?_⟩
    intro h
    have h0 := h.2
    have hlt := finite_lt hc.1 hc.2.2.1
    have hp : (0 : Rat) ≤ m * 2 ^ e := by positivity
    cases s <;> simp only [partsValue, signed, abs_neg, abs_of_nonneg hp] at h0 <;> linarith

theorem isFinite_iff_not_isInf {x : Float} :
    x.isFinite = true ↔ x.isNaN = false ∧ ¬x.isInf = true := by
  show x.toModel.unpack.isFinite = true ↔
    x.toModel.unpack.isNaN = false ∧ ¬x.toModel.unpack.isInf = true
  cases x.toModel.unpack <;>
    simp [UnpackedFloat.isFinite, UnpackedFloat.isNaN, UnpackedFloat.isInf]

theorem isFinite_iff {x : Float} : x.isFinite = true ↔ x.isNaN = false ∧ |value x| < top := by
  rw [isFinite_iff_not_isInf, isInf_iff]
  constructor
  · rintro ⟨hn, hi⟩
    exact ⟨hn, not_le.mp fun hle => hi ⟨hn, hle⟩⟩
  · rintro ⟨hn, hlt⟩
    exact ⟨hn, fun hi => absurd hi.2 (not_le.mpr hlt)⟩

/-- What lies between zero and a finite double is finite. -/
theorem isFinite_of_le {x y : Float} (hx : x.isNaN = false) (h0 : 0 ≤ value x)
    (hxy : value x ≤ value y) (hy : y.isFinite = true) : x.isFinite = true := by
  refine isFinite_iff.mpr ⟨hx, ?_⟩
  rw [abs_of_nonneg h0]
  exact (hxy.trans (le_abs_self _)).trans_lt (isFinite_iff.mp hy).2

/-- What is put together of rounded parts is the nearest double. -/
theorem value_ofModel_pack {u : UnpackedFloat} {s : Sign} {v : Rat} (hv : 0 ≤ v)
    (h : Unbounded u ∧ partsValue u = signed s (rounded v)) :
    (Float.ofModel (.pack u)).isNaN = false ∧
      value (.ofModel (.pack u)) = nearest (signed s v) := by
  have hp := unpack_pack_of_unbounded h.1
  rw [nearest_signed s hv, ← h.2]
  exact ⟨isNaN_eq_false_iff.mpr hp.1, hp.2⟩

theorem signed_neg (s : Sign) (v : Rat) : signed (-s) v = -signed s v := by
  cases s
  · exact (neg_neg v).symm
  · rfl

theorem unpack_neg (x : Float) : (-x).toModel.unpack = x.toModel.unpack.neg := by
  apply unpack_pack
  have hc := canonical_unpack x.toModel
  generalize x.toModel.unpack = u at hc
  cases u <;> trivial

theorem value_neg (x : Float) : value (-x) = -value x := by
  rw [value, value, unpack_neg]
  cases x.toModel.unpack with
  | notANumber => rfl
  | zero s => rfl
  | infinity s => exact signed_neg s top
  | finite s m e hm => exact signed_neg s (m * 2 ^ e)

@[simp] theorem isNaN_neg (x : Float) : (-x).isNaN = x.isNaN := by
  show (-x).toModel.unpack.isNaN = x.toModel.unpack.isNaN
  rw [unpack_neg]
  cases x.toModel.unpack <;> rfl

theorem isFinite_neg {x : Float} (h : x.isFinite = true) : (-x).isFinite = true := by
  obtain ⟨hn, hv⟩ := isFinite_iff.mp h
  exact isFinite_iff.mpr ⟨(isNaN_neg x).trans hn, by rwa [value_neg, abs_neg]⟩

theorem signed_mul (s t : Sign) (v w : Rat) :
    signed (s * t) (v * w) = signed s v * signed t w := by
  cases s <;> cases t <;> simp only [signed, neg_mul, mul_neg, neg_neg]

theorem le_grid_mul {m₁ m₂ : Nat} {e₁ e₂ : Int} (h₁ : 0 < m₁) (h₂ : 0 < m₂)
    (n₁ : 2 ^ 52 ≤ m₁ ∨ e₁ = -1074) (n₂ : 2 ^ 52 ≤ m₂ ∨ e₂ = -1074) :
    e₁ + e₂ ≤ grid ((m₁ * m₂ : Nat) * 2 ^ (e₁ + e₂)) := by
  have hp : (0 : Rat) < (m₁ * m₂ : Nat) * 2 ^ (e₁ + e₂) :=
    mul_pos (by exact_mod_cast Nat.mul_pos h₁ h₂) (two_zpow_pos _)
  by_cases hbig : 2 ^ 52 ≤ m₁ * m₂
  · apply le_grid hp
    rw [two_zpow_add]
    exact mul_le_mul_of_nonneg_right (by exact_mod_cast hbig) (two_zpow_pos _).le
  · -- Two small significands are both at the least exponent.
    have he₁ : e₁ = -1074 := n₁.resolve_left fun h => hbig (h.trans (Nat.le_mul_of_pos_right _ h₂))
    have he₂ : e₂ = -1074 := n₂.resolve_left fun h => hbig (h.trans (Nat.le_mul_of_pos_left _ h₁))
    have := le_max_right (Int.log 2 ((m₁ * m₂ : Nat) * (2 : Rat) ^ (e₁ + e₂)) - 52) (-1074)
    unfold grid
    omega

/-- Two significands are multiplied without loss, and then rounded. -/
theorem value_round_mul (s : Sign) {m₁ m₂ : Nat} {e₁ e₂ : Int} (h₁ : 0 < m₁) (h₂ : 0 < m₂)
    (n₁ : 2 ^ 52 ≤ m₁ ∨ e₁ = -1074) (n₂ : 2 ^ 52 ≤ m₂ ∨ e₂ = -1074) :
    Unbounded (roundWithAccuracy Format.binary64 s (m₁ * m₂) (e₁ + e₂) .exact) ∧
      partsValue (roundWithAccuracy Format.binary64 s (m₁ * m₂) (e₁ + e₂) .exact) =
        signed s (rounded (m₁ * 2 ^ e₁ * (m₂ * 2 ^ e₂))) := by
  have heq : (m₁ : Rat) * 2 ^ e₁ * (m₂ * 2 ^ e₂) = (m₁ * m₂ : Nat) * 2 ^ (e₁ + e₂) := by
    rw [two_zpow_add]
    push_cast
    ring
  rw [heq]
  exact value_roundWithAccuracy s (by exact_mod_cast Nat.mul_pos h₁ h₂) (holds_natCast _)
    (le_grid_mul h₁ h₂ n₁ n₂)

theorem value_mul {a b : Float} (ha : a.isFinite = true) (hb : b.isFinite = true) :
    (a * b).isNaN = false ∧ value (a * b) = nearest (value a * value b) := by
  obtain ⟨s₁, m₁, e₁, h₁, -, -, -, n₁⟩ := exists_parts ha
  obtain ⟨s₂, m₂, e₂, h₂, -, -, -, n₂⟩ := exists_parts hb
  have hab : a * b = .ofModel (.pack (UnpackedFloat.mul Format.binary64 (parts s₁ m₁ e₁)
      (parts s₂ m₂ e₂))) := by
    rw [← h₁, ← h₂]
    rfl
  have hv : (0 : Rat) ≤ m₁ * 2 ^ e₁ * (m₂ * 2 ^ e₂) := by positivity
  rw [hab, value_parts h₁, value_parts h₂, ← signed_mul]
  apply value_ofModel_pack hv
  by_cases hz : m₁ = 0 ∨ m₂ = 0
  · have hmul : UnpackedFloat.mul Format.binary64 (parts s₁ m₁ e₁) (parts s₂ m₂ e₂) =
        .zero (s₁ * s₂) := by
      unfold parts
      split <;> split <;> first | omega | rfl
    have hzero : (m₁ : Rat) * 2 ^ e₁ * (m₂ * 2 ^ e₂) = 0 := by
      rcases hz with rfl | rfl <;> simp
    rw [hmul, hzero, rounded_zero]
    refine ⟨trivial, ?_⟩
    cases s₁ * s₂ <;> simp [partsValue, signed]
  · have hm₁ : 0 < m₁ := by omega
    have hm₂ : 0 < m₂ := by omega
    have hmul : UnpackedFloat.mul Format.binary64 (parts s₁ m₁ e₁) (parts s₂ m₂ e₂) =
        roundWithAccuracy Format.binary64 (s₁ * s₂) (m₁ * m₂) (e₁ + e₂) .exact := by
      rw [parts, parts, dif_neg hm₁.ne', dif_neg hm₂.ne']
      rfl
    rw [hmul]
    exact value_round_mul _ hm₁ hm₂ n₁ n₂

theorem signed_div (s t : Sign) (v w : Rat) :
    signed (s / t) (v / w) = signed s v / signed t w := by
  cases s <;> cases t <;> simp only [signed, neg_div, div_neg, neg_neg] <;> rfl

/-- What is left of a division says where the exact quotient lies. -/
theorem holds_div (m : Nat) {d : Nat} (hd : 0 < d) :
    Holds (.ofMantissaAndAccuracy (m / d) (accuracyOfFraction (m % d) d)) (m / d) := by
  have hd' : (0 : Rat) < d := by exact_mod_cast hd
  have hm : (m : Rat) / d = (m / d : Nat) + (m % d : Nat) / d := by
    rw [eq_comm, add_div' _ _ _ hd'.ne', div_left_inj' hd'.ne']
    exact_mod_cast Nat.div_add_mod' m d
  have hlt : ((m % d : Nat) : Rat) < d := by exact_mod_cast Nat.mod_lt m hd
  rw [hm]
  generalize m % d = r at hlt
  generalize m / d = q
  unfold accuracyOfFraction
  by_cases hr : r = 0
  · subst hr
    simp [ExtendedMantissa.ofMantissaAndAccuracy, Holds]
  · rw [if_neg hr]
    have hr' : (0 : Rat) < r := by exact_mod_cast Nat.pos_of_ne_zero hr
    have hpos : (0 : Rat) < r / d := div_pos hr' hd'
    have hone : (r : Rat) / d < 1 := (div_lt_one hd').mpr hlt
    rcases lt_trichotomy (2 * r) d with h | h | h
    · rw [compare_lt_iff_lt.mpr h]
      have h' : (2 : Rat) * r < d := by exact_mod_cast h
      have : (r : Rat) / d < 1 / 2 := by
        rw [div_lt_div_iff₀ hd' two_pos]
        linarith
      exact ⟨by linarith, by linarith⟩
    · rw [compare_eq_iff_eq.mpr h]
      have h' : (2 : Rat) * r = d := by exact_mod_cast h
      have : (r : Rat) / d = 1 / 2 := by
        rw [div_eq_div_iff hd'.ne' two_ne_zero]
        linarith
      exact congrArg _ this
    · rw [compare_gt_iff_gt.mpr h]
      have h' : (d : Rat) < 2 * r := by exact_mod_cast h
      have : 1 / 2 < (r : Rat) / d := by
        rw [div_lt_div_iff₀ two_pos hd']
        linarith
      exact ⟨by linarith, by linarith⟩

/-- The exponent of a quotient leaves no bits out. -/
theorem le_grid_div {m₁ m₂ : Nat} {e₁ e₂ : Int} (h₁ : 0 < m₁) (h₂ : 0 < m₂) :
    Format.binary64.targetExponent (totalExponent m₁ e₁ - totalExponent m₂ e₂) ≤
      grid (m₁ * 2 ^ e₁ / (m₂ * 2 ^ e₂)) := by
  have hp₂ : (0 : Rat) < m₂ * 2 ^ e₂ := mul_pos (by exact_mod_cast h₂) (two_zpow_pos e₂)
  have hp : (0 : Rat) < m₁ * 2 ^ e₁ / (m₂ * 2 ^ e₂) :=
    div_pos (mul_pos (by exact_mod_cast h₁) (two_zpow_pos e₁)) hp₂
  have hlow : (2 : Rat) ^ (m₁.log2 + e₁ - (m₂.log2 + 1 + e₂)) ≤ m₁ * 2 ^ e₁ / (m₂ * 2 ^ e₂) := by
    rw [le_div_iff₀ hp₂]
    have hm₁ : (2 : Rat) ^ (m₁.log2 : Int) ≤ m₁ := by exact_mod_cast Nat.log2_self_le h₁.ne'
    have hm₂ : (m₂ : Rat) ≤ 2 ^ ((m₂.log2 + 1 : Nat) : Int) := by
      exact_mod_cast Nat.lt_log2_self.le
    calc (2 : Rat) ^ (m₁.log2 + e₁ - (m₂.log2 + 1 + e₂)) * (m₂ * 2 ^ e₂)
        ≤ 2 ^ (m₁.log2 + e₁ - (m₂.log2 + 1 + e₂)) * (2 ^ ((m₂.log2 + 1 : Nat) : Int) * 2 ^ e₂) := by
          gcongr
      _ = 2 ^ (m₁.log2 : Int) * 2 ^ e₁ := by
          rw [← two_zpow_add, ← two_zpow_add, ← two_zpow_add]
          congr 1
          push_cast
          ring
      _ ≤ m₁ * 2 ^ e₁ := mul_le_mul_of_nonneg_right hm₁ (two_zpow_pos e₁).le
  have hlog := (Int.zpow_le_iff_le_log one_lt_two hp).mp (by exact_mod_cast hlow)
  show max (((m₁.log2 : Int) + 1 + e₁ - (m₂.log2 + 1 + e₂)) - 53) (-1074) ≤ _
  exact max_le_max_right _ (by omega)

/-- A quotient of significands is rounded by what is left of the division. -/
theorem value_round_div (s : Sign) {m₁ m₂ : Nat} {e₁ e₂ : Int} (h₁ : 0 < m₁) (h₂ : 0 < m₂) :
    let q := divCore Format.binary64 m₁ e₁ m₂ e₂
    Unbounded (roundWithAccuracy Format.binary64 s q.1 q.2.1 q.2.2) ∧
      partsValue (roundWithAccuracy Format.binary64 s q.1 q.2.1 q.2.2) =
        signed s (rounded (m₁ * 2 ^ e₁ / (m₂ * 2 ^ e₂))) := by
  have ht : min (e₁ - e₂) (Format.binary64.targetExponent
      (totalExponent m₁ e₁ - totalExponent m₂ e₂)) ≤ grid (m₁ * 2 ^ e₁ / (m₂ * 2 ^ e₂)) :=
    le_trans (min_le_right _ _) (le_grid_div h₁ h₂)
  have hle : min (e₁ - e₂) (Format.binary64.targetExponent
      (totalExponent m₁ e₁ - totalExponent m₂ e₂)) ≤ e₁ - e₂ := min_le_left _ _
  rw [divCore]
  generalize min (e₁ - e₂) (Format.binary64.targetExponent
    (totalExponent m₁ e₁ - totalExponent m₂ e₂)) = t at ht hle
  obtain ⟨k, hk⟩ := Int.eq_ofNat_of_zero_le (sub_nonneg.mpr hle)
  have hvalue : ((m₁ <<< k : Nat) : Rat) / m₂ * 2 ^ t = m₁ * 2 ^ e₁ / (m₂ * 2 ^ e₂) := by
    have he : e₁ = k + t + e₂ := by omega
    have h₂' : (m₂ : Rat) ≠ 0 := by exact_mod_cast h₂.ne'
    rw [Nat.shiftLeft_eq, he, two_zpow_add, two_zpow_add, zpow_natCast]
    push_cast
    field_simp
  dsimp only
  rw [hk, Int.toNat_natCast, ← hvalue]
  apply value_roundWithAccuracy s _ (holds_div _ h₂) (by rwa [hvalue])
  have : 0 < m₁ <<< k := Nat.shiftLeft_pos_iff.mpr h₁
  positivity

/-- A number that is the value of a double is its own nearest. -/
theorem nearest_exact {m : Nat} {e : Int} (hm : m < 2 ^ 53) (hlo : -1074 ≤ e) (hhi : e ≤ 971) :
    nearest (m * 2 ^ e) = m * 2 ^ e := by
  rw [nearest_of_nonneg (by positivity), rounded_exact hm hlo, min_eq_left (finite_lt hm hhi).le]

/-- A double is its own nearest double. -/
theorem nearest_value {x : Float} (h : x.isFinite = true) : nearest (value x) = value x := by
  obtain ⟨s, m, e, hp, hm, hlo, hhi, -⟩ := exists_parts h
  have hv : (0 : Rat) ≤ m * 2 ^ e := by positivity
  rw [value_parts hp, nearest_signed s hv, rounded_exact hm hlo, signed_clipped s hv,
    min_eq_left (finite_lt hm hhi).le]

theorem nearest_natCast {n : Nat} (h : n < 2 ^ 53) : nearest n = n := by
  simpa using nearest_exact h (e := 0) (by simp) (by simp)

theorem value_toFloat {n : Nat} (h : n < 2 ^ 53) :
    n.toUInt64.toFloat.isNaN = false ∧ value n.toUInt64.toFloat = n := by
  have hn : n.toUInt64.toNat = n := by
    show n % 2 ^ 64 = n
    omega
  have hx : n.toUInt64.toFloat =
      .ofModel (.pack (UnpackedFloat.normalize Format.binary64 n 0 .positive)) := by
    show Float.ofModel
      (.pack (UnpackedFloat.normalize Format.binary64 (n.toUInt64.toNat : Nat) 0 .positive)) = _
    rw [hn]
  have hv := value_ofModel_pack (u := UnpackedFloat.normalize Format.binary64 n 0 .positive)
    (s := .positive) (v := n) (Nat.cast_nonneg n)
  rw [hx, ← nearest_natCast h]
  apply hv
  rcases n.eq_zero_or_pos with rfl | hpos
  · refine ⟨trivial, ?_⟩
    rw [(Nat.cast_zero : ((0 : Nat) : Rat) = 0), rounded_zero]
    rfl
  · have hnorm : UnpackedFloat.normalize Format.binary64 n 0 .positive =
        UnpackedFloat.round Format.binary64 .positive n 0 := by
      rw [UnpackedFloat.normalize, compare_gt_iff_gt.mpr (by exact_mod_cast hpos)]
      rfl
    rw [hnorm]
    simpa using value_round .positive hpos 0

/-- A literal without a fraction is multiplied out before it is rounded. -/
theorem value_ofScientific {m e : Nat} (hm : 0 < m) (he : e ≤ 2048) :
    (Float.ofModel (Float.Model.ofScientific m e)).isNaN = false ∧
      value (.ofModel (Float.Model.ofScientific m e)) = nearest (m * 10 ^ e) := by
  have hx : Float.Model.ofScientific m e = .pack (roundWithAccuracy Format.binary64 .positive
      (m <<< 53 * 10 ^ e) (-53) .exact) := by
    have hbig : ¬(2 ^ 11 : Int) < e := by omega
    have hsmall : ¬(e : Int) < -(2 ^ 11 + (m.log2 : Int)) := by omega
    rw [Float.Model.ofScientific, UnpackedFloat.ofScientific, dif_neg hm.ne', if_neg hbig,
      if_neg hsmall, if_pos (Int.natCast_nonneg e)]
    rfl
  have hvalue : ((m <<< 53 * 10 ^ e : Nat) : Rat) * 2 ^ (-53 : Int) = m * 10 ^ e := by
    rw [Nat.shiftLeft_eq]
    push_cast
    ring
  have hone : (1 : Rat) ≤ m * 10 ^ e := by exact_mod_cast Nat.mul_pos hm (Nat.pow_pos (by simp))
  have hgrid : -53 ≤ grid (m * 10 ^ e) := by
    apply le_grid (by linarith)
    norm_num
    linarith
  have hr := value_roundWithAccuracy .positive (w := (m <<< 53 * 10 ^ e : Nat)) (e := -53)
    (by exact_mod_cast Nat.mul_pos (Nat.shiftLeft_pos_iff.mpr hm) (Nat.pow_pos (by simp)))
    (holds_natCast _) (by rwa [hvalue])
  rw [hvalue] at hr
  rw [hx]
  exact value_ofModel_pack (s := .positive) (by linarith) hr

theorem value_ofNat (n : Nat) :
    (Float.ofNat n).isNaN = false ∧ value (Float.ofNat n) = nearest n := by
  by_cases h : n < 2 ^ 53
  · have hone : Float.ofNat n = n.toUInt64.toFloat * Float.ofBits 0x3FF0000000000000 :=
      dif_pos ⟨h, by simp⟩
    have hv := value_toFloat h
    have hfin : n.toUInt64.toFloat.isFinite = true := by
      rw [isFinite_iff, hv.2]
      refine ⟨hv.1, ?_⟩
      rw [abs_of_nonneg (Nat.cast_nonneg n)]
      simpa using finite_lt h (by simp : (0 : Int) ≤ 971)
    have hm := value_mul hfin (b := Float.ofBits 0x3FF0000000000000) (by decide)
    have h1 : value (Float.ofBits 0x3FF0000000000000) = 1 := by decide +kernel
    rwa [← hone, h1, mul_one, hv.2] at hm
  · have hslow : Float.ofNat n = .ofModel (Float.Model.ofScientific n (0 : Nat)) :=
      dif_neg fun h' => h h'.1
    rw [hslow]
    simpa using value_ofScientific (by omega : 0 < n) (Nat.zero_le 2048)

theorem value_zero : value 0 = 0 := (value_ofNat 0).2.trans (nearest_natCast (by simp))

theorem value_one : value 1 = 1 := by
  have hv := (value_ofNat 1).2
  rw [nearest_natCast (by simp), Nat.cast_one] at hv
  exact hv

theorem number_of_zero_le {x : Float} (h : 0 ≤ x) : x.isNaN = false := (le_iff.mp h).1.2

theorem value_of_zero_le {x : Float} (h : 0 ≤ x) : 0 ≤ value x := value_zero ▸ (le_iff.mp h).2

theorem zero_le_of_value {x : Float} (hx : x.isNaN = false) (h : 0 ≤ value x) : 0 ≤ x :=
  le_iff.mpr ⟨⟨(value_ofNat 0).1, hx⟩, value_zero ▸ h⟩

theorem value_div {a b : Float} (ha : a.isFinite = true) (hb : b.isFinite = true)
    (h0 : value b ≠ 0) : (a / b).isNaN = false ∧ value (a / b) = nearest (value a / value b) := by
  obtain ⟨s₁, m₁, e₁, h₁, -, -, -, -⟩ := exists_parts ha
  obtain ⟨s₂, m₂, e₂, h₂, -, -, -, -⟩ := exists_parts hb
  have hab : a / b = .ofModel (.pack (UnpackedFloat.div Format.binary64 (parts s₁ m₁ e₁)
      (parts s₂ m₂ e₂))) := by
    rw [← h₁, ← h₂]
    rfl
  have hm₂ : 0 < m₂ := by
    apply Nat.pos_of_ne_zero
    rintro rfl
    exact h0 (value_eq_zero_of_parts h₂)
  have hv : (0 : Rat) ≤ m₁ * 2 ^ e₁ / (m₂ * 2 ^ e₂) := by positivity
  rw [hab, value_parts h₁, value_parts h₂, ← signed_div]
  apply value_ofModel_pack hv
  rcases m₁.eq_zero_or_pos with rfl | hm₁
  · have hdiv : UnpackedFloat.div Format.binary64 (parts s₁ 0 e₁) (parts s₂ m₂ e₂) =
        .zero (s₁ / s₂) := by
      rw [parts, parts, dif_pos rfl, dif_neg hm₂.ne']
      rfl
    rw [hdiv, Nat.cast_zero, zero_mul, zero_div, rounded_zero]
    refine ⟨trivial, ?_⟩
    cases s₁ / s₂ <;> simp [partsValue, signed]
  · have hdiv : UnpackedFloat.div Format.binary64 (parts s₁ m₁ e₁) (parts s₂ m₂ e₂) =
        let q := divCore Format.binary64 m₁ e₁ m₂ e₂
        roundWithAccuracy Format.binary64 (s₁ / s₂) q.1 q.2.1 q.2.2 := by
      rw [parts, parts, dif_neg hm₁.ne', dif_neg hm₂.ne']
      rfl
    rw [hdiv]
    exact value_round_div _ hm₁ hm₂

end DragDrop.Double
