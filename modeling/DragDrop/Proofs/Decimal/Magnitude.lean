import DragDrop.Decimal.Style
import DragDrop.Proofs.Decimal.Shortest

/-! The magnitude in the bits of a double. A writer takes it from the bits, with
the sign cut off; it is the significand and the exponent that the double is made
of, and the sign is the bit in front. -/

namespace DragDrop

open Double Float.Model Float.Model.UnpackedFloat

/-- What a double is short of its sign, as it is written. -/
def magnitude (x : Float) : Magnitude := .ofBits (x.toBits &&& 0x7FFFFFFFFFFFFFFF)

/-- The exponent field of a double. -/
def exponentField (x : Float) : Nat := x.toBits.toNat / 2 ^ 52 % 2 ^ 11

/-- The fraction field of a double. -/
def fractionField (x : Float) : Nat := x.toBits.toNat % 2 ^ 52

theorem magnitude_eq (x : Float) :
    magnitude x = if exponentField x = 0 then ⟨fractionField x, -1074, false⟩
      else ⟨0x10000000000000 + fractionField x, (exponentField x : Int) - 1075,
        fractionField x = 0 ∧ 1 < exponentField x⟩ := by
  have h63 (n : Nat) : n &&& 0x7FFFFFFFFFFFFFFF = n % 2 ^ 63 := Nat.and_two_pow_sub_one_eq_mod n 63
  have h52 (n : Nat) : n &&& 0xFFFFFFFFFFFFF = n % 2 ^ 52 := Nat.and_two_pow_sub_one_eq_mod n 52
  have h11 (n : Nat) : n &&& 0x7FF = n % 2 ^ 11 := Nat.and_two_pow_sub_one_eq_mod n 11
  have he : (((x.toBits &&& 0x7FFFFFFFFFFFFFFF) >>> 52) &&& 0x7FF).toNat = exponentField x := by
    rw [UInt64.toNat_and, UInt64.toNat_shiftRight, UInt64.toNat_and]
    show ((x.toBits.toNat &&& 0x7FFFFFFFFFFFFFFF) >>> 52) &&& 0x7FF = _
    rw [h63, h11, Nat.shiftRight_eq_div_pow, exponentField]
    omega
  have hf : ((x.toBits &&& 0x7FFFFFFFFFFFFFFF) &&& 0xFFFFFFFFFFFFF).toNat = fractionField x := by
    rw [UInt64.toNat_and, UInt64.toNat_and]
    show (x.toBits.toNat &&& 0x7FFFFFFFFFFFFFFF) &&& 0xFFFFFFFFFFFFF = _
    rw [h63, h52, fractionField]
    omega
  unfold magnitude Magnitude.ofBits
  dsimp only
  rw [he, hf]

/-- The sign of a double, its first bit. -/
def signOf (x : Float) : Sign := if x.toBits >>> 63 = 0 then .positive else .negative

theorem unpack_eq_fields (x : Float) :
    x.toModel.unpack = ofFields (signOf x) (exponentField x) (fractionField x) := by
  have hs : (@unpackSign Format.binary64 x.toBits.toBitVec).toNat =
      x.toBits.toNat >>> 63 % 2 := by
    rw [unpackSign, BitVec.toNat_cast, BitVec.extractLsb_toNat]
    rfl
  have he : (@unpackExponent Format.binary64 x.toBits.toBitVec).toNat =
      exponentField x := by
    rw [unpackExponent, BitVec.toNat_cast, BitVec.extractLsb_toNat, Nat.shiftRight_eq_div_pow]
    rfl
  have hf : (@unpackMantissa Format.binary64 x.toBits.toBitVec).toNat =
      fractionField x := by
    rw [unpackMantissa, BitVec.toNat_cast, BitVec.extractLsb_toNat, Nat.shiftRight_zero]
    rfl
  have hsign : Sign.ofBitVec (@unpackSign Format.binary64 x.toBits.toBitVec) =
      signOf x := by
    have hbit : @unpackSign Format.binary64 x.toBits.toBitVec = 0#1 ↔
        x.toBits >>> 63 = 0 := by
      rw [← UInt64.toNat_inj, ← BitVec.toNat_inj, hs, UInt64.toNat_shiftRight]
      have hlt := x.toBits.toNat_lt
      show x.toBits.toNat >>> 63 % 2 = 0 ↔ x.toBits.toNat >>> 63 = 0
      rw [Nat.shiftRight_eq_div_pow]
      omega
    unfold Sign.ofBitVec signOf
    simp only [hbit]
  rw [← hsign, ← he, ← hf]
  exact unpack_eq_ofFields _

theorem exponentField_lt {x : Float} (h : x.isFinite = true) : exponentField x < 2047 := by
  change x.toModel.unpack.isFinite = true at h
  rw [unpack_eq_fields] at h
  have hlt : exponentField x < 2 ^ 11 := Nat.mod_lt _ (by simp)
  by_contra hge
  have he : exponentField x = 2047 := by omega
  rw [ofFields, if_pos he] at h
  split at h <;> exact Bool.false_ne_true h

theorem ofDouble_magnitude {x : Float} (h : x.isFinite = true) : (magnitude x).OfDouble := by
  have he := exponentField_lt h
  have hf : fractionField x < 2 ^ 52 := Nat.mod_lt _ (by simp)
  rw [magnitude_eq]
  split
  · exact ⟨by simp only; omega, le_rfl, by simp, .inr rfl, by simp⟩
  · refine ⟨by simp only; omega, by simp only; omega, by simp only; omega, .inl (by simp), ?_⟩
    simp only [decide_eq_true_eq]
    omega

/-- A finite double is made of its sign and its magnitude. -/
theorem unpack_eq_magnitude {x : Float} (h : x.isFinite = true) :
    x.toModel.unpack = parts (signOf x) (magnitude x).significand (magnitude x).exponent := by
  have he := exponentField_lt h
  rw [unpack_eq_fields, magnitude_eq, ofFields, if_neg (by omega)]
  split
  · rfl
  · rw [parts, dif_neg (by simp)]
    rfl

theorem value_eq_magnitude {x : Float} (h : x.isFinite = true) :
    value x = signed (signOf x) (magnitude x).value :=
  value_parts (unpack_eq_magnitude h)

namespace Magnitude

/-- What reads back as a finite double is no greater than a power of two. -/
theorem upper_lt_top {x : Magnitude} (hx : x.OfDouble) : x.upper < top := by
  have hm := hx.significand_le
  have hq : x.quarter ≤ 2 ^ (969 : Int) := two_zpow_le (by have := hx.high; omega)
  have htop : top = 2 ^ 55 * 2 ^ (969 : Int) := by
    rw [top, ← zpow_natCast, ← two_zpow_add]
    norm_num
  have hp : (0 : Rat) < 2 ^ (969 : Int) := two_zpow_pos _
  generalize (2 : Rat) ^ (969 : Int) = q at hq htop hp
  calc x.upper = (4 * x.significand + 2) * x.quarter := rfl
    _ ≤ (2 ^ 55 - 2) * x.quarter := mul_le_mul_of_nonneg_right (by linarith) x.quarter_pos.le
    _ ≤ (2 ^ 55 - 2) * q := mul_le_mul_of_nonneg_left hq (by norm_num)
    _ < top := by linarith

/-- What reads back as a double above zero is no smaller than a power of two. -/
theorem le_lower {x : Magnitude} (hx : x.OfDouble) (h0 : 0 < x.significand) :
    (2 : Rat) ^ (-1075 : Int) ≤ x.lower := by
  have hm : (1 : Rat) ≤ x.significand := by exact_mod_cast h0
  have hq : (2 : Rat) ^ (-1076 : Int) ≤ x.quarter := two_zpow_le (by have := hx.low; omega)
  have hpow : (2 : Rat) ^ (-1075 : Int) = 2 * 2 ^ (-1076 : Int) := by
    rw [(by simp : (-1075 : Int) = 1 + -1076), two_zpow_add, zpow_one]
  have hnarrow : (if x.narrowBelow then 1 else 2 : Rat) * x.quarter ≤ 2 * x.quarter := by
    apply mul_le_mul_of_nonneg_right _ x.quarter_pos.le
    split <;> norm_num
  have hval : 4 * x.quarter ≤ x.value := by
    rw [value_eq]
    exact mul_le_mul_of_nonneg_right (by linarith) x.quarter_pos.le
  rw [lower_eq, hpow]
  linarith

/-- What lies on the grid of the double goes to its significand. -/
theorem rounded_of_grid {x : Magnitude} {v : Rat} (hv : x.ReadsBack v)
    (hg : grid v = x.exponent) (hlow : x.value - 2 * x.quarter ≤ x.lower) :
    rounded v = x.value := by
  have hunit : (2 : Rat) ^ x.exponent = 4 * x.quarter := by
    rw [x.two_zpow_eq 2 (by simp)]
    norm_num
  have hq := x.quarter_pos
  have hval := x.value_eq
  have hup := x.upper_eq
  have hround : evenRound (v / 2 ^ grid v) = x.significand := by
    rw [hg, hunit]
    have h4 : 0 < 4 * x.quarter := by linarith
    have hm : (x.significand : Rat) * (4 * x.quarter) = x.value := by
      rw [hval]
      ring
    have hbounds := le_of_readsBack hv
    apply evenRound_eq
    · rw [le_div_iff₀ h4, Int.cast_natCast, sub_mul, hm]
      linarith [hbounds.1]
    · rw [div_le_iff₀ h4, Int.cast_natCast, add_mul, hm]
      linarith [hbounds.2]
    · unfold ReadsBack at hv
      split at hv
      · rename_i heven
        exact .inl (by omega)
      · rw [lt_div_iff₀ h4, div_lt_iff₀ h4, Int.cast_natCast, sub_mul, add_mul, hm]
        exact .inr ⟨by linarith [hv.1], by linarith [hv.2]⟩
  rw [rounded, hround, hg, hunit, hval, Int.cast_natCast]
  ring

/-- Below a power of two the grid is twice as fine. -/
theorem rounded_of_narrow {x : Magnitude} {v : Rat} (hm : x.significand = 2 ^ 52)
    (hlo : x.value - x.quarter ≤ v) (hlt : v < x.value) (hg : grid v = x.exponent - 1) :
    rounded v = x.value := by
  have hunit : (2 : Rat) ^ (x.exponent - 1) = 2 * x.quarter := by
    rw [x.two_zpow_eq 1 (by omega), pow_one]
  have hq := x.quarter_pos
  have hval := x.value_eq
  rw [hm] at hval
  push_cast at hval
  have hround : evenRound (v / 2 ^ grid v) = 2 ^ 53 := by
    rw [hg, hunit]
    have h2 : 0 < 2 * x.quarter := by linarith
    apply evenRound_eq
    · rw [le_div_iff₀ h2]
      push_cast
      linarith
    · rw [div_le_iff₀ h2]
      push_cast
      linarith
    · exact .inl (by simp)
  rw [rounded, hround, hg, hunit, hval]
  push_cast
  ring

/-- What reads back as a double is not on a coarser grid. -/
theorem grid_le_exponent {x : Magnitude} {v : Rat} (hx : x.OfDouble) (hpos : 0 < v)
    (hv : x.ReadsBack v) : grid v ≤ x.exponent := by
  have hhi := (le_of_readsBack hv).2
  have hm := mul_le_mul_of_nonneg_right hx.significand_le x.quarter_pos.le
  have hval := x.value_eq
  have hup := x.upper_eq
  have hq := x.quarter_pos
  apply grid_le hpos hx.low
  rw [x.two_zpow_eq 55 (by omega)]
  linarith

/-- What reads back as a power of two is above it, or on the finer grid below. -/
theorem rounded_of_narrowBelow {x : Magnitude} {v : Rat} (hx : x.OfDouble) (hpos : 0 < v)
    (hv : x.ReadsBack v) (hn : x.narrowBelow = true) : rounded v = x.value := by
  obtain ⟨hsig, hexp⟩ := hx.narrow.mp hn
  have hlo := (le_of_readsBack hv).1
  have hlow := x.lower_eq
  rw [if_pos hn, one_mul] at hlow
  have hq := x.quarter_pos
  have hval : x.value = 2 ^ 54 * x.quarter := by
    rw [value_eq, hsig]
    push_cast
    ring
  have h52 : (2 : Rat) ^ (52 + x.exponent) = 2 ^ 54 * x.quarter := x.two_zpow_eq 54 (by omega)
  by_cases hlt : v < x.value
  · apply rounded_of_narrow hsig (by linarith) hlt
    apply le_antisymm
    · apply grid_le hpos (by omega)
      rwa [(by omega : 53 + (x.exponent - 1) = 52 + x.exponent), h52, ← hval]
    · apply le_grid hpos
      rw [x.two_zpow_eq 53 (by omega)]
      linarith
  · apply rounded_of_grid hv _ (by linarith)
    apply le_antisymm (grid_le_exponent hx hpos hv)
    apply le_grid hpos
    rw [h52]
    linarith

/-- What reads back as any other double is on its grid. -/
theorem rounded_of_not_narrowBelow {x : Magnitude} {v : Rat} (hx : x.OfDouble) (hpos : 0 < v)
    (hv : x.ReadsBack v) (hn : ¬x.narrowBelow = true) : rounded v = x.value := by
  have hlo := (le_of_readsBack hv).1
  have hlow := x.lower_eq
  rw [if_neg hn] at hlow
  have hq := x.quarter_pos
  have hval := x.value_eq
  apply rounded_of_grid hv _ (by linarith)
  apply le_antisymm (grid_le_exponent hx hpos hv)
  by_cases hexp : x.exponent = -1074
  · rw [hexp]
    exact le_max_right _ _
  · have hne : x.significand ≠ 2 ^ 52 := by
      intro h
      have := hx.low
      exact hn (hx.narrow.mpr ⟨h, by omega⟩)
    have hnat : 2 ^ 52 + 1 ≤ x.significand := by
      have := hx.normal.resolve_right hexp
      omega
    have hsig : ((2 ^ 52 + 1 : Nat) : Rat) ≤ x.significand := by exact_mod_cast hnat
    push_cast at hsig
    have := mul_le_mul_of_nonneg_right hsig hq.le
    apply le_grid hpos
    rw [x.two_zpow_eq 54 (by omega)]
    linarith

/-- What reads back as a double is rounded to it. -/
theorem rounded_of_readsBack {x : Magnitude} {v : Rat} (hx : x.OfDouble) (h0 : 0 < x.significand)
    (hv : x.ReadsBack v) : rounded v = x.value := by
  have hpos : 0 < v := calc
    (0 : Rat) < 2 ^ (-1075 : Int) := two_zpow_pos _
    _ ≤ x.lower := le_lower hx h0
    _ ≤ v := (le_of_readsBack hv).1
  by_cases hn : x.narrowBelow = true
  · exact rounded_of_narrowBelow hx hpos hv hn
  · exact rounded_of_not_narrowBelow hx hpos hv hn

end Magnitude

end DragDrop
