import DragDrop.Decimal.Literal
import DragDrop.Proofs.Decimal.Magnitude

/-! Scaling by powers of ten. The result is refused only if it is too great, and
the shortest decimal of a double NEVER is: not even the last of them, which is
closer to the limit than the rounding errors are small. -/

namespace DragDrop

open Double Magnitude

namespace Literal

/-- The first powers of ten are doubles themselves. -/
theorem value_powerOfTen_exact {e : Nat} (h : e ≤ 22) :
    (powerOfTen e).isFinite = true ∧ value (powerOfTen e) = 10 ^ e := by
  have htable : ∀ e < 23, (powerOfTen e).isFinite = true ∧ value (powerOfTen e) = 10 ^ e := by
    decide +kernel
  exact htable e (by omega)

theorem value_powerOfTen {e : Nat} (h : e ≤ 308) :
    (powerOfTen e).isNaN = false ∧ value (powerOfTen e) = nearest (10 ^ e) := by
  by_cases hfast : e ≤ 22
  · obtain ⟨hfin, hv⟩ := value_powerOfTen_exact hfast
    have h5 : 5 ^ e < 2 ^ 53 := lt_of_le_of_lt (Nat.pow_le_pow_right (by simp) hfast) (by simp)
    have hexact : (10 : Rat) ^ e = (5 ^ e : Nat) * 2 ^ (e : Int) := by
      rw [zpow_natCast, Nat.cast_pow, ← mul_pow]
      norm_num
    refine ⟨isNaN_of_isFinite hfin, ?_⟩
    rw [hv, hexact, nearest_exact h5 (by omega) (by omega)]
  · have hslow : powerOfTen e = .ofModel (Float.Model.ofScientific (1 : Nat) e) :=
      dif_neg fun h' => hfast h'.2
    rw [hslow]
    simpa using value_ofScientific Nat.one_pos (by omega : e ≤ 2048)

/-- The powers of ten are doubles, and none of them is below one. -/
theorem powerOfTen_spec {e : Nat} (h : e ≤ 308) :
    (powerOfTen e).isFinite = true ∧ 1 ≤ value (powerOfTen e) := by
  have hlast : (powerOfTen 308).isFinite = true := by decide +kernel
  have hv := value_powerOfTen h
  have hone : 1 ≤ value (powerOfTen e) := by
    have h1 : (1 : Rat) = nearest ((1 : Nat) : Rat) := by
      rw [nearest_natCast (by simp), Nat.cast_one]
    rw [hv.2, h1, Nat.cast_one]
    exact nearest_mono (one_le_pow₀ (by simp))
  refine ⟨isFinite_of_le hv.1 (by linarith) ?_ hlast, hone⟩
  rw [hv.2, (value_powerOfTen le_rfl).2]
  exact nearest_mono (pow_le_pow_right₀ (by simp) h)

/-- A number is scaled down without fail. -/
theorem isSome_scale_of_neg {e : Int} (x : Float) (h : e < 0) : (scale x e).isSome := by
  fun_induction scale x e with
  | case1 | case2 => omega
  | case3 | case4 => omega
  | case5 => rfl
  | case6 => rfl
  | case7 x e _ _ _ _ ih => exact ih (by omega)

theorem scale_natCast {e : Nat} (x : Float) (h : e ≤ 308) :
    scale x e = if (x * powerOfTen e).isInf then none else some (x * powerOfTen e) := by
  rw [scale, if_neg (by omega), if_pos (by omega), Int.toNat_natCast]

/-- What is not too great stays so when the number or the power gets smaller. -/
theorem isSome_scale_mono {m M e E : Nat} (hm : m ≤ M) (he : e ≤ E) (hE : E ≤ 308)
    (hM : (Float.ofNat M).isFinite = true) (h : (scale (Float.ofNat M) E).isSome) :
    (scale (Float.ofNat m) e).isSome := by
  obtain ⟨hp, hp1⟩ := powerOfTen_spec (he.trans hE)
  obtain ⟨hP, hP1⟩ := powerOfTen_spec hE
  have hm0 : 0 ≤ value (Float.ofNat m) := by
    rw [(value_ofNat m).2]
    exact nearest_nonneg (Nat.cast_nonneg m)
  have hmM : value (Float.ofNat m) ≤ value (Float.ofNat M) := by
    rw [(value_ofNat m).2, (value_ofNat M).2]
    exact nearest_mono (by exact_mod_cast hm)
  have hpP : value (powerOfTen e) ≤ value (powerOfTen E) := by
    rw [(value_powerOfTen (he.trans hE)).2, (value_powerOfTen hE).2]
    exact nearest_mono (pow_le_pow_right₀ (by simp) he)
  have hmfin : (Float.ofNat m).isFinite = true := isFinite_of_le (value_ofNat m).1 hm0 hmM hM
  have hmul := value_mul hmfin hp
  have hMul := value_mul hM hP
  have hle : value (Float.ofNat m * powerOfTen e) ≤ value (Float.ofNat M * powerOfTen E) := by
    rw [hmul.2, hMul.2]
    apply nearest_mono
    exact mul_le_mul hmM hpP (by linarith) (hm0.trans hmM)
  have hnonneg : 0 ≤ value (Float.ofNat m * powerOfTen e) := by
    rw [hmul.2]
    exact nearest_nonneg (mul_nonneg hm0 (by linarith))
  have hM' : (Float.ofNat M * powerOfTen E).isFinite = true := by
    refine isFinite_iff_not_isInf.mpr ⟨hMul.1, ?_⟩
    intro hinf
    rw [scale_natCast _ hE, if_pos hinf] at h
    exact Bool.false_ne_true h
  have hm' := isFinite_of_le hmul.1 hnonneg hle hM'
  rw [scale_natCast _ (he.trans hE), if_neg (isFinite_iff_not_isInf.mp hm').2]
  rfl

theorem isFinite_ofNat {m : Nat} (h : m < 2 ^ 53) :
    (Float.ofNat m).isFinite = true ∧ value (Float.ofNat m) = m := by
  have hv := value_ofNat m
  rw [nearest_natCast h] at hv
  refine ⟨isFinite_iff.mpr ⟨hv.1, ?_⟩, hv.2⟩
  rw [hv.2, abs_of_nonneg (Nat.cast_nonneg m)]
  simpa using finite_lt h (by simp : (0 : Int) ≤ 971)

/-- A product of an exact word and an exact power is far from too great. -/
theorem nearest_product_lt_top {m k : Nat} (hm : m < 2 ^ 53) (hk : k ≤ 22) :
    nearest (m * 10 ^ k) < top := by
  have hnat : m * 10 ^ k ≤ 2 ^ 200 := calc
    m * 10 ^ k ≤ 2 ^ 53 * 10 ^ 22 :=
      Nat.mul_le_mul hm.le (Nat.pow_le_pow_right (by simp) hk)
    _ ≤ 2 ^ 200 := by decide
  have hcast : (m : Rat) * 10 ^ k ≤ (1 : Nat) * 2 ^ (200 : Int) := by
    rw [Nat.cast_one, one_mul]
    exact_mod_cast hnat
  have hle := nearest_mono hcast
  rw [nearest_exact (by simp) (by simp) (by simp)] at hle
  exact hle.trans_lt (finite_lt (by simp) (by simp))

/-- Where both the digits and the power are doubles, there is ONE rounding. -/
theorem value_scale {m : Nat} {e : Int} (hm : m < 2 ^ 53) (he : e.natAbs ≤ 22) :
    ∃ y, scale (Float.ofNat m) e = some y ∧ y.isNaN = false ∧ value y = nearest (m * 10 ^ e) := by
  obtain ⟨hfin, hv⟩ := isFinite_ofNat hm
  obtain ⟨hpfin, hpv⟩ := value_powerOfTen_exact he
  by_cases h0 : 0 ≤ e
  · obtain ⟨k, rfl⟩ := Int.eq_ofNat_of_zero_le h0
    rw [Int.natAbs_natCast] at he hpfin hpv
    have hmul := value_mul hfin hpfin
    rw [hv, hpv] at hmul
    have hfinite : (Float.ofNat m * powerOfTen k).isFinite = true := by
      refine isFinite_iff.mpr ⟨hmul.1, ?_⟩
      rw [hmul.2, abs_of_nonneg (nearest_nonneg (by positivity))]
      exact nearest_product_lt_top hm he
    refine ⟨Float.ofNat m * powerOfTen k, ?_, hmul.1, ?_⟩
    · rw [scale_natCast _ (by omega), if_neg (isFinite_iff_not_isInf.mp hfinite).2]
    · rw [hmul.2, zpow_natCast]
  · have hdiv := value_div hfin hpfin (by rw [hpv]; positivity)
    have hpower : (m : Rat) / 10 ^ e.natAbs = m * 10 ^ e := by
      rw [(by omega : e = -(e.natAbs : Int)), zpow_neg, zpow_natCast, Int.natAbs_neg,
        Int.natAbs_natCast, div_eq_mul_inv]
    refine ⟨Float.ofNat m / powerOfTen e.natAbs, ?_, hdiv.1, ?_⟩
    · rw [scale, if_neg (by omega), if_neg h0, if_pos (by omega)]
    · rw [hdiv.2, hv, hpv, hpower]

end Literal

namespace Magnitude

/-- The greatest finite double. -/
def greatest : Magnitude := ⟨2 ^ 53 - 1, 971, false⟩

/-- Only the greatest double reaches beyond this. -/
def secondLimit : Nat := 2 ^ 1024 - 3 * 2 ^ 970

theorem upper_le {x : Magnitude} (hx : x.OfDouble) (h : x ≠ greatest) :
    x.upper ≤ (secondLimit : Rat) := by
  have hlimit : (secondLimit : Rat) = (2 ^ 55 - 6) * 2 ^ (969 : Int) := by
    have hnat : secondLimit = (2 ^ 55 - 6) * 2 ^ 969 := by decide +kernel
    have hpow (n : Nat) : ((2 ^ n : Nat) : Rat) = 2 ^ (n : Int) := by
      rw [zpow_natCast, Nat.cast_pow, Nat.cast_ofNat]
    have hfactor : ((2 ^ 55 - 6 : Nat) : Rat) = 2 ^ 55 - 6 := by norm_num
    rw [hnat, Nat.cast_mul, hpow, hfactor]
    rfl
  have hp : (0 : Rat) < 2 ^ (969 : Int) := two_zpow_pos _
  have hup : x.upper = (4 * x.significand + 2) * x.quarter := rfl
  rw [hup, hlimit]
  by_cases he : x.exponent = 971
  · have hq : x.quarter = 2 ^ (969 : Int) := by rw [quarter, he]; rfl
    have hsig : x.significand ≠ 2 ^ 53 - 1 := by
      intro hs
      apply h
      have hn : x.narrowBelow = false := by
        rw [← Bool.not_eq_true, hx.narrow, hs]
        omega
      cases x
      simp only at hs he hn
      rw [hs, he, hn, greatest]
    have hm : (x.significand : Rat) ≤ 2 ^ 53 - 2 := by
      have hlt := hx.small
      have h1 : ((x.significand + 2 : Nat) : Rat) ≤ (2 ^ 53 : Nat) := by
        exact_mod_cast (by omega : x.significand + 2 ≤ 2 ^ 53)
      push_cast at h1
      linarith
    rw [hq]
    exact mul_le_mul_of_nonneg_right (by linarith) hp.le
  · have hq : x.quarter ≤ 2 ^ (968 : Int) := two_zpow_le (by have := hx.high; omega)
    have hm := hx.significand_le
    have hhalf : (2 : Rat) ^ (969 : Int) = 2 * 2 ^ (968 : Int) := by
      rw [(by simp : (969 : Int) = 1 + 968), two_zpow_add, zpow_one]
    have hp' : (0 : Rat) < 2 ^ (968 : Int) := two_zpow_pos _
    rw [hhalf]
    generalize (2 : Rat) ^ (968 : Int) = q at hq hp'
    calc (4 * (x.significand : Rat) + 2) * x.quarter ≤ (2 ^ 55 + 2) * x.quarter :=
          mul_le_mul_of_nonneg_right (by linarith) x.quarter_pos.le
      _ ≤ (2 ^ 55 + 2) * q := mul_le_mul_of_nonneg_left hq (by norm_num)
      _ ≤ (2 ^ 55 - 6) * (2 * q) := by linarith

/-- The shortest decimal is of the size of the double. -/
theorem value_shortest_bounds {x : Magnitude} (hx : x.OfDouble) (h0 : 0 < x.significand)
    (tie : Tie) :
    (2 : Rat) ^ (-1075 : Int) ≤ (x.shortest tie).value ∧ (x.shortest tie).value < top := by
  obtain ⟨hlo, hhi⟩ := le_of_readsBack (x.readsBack_shortest tie)
  exact ⟨(le_lower hx h0).trans hlo, lt_of_le_of_lt hhi (upper_lt_top hx)⟩

theorem exponent_shortest_le {x : Magnitude} (hx : x.OfDouble) (h0 : 0 < x.significand)
    (tie : Tie) : (x.shortest tie).exponent ≤ 308 := by
  have hpos := (digits_shortest hx h0 tie).1
  have hlt := (value_shortest_bounds hx h0 tie).2
  have hone : (1 : Rat) ≤ (x.shortest tie).digits := by exact_mod_cast hpos
  by_contra hbig
  have h309 : (10 : Rat) ^ (309 : Int) ≤ 10 ^ (x.shortest tie).exponent :=
    zpow_le_zpow_right₀ (by simp) (by omega)
  have htop : top ≤ (10 : Rat) ^ (309 : Int) := by decide +kernel
  have hval : (10 : Rat) ^ (x.shortest tie).exponent ≤ (x.shortest tie).value :=
    le_mul_of_one_le_left (ten_zpow_pos _).le hone
  linarith

/-- The digits of any other double, with a power of ten behind them. -/
theorem digits_shortest_le {x : Magnitude} (hx : x.OfDouble) (h : x ≠ greatest) {k : Nat}
    (hk : (x.shortest .even).exponent = k) :
    (x.shortest .even).digits ≤ secondLimit / 10 ^ k := by
  rw [Nat.le_div_iff_mul_le (Nat.pow_pos (by simp))]
  have hval : (x.shortest .even).value ≤ (secondLimit : Rat) :=
    (le_of_readsBack (x.readsBack_shortest .even)).2.trans (upper_le hx h)
  have heq : (x.shortest .even).value = (((x.shortest .even).digits * 10 ^ k : Nat) : Rat) := by
    rw [Nat.cast_mul, Nat.cast_pow, Nat.cast_ofNat, ← zpow_natCast, ← hk]
    rfl
  rw [heq] at hval
  exact_mod_cast hval

open Literal in
/-- The shortest decimal of a double is never refused as too great. -/
theorem isSome_scale_shortest {x : Magnitude} (hx : x.OfDouble) (h0 : 0 < x.significand) :
    (scale (Float.ofNat (x.shortest .even).digits) (x.shortest .even).exponent).isSome := by
  by_cases hneg : (x.shortest .even).exponent < 0
  · exact isSome_scale_of_neg _ hneg
  by_cases hmax : x = greatest
  · -- Here rounding goes up, but by less than half of what is left.
    have hshortest : greatest.shortest .even = ⟨17976931348623157, 292⟩ := by decide +kernel
    rw [hmax, hshortest]
    decide +kernel
  obtain ⟨k, hk⟩ := Int.eq_ofNat_of_zero_le (not_lt.mp hneg)
  have h308 := exponent_shortest_le hx h0 .even
  have hdigits := digits_shortest_le hx hmax hk
  rw [hk] at h308 ⊢
  -- Up to this power any seventeen digits will do, and after it the limit decides.
  by_cases hsmall : k ≤ 291
  · have hlast : (Float.ofNat (10 ^ 17)).isFinite = true ∧
        (scale (Float.ofNat (10 ^ 17)) (291 : Nat)).isSome := by decide +kernel
    exact isSome_scale_mono (digits_shortest hx h0 .even).2 hsmall (by simp) hlast.1 hlast.2
  · have htable : ∀ j < 17, (Float.ofNat (secondLimit / 10 ^ (292 + j))).isFinite = true ∧
        (scale (Float.ofNat (secondLimit / 10 ^ (292 + j))) (292 + j : Nat)).isSome := by
      decide +kernel
    obtain ⟨j, rfl⟩ := Nat.exists_eq_add_of_le (by omega : 292 ≤ k)
    have hj := htable j (by omega)
    exact isSome_scale_mono hdigits le_rfl (by omega) hj.1 hj.2

end Magnitude

end DragDrop
