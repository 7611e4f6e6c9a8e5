import DragDrop.Decimal.Shortest
import DragDrop.Proofs.Double.Arithmetic

/-! The size of the shortest decimal. Seventeen digits ARE enough: the numbers
that round to a double lie closer together on that grid than the interval is wide.
So no significand that is found is greater than `10 ^ 17`, and the digits of it
begin where the double itself does. -/

namespace DragDrop

namespace Decimal

theorem le_length (n : Nat) : n < 10 ^ length n := by
  fun_induction length n with
  | case1 n h => simpa using h
  | case2 n h ih =>
    rw [pow_succ]
    omega

theorem length_le {n : Nat} (h : 0 < n) : 10 ^ (length n - 1) ≤ n := by
  fun_induction length n with
  | case1 n hn => exact h
  | case2 n hn ih =>
    have hpos : 0 < length (n / 10) := by
      unfold length
      split <;> omega
    have hp : 10 ^ (length (n / 10) + 1 - 1) = 10 ^ (length (n / 10) - 1) * 10 := by
      rw [← pow_succ]
      congr 1
      omega
    have := ih (by omega)
    omega

theorem digits_trimmed_le (d : Decimal) : d.trimmed.digits ≤ d.digits := by
  fun_induction trimmed d with
  | case1 d h ih => exact ih.trans (Nat.div_le_self _ _)
  | case2 d h => exact le_rfl

theorem digits_trimmed_pos {d : Decimal} (h : 0 < d.digits) : 0 < d.trimmed.digits := by
  fun_induction trimmed d with
  | case1 d hd ih =>
    apply ih
    show 0 < d.digits / 10
    omega
  | case2 d hd => exact h

end Decimal

namespace Magnitude

theorem ten_zpow_pos (e : Int) : (0 : Rat) < 10 ^ e := zpow_pos (by simp) e

theorem ten_zpow_add (e e' : Int) : (10 : Rat) ^ (e + e') = 10 ^ e * 10 ^ e' :=
  zpow_add₀ (by simp) e e'

theorem place_of_one_le {v : Rat} (h : 1 ≤ v) :
    (10 : Rat) ^ (place v - 1) ≤ v ∧ v < 10 ^ place v := by
  have hfloor : (1 : Int) ≤ v.floor := Rat.le_floor_iff.mpr (by exact_mod_cast h)
  obtain ⟨n, hn⟩ := Int.eq_ofNat_of_zero_le (by omega : 0 ≤ v.floor)
  have hn0 : 0 < n := by omega
  have hlo : (n : Rat) ≤ v := by
    have := Rat.floor_le v
    rwa [hn] at this
  have hhi : v < n + 1 := by
    have := Rat.lt_floor_add_one v
    rw [hn] at this
    exact_mod_cast this
  have hpos : 0 < Decimal.length n := by
    unfold Decimal.length
    split <;> omega
  rw [place, if_pos h, hn, Int.toNat_natCast]
  constructor
  · have he : ((Decimal.length n : Nat) : Int) - 1 = ((Decimal.length n - 1 : Nat) : Int) := by
      omega
    rw [he, zpow_natCast]
    exact le_trans (by exact_mod_cast Decimal.length_le hn0) hlo
  · rw [zpow_natCast]
    exact lt_of_lt_of_le hhi (by exact_mod_cast Decimal.le_length n)

theorem place_of_lt_one {v : Rat} (hv : 0 < v) (h : v < 1) :
    (10 : Rat) ^ (place v - 1) ≤ v ∧ v < 10 ^ place v := by
  have hone : 1 < v⁻¹ := (one_lt_inv₀ hv).mpr h
  have hceil : (1 : Int) < v⁻¹.ceil := Rat.lt_ceil_iff.mpr (by exact_mod_cast hone)
  obtain ⟨n, hn⟩ := Int.eq_ofNat_of_zero_le (by omega : 0 ≤ v⁻¹.ceil - 1)
  have hn0 : 0 < n := by omega
  have hc : v⁻¹.ceil = n + 1 := by omega
  have hhi : v⁻¹ ≤ n + 1 := by
    have := Rat.le_ceil (x := v⁻¹)
    rw [hc] at this
    exact_mod_cast this
  have hlo : (n : Rat) < v⁻¹ := by
    have := Rat.lt_ceil_iff.mp (by omega : (n : Int) < v⁻¹.ceil)
    exact_mod_cast this
  have hpos : 0 < Decimal.length n := by
    unfold Decimal.length
    split <;> omega
  have hnat : v⁻¹.ceil.toNat - 1 = n := by omega
  rw [place, if_neg (not_le.mpr h), hnat]
  constructor
  · have he : (1 : Int) - Decimal.length n - 1 = -(Decimal.length n : Int) := by omega
    rw [he, zpow_neg, zpow_natCast, inv_le_comm₀ (by positivity) hv]
    exact hhi.trans (by exact_mod_cast Decimal.le_length n)
  · have he : (1 : Int) - Decimal.length n = -((Decimal.length n - 1 : Nat) : Int) := by omega
    rw [he, zpow_neg, zpow_natCast, lt_inv_comm₀ hv (by positivity)]
    exact lt_of_le_of_lt (by exact_mod_cast Decimal.length_le hn0) hlo

/-- The place of a number is where its digits begin. -/
theorem place_spec {v : Rat} (hv : 0 < v) :
    (10 : Rat) ^ (place v - 1) ≤ v ∧ v < 10 ^ place v := by
  by_cases h : 1 ≤ v
  · exact place_of_one_le h
  · exact place_of_lt_one hv (not_le.mp h)

/-- The magnitudes of doubles. -/
structure OfDouble (x : Magnitude) : Prop where
  small : x.significand < 2 ^ 53
  low : -1074 ≤ x.exponent
  high : x.exponent ≤ 971
  normal : 2 ^ 52 ≤ x.significand ∨ x.exponent = -1074
  narrow : x.narrowBelow = true ↔ x.significand = 2 ^ 52 ∧ -1074 < x.exponent

theorem OfDouble.significand_le {x : Magnitude} (hx : x.OfDouble) :
    (x.significand : Rat) ≤ 2 ^ 53 - 1 := by
  have h : ((x.significand + 1 : Nat) : Rat) ≤ (2 ^ 53 : Nat) := by exact_mod_cast hx.small
  push_cast at h
  linarith

/-- A quarter of the distance to the next double above. -/
def quarter (x : Magnitude) : Rat := 2 ^ (x.exponent - 2)

theorem quarter_pos (x : Magnitude) : 0 < x.quarter := Double.two_zpow_pos _

/-- Powers of two near the double, in quarters. -/
theorem two_zpow_eq (x : Magnitude) (n : Nat) {e : Int} (he : e = n - 2 + x.exponent) :
    (2 : Rat) ^ e = 2 ^ n * x.quarter := by
  rw [quarter, ← zpow_natCast, ← Double.two_zpow_add]
  congr 1
  omega

theorem value_eq (x : Magnitude) : x.value = 4 * x.significand * x.quarter := by
  show (x.significand : Rat) * (2 : Rat) ^ x.exponent = _
  rw [x.two_zpow_eq 2 (by simp)]
  ring

theorem upper_eq (x : Magnitude) : x.upper = x.value + 2 * x.quarter := by
  rw [value_eq]
  show (4 * (x.significand : Rat) + 2) * x.quarter = _
  ring

theorem lower_eq (x : Magnitude) :
    x.lower = x.value - (if x.narrowBelow then 1 else 2) * x.quarter := by
  rw [value_eq]
  show (4 * (x.significand : Rat) - (if x.narrowBelow then 1 else 2)) * x.quarter = _
  ring

theorem value_pos {x : Magnitude} (h : 0 < x.significand) : 0 < x.value := by
  rw [value_eq]
  exact mul_pos (mul_pos (by simp) (by exact_mod_cast h)) x.quarter_pos

theorem readsBack_of_lt {x : Magnitude} {v : Rat} (hlo : x.lower < v) (hhi : v < x.upper) :
    x.ReadsBack v := by
  unfold ReadsBack
  split
  · exact ⟨hlo.le, hhi.le⟩
  · exact ⟨hlo, hhi⟩

theorem le_of_readsBack {x : Magnitude} {v : Rat} (h : x.ReadsBack v) :
    x.lower ≤ v ∧ v ≤ x.upper := by
  unfold ReadsBack at h
  split at h
  · exact h
  · exact ⟨h.1.le, h.2.le⟩

/-- Two neighbours on a grid around the double, one of which reads back: the one
above if there is little room below, and else the nearer one. -/
theorem readsBack_neighbour {x : Magnitude} (hx : x.OfDouble) {a g : Rat} (hlo : a ≤ x.value)
    (hhi : x.value < a + g) (hg : g * 10 ^ 16 ≤ x.value) : x.ReadsBack a ∨ x.ReadsBack (a + g) := by
  have hq := x.quarter_pos
  have hval := x.value_eq
  have hlow := x.lower_eq
  have hup := x.upper_eq
  by_cases hn : x.narrowBelow = true
  · rw [if_pos hn] at hlow
    have hm : (x.significand : Rat) = 2 ^ 52 := by exact_mod_cast (hx.narrow.mp hn).1
    rw [hm] at hval
    right
    exact readsBack_of_lt (by linarith) (by linarith)
  · rw [if_neg hn] at hlow
    have hgrid : g < 4 * x.quarter := by
      have hlt : x.value < 2 ^ 53 * (4 * x.quarter) := by
        rw [hval, mul_comm (4 : Rat), mul_assoc]
        exact mul_lt_mul_of_pos_right (by linarith [hx.significand_le]) (by linarith)
      linarith
    by_cases hnear : x.value - a < 2 * x.quarter
    · left
      exact readsBack_of_lt (by linarith) (by linarith)
    · right
      exact readsBack_of_lt (by linarith) (by linarith)

/-- The last number on the grid `10 ^ k` that is not above the double. -/
def below (x : Magnitude) (k : Int) : Nat := (x.value / (10 : Rat) ^ k).floor.toNat

theorem below_spec {x : Magnitude} (h : 0 < x.significand) (k : Int) :
    x.below k * (10 : Rat) ^ k ≤ x.value ∧ x.value < (x.below k + 1) * (10 : Rat) ^ k := by
  have hpos : 0 ≤ x.value / (10 : Rat) ^ k := (div_pos (value_pos h) (ten_zpow_pos k)).le
  obtain ⟨n, hn⟩ := Int.eq_ofNat_of_zero_le (Rat.le_floor_iff.mpr (by exact_mod_cast hpos) :
    0 ≤ (x.value / (10 : Rat) ^ k).floor)
  have hlo := Rat.floor_le (x.value / (10 : Rat) ^ k)
  have hhi := Rat.lt_floor_add_one (x.value / (10 : Rat) ^ k)
  rw [hn] at hlo hhi
  rw [below, hn, Int.toNat_natCast]
  constructor
  · exact (le_div_iff₀ (ten_zpow_pos k)).mp (by exact_mod_cast hlo)
  · exact (div_lt_iff₀ (ten_zpow_pos k)).mp (by exact_mod_cast hhi)

theorem onGrid_eq_some {x : Magnitude} {tie : Tie} {k : Int} {d : Decimal}
    (h : x.onGrid tie k = some d) :
    d.exponent = k ∧ (d.digits = x.below k ∨ d.digits = x.below k + 1) := by
  have near (n : Nat) (g : Rat) : x.nearer tie n g = n ∨ x.nearer tie n g = n + 1 := by
    unfold nearer
    cases tie <;> grind
  unfold onGrid at h
  dsimp only at h
  split at h
  · split at h
    · obtain rfl := Option.some.inj h
      exact ⟨rfl, near _ _⟩
    · obtain rfl := Option.some.inj h
      exact ⟨rfl, .inl rfl⟩
  · split at h
    · obtain rfl := Option.some.inj h
      exact ⟨rfl, .inr rfl⟩
    · exact absurd h (Option.some_ne_none d).symm

/-- Seventeen digits are enough. -/
theorem onGrid_isSome {x : Magnitude} (hx : x.OfDouble) (h0 : 0 < x.significand) (tie : Tie) :
    (x.onGrid tie (place x.value - 17)).isSome := by
  obtain ⟨hlo, hhi⟩ := below_spec h0 (place x.value - 17)
  have hsize : (10 : Rat) ^ (place x.value - 17) * 10 ^ 16 ≤ x.value := by
    have h16 : (10 : Rat) ^ (place x.value - 17) * 10 ^ 16 = 10 ^ (place x.value - 1) := by
      rw [← zpow_natCast, ← ten_zpow_add]
      congr 1
      omega
    rw [h16]
    exact (place_spec (value_pos h0)).1
  have hreads := readsBack_neighbour hx hlo (by rwa [add_mul, one_mul] at hhi) hsize
  have hnext : x.below (place x.value - 17) * (10 : Rat) ^ (place x.value - 17) +
      10 ^ (place x.value - 17) =
        ((x.below (place x.value - 17) + 1 : Nat) : Rat) * 10 ^ (place x.value - 17) := by
    push_cast
    ring
  rw [hnext] at hreads
  unfold onGrid
  dsimp only
  split
  · split <;> rfl
  · rename_i hfirst
    rw [if_pos]
    · rfl
    · exact hreads.resolve_left hfirst

/-- What stands on a grid of no more than seventeen digits. -/
theorem below_bounds {x : Magnitude} (h0 : 0 < x.significand) {n : Nat} (hn : n < 17) :
    0 < x.below (place x.value - (n + 1)) ∧ x.below (place x.value - (n + 1)) < 10 ^ 17 := by
  obtain ⟨hlo, hhi⟩ := below_spec h0 (place x.value - (n + 1))
  obtain ⟨hplo, hphi⟩ := place_spec (value_pos h0)
  have hg := ten_zpow_pos (place x.value - (n + 1))
  have hfirst : (10 : Rat) ^ (place x.value - 1) = 10 ^ n * 10 ^ (place x.value - (n + 1)) := by
    rw [← zpow_natCast, ← ten_zpow_add]
    congr 1
    omega
  have hlast : (10 : Rat) ^ place x.value = 10 ^ (n + 1) * 10 ^ (place x.value - (n + 1)) := by
    rw [← zpow_natCast, ← ten_zpow_add]
    congr 1
    push_cast
    omega
  have h1 : (10 : Rat) ^ n < x.below (place x.value - (n + 1)) + 1 :=
    lt_of_mul_lt_mul_right (by rw [← hfirst]; exact lt_of_le_of_lt hplo hhi) hg.le
  have h2 : (x.below (place x.value - (n + 1)) : Rat) < 10 ^ (n + 1) :=
    lt_of_mul_lt_mul_right (by rw [← hlast]; exact lt_of_le_of_lt hlo hphi) hg.le
  have h1' : 10 ^ n < x.below (place x.value - (n + 1)) + 1 := by exact_mod_cast h1
  have h2' : x.below (place x.value - (n + 1)) < 10 ^ (n + 1) := by exact_mod_cast h2
  have := Nat.pos_of_ne_zero (pow_ne_zero n (by simp : 10 ≠ 0))
  exact ⟨by omega, h2'.trans_le (Nat.pow_le_pow_right (by simp) hn)⟩

/-- The significand of the shortest decimal fits into seventeen digits, or is the
number that follows them. -/
theorem digits_shortest {x : Magnitude} (hx : x.OfDouble) (h0 : 0 < x.significand) (tie : Tie) :
    0 < (x.shortest tie).digits ∧ (x.shortest tie).digits ≤ 10 ^ 17 := by
  match h : (List.range 17).findSome? fun (n : Nat) => x.onGrid tie (place x.value - (n + 1)) with
  | none =>
    -- The last grid is never without a number that reads back.
    have hlast := List.findSome?_eq_none_iff.mp h 16 (by simp)
    have hsome := onGrid_isSome hx h0 tie
    have h17 : place x.value - ((16 : Nat) + 1) = place x.value - 17 := by omega
    rw [h17] at hlast
    rw [hlast] at hsome
    exact absurd hsome (by simp)
  | some d =>
    obtain ⟨n, hn, hd⟩ := List.exists_of_findSome?_eq_some h
    obtain ⟨hpos, hlt⟩ := below_bounds h0 (List.mem_range.mp hn)
    have hdig := (onGrid_eq_some hd).2
    have hshort : x.shortest tie = d.trimmed := by
      unfold shortest
      dsimp only
      rw [h, Option.getD_some]
    rw [hshort]
    exact ⟨Decimal.digits_trimmed_pos (by omega), (Decimal.digits_trimmed_le d).trans (by omega)⟩

end Magnitude

end DragDrop
