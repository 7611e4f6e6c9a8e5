import DragDrop.Proofs.Double.Order

/-! Rounding to the nearest double. A number that is not negative is measured on
the grid that doubles of its size lie on, and goes to the nearest point of it, of
two to the EVEN one. `value_roundWithAccuracy` says that a significand with a
round bit and a sticky bit carries enough for that. -/

namespace DragDrop.Double

open Float.Model Float.Model.UnpackedFloat

/-- The nearest integer, of two equally near ones the even one. -/
def evenRound (v : Rat) : Int :=
  if v < ⌊v⌋ + 1 / 2 then ⌊v⌋ else if ⌊v⌋ + 1 / 2 < v then ⌊v⌋ + 1 else ⌊v⌋ + ⌊v⌋ % 2

@[simp] theorem evenRound_intCast (n : Int) : evenRound n = n := by
  rw [evenRound, Int.floor_intCast, if_pos (by linarith)]

theorem floor_le_evenRound (v : Rat) : ⌊v⌋ ≤ evenRound v := by
  unfold evenRound
  split
  · exact le_rfl
  · split <;> omega

theorem evenRound_le_floor_add_one (v : Rat) : evenRound v ≤ ⌊v⌋ + 1 := by
  unfold evenRound
  split
  · omega
  · split <;> omega

theorem evenRound_mono {v w : Rat} (h : v ≤ w) : evenRound v ≤ evenRound w := by
  rcases (Int.floor_le_floor h).lt_or_eq with hlt | heq
  · calc evenRound v ≤ ⌊v⌋ + 1 := evenRound_le_floor_add_one v
      _ ≤ ⌊w⌋ := hlt
      _ ≤ evenRound w := floor_le_evenRound w
  · unfold evenRound
    rw [heq]
    by_cases hw : w < ⌊w⌋ + 1 / 2
    · rw [if_pos hw, if_pos (by linarith)]
    · rw [if_neg hw]
      by_cases hw' : ⌊w⌋ + 1 / 2 < w
      · rw [if_pos hw']
        split
        · omega
        · split <;> omega
      · rw [if_neg hw', if_neg (by linarith : ¬(⌊w⌋ : Rat) + 1 / 2 < v)]
        split <;> omega

/-- An integer is the nearest one to all that is within half of it, and to the halves
if it is even. -/
theorem evenRound_eq {v : Rat} {n : Int} (hlo : n - 1 / 2 ≤ v) (hhi : v ≤ n + 1 / 2)
    (htie : n % 2 = 0 ∨ n - 1 / 2 < v ∧ v < n + 1 / 2) : evenRound v = n := by
  by_cases hn : n ≤ v
  · have hf : ⌊v⌋ = n := Int.floor_eq_iff.mpr ⟨hn, by linarith⟩
    rw [evenRound, hf]
    split
    · rfl
    · rename_i hge
      rw [if_neg (not_lt.mpr hhi), htie.resolve_right fun h => hge h.2, add_zero]
  · have hf : ⌊v⌋ = n - 1 := by
      apply Int.floor_eq_iff.mpr
      push_cast
      exact ⟨by linarith, by linarith⟩
    rw [evenRound, hf]
    push_cast
    rw [if_neg (by linarith)]
    split
    · omega
    · rename_i hle
      have heven : n % 2 = 0 := htie.resolve_right fun h => hle (by linarith)
      omega

/-- What the bits of a significand say about a number, in units of its last place. -/
def Holds : ExtendedMantissa → Rat → Prop
  | ⟨m, false, false⟩, w => w = m
  | ⟨m, false, true⟩, w => m < w ∧ w < m + 1 / 2
  | ⟨m, true, false⟩, w => w = m + 1 / 2
  | ⟨m, true, true⟩, w => m + 1 / 2 < w ∧ w < m + 1

theorem holds_natCast (m : Nat) : Holds (.ofMantissaAndAccuracy m .exact) m := rfl

theorem Holds.bounds {em : ExtendedMantissa} {w : Rat} (h : Holds em w) :
    em.mantissa ≤ w ∧ w < em.mantissa + 1 := by
  rcases em with ⟨m, _ | _, _ | _⟩ <;> simp only [Holds] at h ⊢ <;> constructor <;> linarith

theorem Holds.floor_eq {em : ExtendedMantissa} {w : Rat} (h : Holds em w) :
    ⌊w⌋ = em.mantissa :=
  Int.floor_eq_iff.mpr (by exact_mod_cast h.bounds)

theorem Holds.roundedMantissa_eq {em : ExtendedMantissa} {w : Rat} (h : Holds em w) :
    (em.roundedMantissa : Int) = evenRound w := by
  have hf := h.floor_eq
  rcases em with ⟨m, _ | _, _ | _⟩ <;> simp only [Holds] at h hf <;>
    simp only [evenRound, hf, Int.cast_natCast, ExtendedMantissa.roundedMantissa,
      ExtendedMantissa.accuracy, Accuracy.roundToNearestEven]
  · rw [if_pos (by linarith)]
  · rw [if_pos h.2]
  · rw [if_neg (by linarith), if_neg (by linarith)]
    rfl
  · rw [if_neg (by linarith), if_pos h.1]
    rfl

theorem Holds.shiftRightOne {em : ExtendedMantissa} {w : Rat} (h : Holds em w) :
    Holds em.shiftRightOne (w / 2) := by
  rcases em with ⟨m, r, s⟩
  have hm : (m : Rat) = 2 * (m / 2 : Nat) + (m % 2 : Nat) := by
    exact_mod_cast (Nat.div_add_mod m 2).symm
  rcases Nat.mod_two_eq_zero_or_one m with h2 | h2
  · have hb : (m % 2 != 0) = false := by rw [h2]; rfl
    rw [h2, Nat.cast_zero, add_zero] at hm
    cases r <;> cases s <;> simp only [Holds] at h <;>
      simp only [ExtendedMantissa.shiftRightOne, hb, Bool.or_false, Bool.or_true, Holds] <;>
      first | linarith | exact ⟨by linarith, by linarith⟩
  · have hb : (m % 2 != 0) = true := by rw [h2]; rfl
    rw [h2, Nat.cast_one] at hm
    cases r <;> cases s <;> simp only [Holds] at h <;>
      simp only [ExtendedMantissa.shiftRightOne, hb, Bool.or_false, Bool.or_true, Holds] <;>
      first | linarith | exact ⟨by linarith, by linarith⟩

theorem Holds.shiftRight {em : ExtendedMantissa} {w : Rat} (h : Holds em w) (n : Nat) :
    Holds (em >>> n) (w / 2 ^ n) := by
  show Holds (n.repeat ExtendedMantissa.shiftRightOne em) _
  induction n with
  | zero => simpa [Nat.repeat] using h
  | succ n ih =>
    rw [pow_succ, ← div_div]
    exact ih.shiftRightOne

/-- The exponent of the doubles around a number. -/
def grid (v : Rat) : Int := max (Int.log 2 v - 52) (-1074)

theorem grid_mono {v w : Rat} (hv : 0 < v) (h : v ≤ w) : grid v ≤ grid w :=
  max_le_max_right _ (Int.sub_le_sub_right (Int.log_mono_right hv h) _)

theorem grid_le {v : Rat} (hv : 0 < v) {e : Int} (he : -1074 ≤ e) (h : v < 2 ^ (53 + e)) :
    grid v ≤ e := by
  have := (Int.lt_zpow_iff_log_lt one_lt_two hv).mp (by exact_mod_cast h)
  exact max_le (by omega) he

theorem le_grid {v : Rat} (hv : 0 < v) {e : Int} (h : 2 ^ (52 + e) ≤ v) : e ≤ grid v := by
  have := (Int.zpow_le_iff_le_log one_lt_two hv).mp (by exact_mod_cast h)
  exact le_max_of_le_left (by omega)

theorem lt_two_zpow_grid (v : Rat) : v < 2 ^ (53 + grid v) := by
  have h := Int.lt_zpow_succ_log_self one_lt_two v
  have hg : Int.log 2 v - 52 ≤ grid v := le_max_left _ _
  calc v < 2 ^ (Int.log 2 v + 1) := by exact_mod_cast h
    _ ≤ 2 ^ (53 + grid v) := two_zpow_le (by omega)

theorem two_zpow_grid_le {v : Rat} (hv : 0 < v) (hg : grid v ≠ -1074) : 2 ^ (52 + grid v) ≤ v := by
  have h := Int.zpow_log_le_self one_lt_two hv
  have he : 52 + grid v = Int.log 2 v := by
    unfold grid at hg ⊢
    omega
  rw [he]
  exact_mod_cast h

/-- The point of the grid that is nearest to a number which is not negative. -/
def rounded (v : Rat) : Rat := evenRound (v / 2 ^ grid v) * 2 ^ grid v

theorem div_grid_lt (v : Rat) : v / 2 ^ grid v < 2 ^ (53 : Int) := by
  rw [div_lt_iff₀ (two_zpow_pos _), ← two_zpow_add]
  exact lt_two_zpow_grid v

theorem le_div_grid {v : Rat} (hv : 0 < v) (hg : grid v ≠ -1074) :
    2 ^ (52 : Int) ≤ v / 2 ^ grid v := by
  rw [le_div_iff₀ (two_zpow_pos _), ← two_zpow_add]
  exact two_zpow_grid_le hv hg

theorem evenRound_div_grid_le (v : Rat) : evenRound (v / 2 ^ grid v) ≤ 2 ^ 53 := by
  rw [← evenRound_intCast (2 ^ 53)]
  apply evenRound_mono
  exact_mod_cast (div_grid_lt v).le

theorem le_evenRound_div_grid {v : Rat} (hv : 0 < v) (hg : grid v ≠ -1074) :
    2 ^ 52 ≤ evenRound (v / 2 ^ grid v) := by
  rw [← evenRound_intCast (2 ^ 52)]
  apply evenRound_mono
  exact_mod_cast le_div_grid hv hg

@[simp] theorem rounded_zero : rounded 0 = 0 := by
  rw [rounded, zero_div]
  exact mul_eq_zero_of_left (by exact_mod_cast evenRound_intCast 0) _

theorem rounded_nonneg {v : Rat} (hv : 0 ≤ v) : 0 ≤ rounded v := by
  apply mul_nonneg _ (two_zpow_pos _).le
  have h : evenRound (0 : Int) ≤ evenRound (v / 2 ^ grid v) :=
    evenRound_mono (by exact_mod_cast div_nonneg hv (two_zpow_pos _).le)
  rw [evenRound_intCast] at h
  exact_mod_cast h

/-- A double that is not too great is its own nearest. -/
theorem rounded_exact {m : Nat} {e : Int} (hm : m < 2 ^ 53) (he : -1074 ≤ e) :
    rounded (m * 2 ^ e) = m * 2 ^ e := by
  rcases m.eq_zero_or_pos with rfl | h0
  · simp
  · have hp := finite_pos e h0
    have hm' : (m : Rat) < 2 ^ (53 : Int) := by exact_mod_cast hm
    have hg : grid (m * 2 ^ e) ≤ e := by
      apply grid_le hp he
      rw [two_zpow_add]
      exact mul_lt_mul_of_pos_right hm' (two_zpow_pos e)
    obtain ⟨k, hk⟩ := Int.eq_ofNat_of_zero_le (sub_nonneg.mpr hg)
    have hs : (m : Rat) * 2 ^ e / 2 ^ grid (m * 2 ^ e) = ((m * 2 ^ k : Nat) : Int) := by
      rw [mul_div_assoc, ← zpow_sub₀ (by simp), hk]
      push_cast
      rfl
    rw [rounded, hs, evenRound_intCast, ← hs, div_mul_cancel₀ _ (two_zpow_pos _).ne']

theorem rounded_mono {v w : Rat} (hv : 0 ≤ v) (h : v ≤ w) : rounded v ≤ rounded w := by
  rcases hv.eq_or_lt with rfl | hv
  · rw [rounded_zero]
    exact rounded_nonneg h
  have hw : 0 < w := hv.trans_le h
  -- Where the grid gets coarser, a power of two lies between the two.
  rcases (grid_mono hv h).lt_or_eq with hlt | heq
  · have hg : grid w ≠ -1074 := (lt_of_le_of_lt (le_max_right _ _) hlt).ne'
    calc rounded v ≤ 2 ^ (53 : Int) * 2 ^ grid v :=
          mul_le_mul_of_nonneg_right (by exact_mod_cast evenRound_div_grid_le v)
            (two_zpow_pos _).le
      _ = 2 ^ (53 + grid v) := (two_zpow_add _ _).symm
      _ ≤ 2 ^ (52 + grid w) := two_zpow_le (by omega)
      _ = 2 ^ (52 : Int) * 2 ^ grid w := two_zpow_add _ _
      _ ≤ rounded w :=
          mul_le_mul_of_nonneg_right (by exact_mod_cast le_evenRound_div_grid hw hg)
            (two_zpow_pos _).le
  · unfold rounded
    rw [heq]
    apply mul_le_mul_of_nonneg_right _ (two_zpow_pos _).le
    exact_mod_cast evenRound_mono (div_le_div_of_nonneg_right h (two_zpow_pos _).le)

theorem targetExponent_totalExponent (m : Nat) (e : Int) :
    Format.binary64.targetExponent (totalExponent m e) = max (m.log2 + e - 52) (-1074) := by
  show max (((m.log2 : Int) + 1 + e) - 53) (-1074) = _
  congr 1
  omega

/-- The exponent that a significand is shifted to, if it is not zero. -/
theorem targetExponent_of_pos {m : Nat} {e : Int} {w : Rat} (hm : 0 < m) (hlo : m ≤ w)
    (hhi : w < m + 1) :
    Format.binary64.targetExponent (totalExponent m e) = grid (w * 2 ^ e) := by
  have hw : 0 < w := lt_of_lt_of_le (by exact_mod_cast hm) hlo
  have hp : 0 < w * 2 ^ e := mul_pos hw (two_zpow_pos e)
  have h1 : (2 : Rat) ^ (m.log2 + e) ≤ w * 2 ^ e := by
    rw [two_zpow_add]
    apply mul_le_mul_of_nonneg_right _ (two_zpow_pos e).le
    exact le_trans (by exact_mod_cast Nat.log2_self_le hm.ne') hlo
  have h2 : w * 2 ^ e < 2 ^ ((m.log2 + 1 : Nat) + e) := by
    rw [two_zpow_add]
    apply mul_lt_mul_of_pos_right _ (two_zpow_pos e)
    exact lt_of_lt_of_le hhi (by exact_mod_cast Nat.lt_log2_self)
  have h3 := (Int.zpow_le_iff_le_log one_lt_two hp).mp (by exact_mod_cast h1)
  have h4 := (Int.lt_zpow_iff_log_lt one_lt_two hp).mp (by exact_mod_cast h2)
  have hlog : Int.log 2 (w * 2 ^ e) = m.log2 + e := by omega
  rw [targetExponent_totalExponent, grid, hlog]

/-- A significand that is zero is shifted to the same exponent as any other, as
long as no bits are missing. -/
theorem targetExponent_eq_grid {m : Nat} {e : Int} {w : Rat} (hw : 0 < w) (hlo : m ≤ w)
    (hhi : w < m + 1) (he : e ≤ grid (w * 2 ^ e)) :
    Format.binary64.targetExponent (totalExponent m e) = grid (w * 2 ^ e) := by
  rcases m.eq_zero_or_pos with rfl | hm
  · have hp : 0 < w * 2 ^ e := mul_pos hw (two_zpow_pos e)
    have h1 : w * 2 ^ e < 2 ^ e := by
      have := mul_lt_mul_of_pos_right hhi (two_zpow_pos e)
      simpa using this
    have hlog : Int.log 2 (w * 2 ^ e) < e :=
      (Int.lt_zpow_iff_log_lt one_lt_two hp).mp (by exact_mod_cast h1)
    rw [targetExponent_totalExponent]
    unfold grid at he ⊢
    rw [Nat.log2_zero]
    omega
  · exact targetExponent_of_pos hm hlo hhi

/-- The form of a double's parts, but that the exponent may be too great. -/
def Unbounded : UnpackedFloat → Prop
  | .finite _ m e _ => m < 2 ^ 53 ∧ -1074 ≤ e ∧ (2 ^ 52 ≤ m ∨ e = -1074)
  | .zero _ => True
  | _ => False

/-- Parts with a significand that may be zero. -/
def parts (s : Sign) (m : Nat) (e : Int) : UnpackedFloat :=
  if h : m = 0 then .zero s else .finite s m e (Nat.pos_of_ne_zero h)

@[simp] theorem partsValue_parts (s : Sign) (m : Nat) (e : Int) :
    partsValue (parts s m e) = signed s (m * 2 ^ e) := by
  unfold parts
  split
  · rename_i h
    cases s <;> simp [partsValue, signed, h]
  · rfl

/-- A significand that rounding has filled up is shifted once more. -/
theorem reshifted (s : Sign) {r : Nat} {g : Int} (hr : r ≤ 2 ^ 53) (hg : -1074 ≤ g)
    (hn : 2 ^ 52 ≤ r ∨ g = -1074) :
    let t := shiftToTargetExponent Format.binary64 r g .exact
    Unbounded (parts s t.1.mantissa t.2) ∧
      partsValue (parts s t.1.mantissa t.2) = signed s (r * 2 ^ g) := by
  unfold shiftToTargetExponent shiftToExponent
  dsimp only
  rw [targetExponent_totalExponent, partsValue_parts]
  rcases hr.lt_or_eq with hlt | rfl
  · have hlog : r.log2 ≤ 52 := by
      rcases r.eq_zero_or_pos with rfl | h0
      · decide
      · have := (Nat.log2_lt h0.ne').mpr hlt
        omega
    have hz : (max ((r.log2 : Int) + g - 52) (-1074) - g).toNat = 0 := by omega
    rw [hz, Nat.cast_zero, add_zero]
    refine ⟨?_, rfl⟩
    show Unbounded (parts s r g)
    unfold parts
    split
    · trivial
    · exact ⟨hlt, hg, hn⟩
  · have hlog : (2 ^ 53 : Nat).log2 = 53 := Nat.log2_two_pow
    have hone : (max (((2 ^ 53 : Nat).log2 : Int) + g - 52) (-1074) - g).toNat = 1 := by
      rw [hlog]
      omega
    rw [hone]
    have hm : (ExtendedMantissa.ofMantissaAndAccuracy (2 ^ 53) .exact >>> 1).mantissa = 2 ^ 52 :=
      rfl
    rw [hm]
    refine ⟨?_, ?_⟩
    · rw [parts, dif_neg (by simp)]
      exact ⟨by decide, by omega, .inl le_rfl⟩
    · rw [Nat.cast_one, add_comm g, two_zpow_add, ← mul_assoc]
      norm_num

theorem roundWithAccuracy_eq (s : Sign) (m : Nat) (e : Int) (acc : Accuracy) :
    let t := shiftToTargetExponent Format.binary64 m e acc
    let t' := shiftToTargetExponent Format.binary64 t.1.roundedMantissa t.2 .exact
    roundWithAccuracy Format.binary64 s m e acc = parts s t'.1.mantissa t'.2 := rfl

/-- Rounding goes to the nearest double, as long as no bits are missing. -/
theorem value_roundWithAccuracy (s : Sign) {m : Nat} {e : Int} {acc : Accuracy} {w : Rat}
    (hw : 0 < w) (h : Holds (.ofMantissaAndAccuracy m acc) w) (he : e ≤ grid (w * 2 ^ e)) :
    Unbounded (roundWithAccuracy Format.binary64 s m e acc) ∧
      partsValue (roundWithAccuracy Format.binary64 s m e acc) =
        signed s (rounded (w * 2 ^ e)) := by
  have hm : (ExtendedMantissa.ofMantissaAndAccuracy m acc).mantissa = m := by
    rcases acc with _ | (_ | _ | _) <;> rfl
  have hb := h.bounds
  rw [hm] at hb
  have hp : 0 < w * 2 ^ e := mul_pos hw (two_zpow_pos e)
  obtain ⟨k, hk⟩ := Int.eq_ofNat_of_zero_le (sub_nonneg.mpr he)
  have hg : e + k = grid (w * 2 ^ e) := by omega
  have hshift : (shiftToTargetExponent Format.binary64 m e acc) =
      (ExtendedMantissa.ofMantissaAndAccuracy m acc >>> k, grid (w * 2 ^ e)) := by
    unfold shiftToTargetExponent shiftToExponent
    dsimp only
    rw [targetExponent_eq_grid hw hb.1 hb.2 he, hk, Int.toNat_natCast, hg]
  have hunits : w / 2 ^ k = w * 2 ^ e / 2 ^ grid (w * 2 ^ e) := by
    rw [← hg, two_zpow_add, zpow_natCast, mul_comm ((2 : Rat) ^ e),
      mul_div_mul_right _ _ (two_zpow_pos e).ne']
  -- On its grid the number is still known well enough to be rounded.
  have hr := (h.shiftRight k).roundedMantissa_eq
  rw [hunits] at hr
  rw [roundWithAccuracy_eq, hshift]
  generalize (ExtendedMantissa.ofMantissaAndAccuracy m acc >>> k).roundedMantissa = r at hr
  have hle := evenRound_div_grid_le (w * 2 ^ e)
  have hlow : 2 ^ 52 ≤ r ∨ grid (w * 2 ^ e) = -1074 := by
    by_cases hmin : grid (w * 2 ^ e) = -1074
    · exact .inr hmin
    · have := le_evenRound_div_grid hp hmin
      exact .inl (by omega)
  rw [rounded, ← hr, Int.cast_natCast]
  exact reshifted s (by omega) (le_max_right _ _) hlow

theorem value_round (s : Sign) {m : Nat} (hm : 0 < m) (e : Int) :
    Unbounded (UnpackedFloat.round Format.binary64 s m e) ∧
      partsValue (UnpackedFloat.round Format.binary64 s m e) = signed s (rounded (m * 2 ^ e)) := by
  have ht : Format.binary64.targetExponent (totalExponent m e) = grid (m * 2 ^ e) :=
    targetExponent_of_pos hm le_rfl (lt_add_one _)
  have hround : UnpackedFloat.round Format.binary64 s m e =
      roundWithAccuracy Format.binary64 s (m <<< (e - grid (m * 2 ^ e)).toNat)
        (e - (e - grid (m * 2 ^ e)).toNat) .exact := by
    unfold UnpackedFloat.round decreaseExponent
    rw [ht]
  have hle : e - (e - grid (m * 2 ^ e)).toNat ≤ grid (m * 2 ^ e) := by omega
  rw [hround]
  generalize (e - grid (m * 2 ^ e)).toNat = k at hle
  have hvalue : ((m <<< k : Nat) : Rat) * 2 ^ (e - k) = m * 2 ^ e := by
    rw [Nat.shiftLeft_eq, Nat.cast_mul, mul_assoc, Nat.cast_pow, Nat.cast_ofNat, ← zpow_natCast,
      ← two_zpow_add]
    congr 2
    omega
  rw [← hvalue]
  apply value_roundWithAccuracy s _ (holds_natCast _)
  · rwa [hvalue]
  · exact_mod_cast Nat.shiftLeft_pos_iff.mpr hm

/-- What is too great counts as infinity. -/
def clipped (v : Rat) : Rat := max (-top) (min v top)

theorem signed_clipped (s : Sign) {v : Rat} (hv : 0 ≤ v) :
    clipped (signed s v) = signed s (min v top) := by
  have h0 : 0 ≤ min v top := le_min hv top_pos.le
  cases s <;> simp only [clipped, signed]
  · rw [min_eq_left (by linarith [top_pos] : -v ≤ top)]
    rcases le_total v top with h | h
    · rw [min_eq_left h, max_eq_right (neg_le_neg h)]
    · rw [min_eq_right h, max_eq_left (neg_le_neg h)]
  · exact max_eq_right (by linarith [top_pos])

theorem pack_of_too_great (s : Sign) {m : Nat} {e : Int} (hm : 0 < m) (he : 971 < e) :
    Float.Model.pack (.finite s m e hm) = Float.Model.pack (.infinity s) := by
  have hpack : UnpackedFloat.pack Format.binary64 (.finite s m e hm) =
      UnpackedFloat.pack Format.binary64 (.infinity s) := by
    unfold UnpackedFloat.pack
    apply if_pos
    show 2048 ≤ (e + 1023 + 52).toNat + 1
    omega
  unfold Float.Model.pack
  simp only [hpack]

/-- Putting parts together cuts off what is too great, and changes nothing else. -/
theorem unpack_pack_of_unbounded {u : UnpackedFloat} (h : Unbounded u) :
    (Float.Model.pack u).unpack ≠ .notANumber ∧
      partsValue (Float.Model.pack u).unpack = clipped (partsValue u) := by
  cases u with
  | notANumber => exact h.elim
  | infinity s => exact h.elim
  | zero s =>
    rw [unpack_pack (u := .zero s) trivial]
    refine ⟨by simp, ?_⟩
    show 0 = max (-top) (min 0 top)
    rw [min_eq_left top_pos.le, max_eq_right (by linarith [top_pos])]
  | finite s m e hm =>
    have hp : (0 : Rat) ≤ m * 2 ^ e := by positivity
    rw [partsValue, signed_clipped s hp]
    by_cases he : e ≤ 971
    · rw [unpack_pack (u := .finite s m e hm) ⟨h.1, h.2.1, he, h.2.2⟩,
        min_eq_left (finite_lt h.1 he).le]
      exact ⟨by simp, rfl⟩
    · have hn : 2 ^ 52 ≤ m := h.2.2.resolve_right (by omega)
      have hge : top ≤ m * 2 ^ e := calc
        top ≤ 2 ^ (52 + e) := two_zpow_le (by omega)
        _ = 2 ^ (52 : Int) * 2 ^ e := two_zpow_add _ _
        _ ≤ m * 2 ^ e := mul_le_mul_of_nonneg_right (by exact_mod_cast hn) (two_zpow_pos e).le
      rw [pack_of_too_great s hm (by omega), unpack_pack (u := .infinity s) trivial,
        min_eq_right hge]
      exact ⟨by simp, rfl⟩

end DragDrop.Double
