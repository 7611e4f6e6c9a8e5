import DragDrop.Proofs.Decimal.Literal

/-! Doubles that are written and read again. What is read is a double that was
scaled by a power of ten, where the digits came from an exact search; the two need
not agree. They do where the digits and the power are exact doubles, since then
there is only ONE rounding, and the digits were chosen for it. -/

namespace DragDrop

open Double Magnitude Float.Model Float.Model.UnpackedFloat

/-- The number that a finite double is written as, short of its sign. -/
def written (x : Float) : Decimal :=
  if (magnitude x).significand = 0 then ⟨0, 0⟩ else (magnitude x).shortest .even

/-- Whether a minus is written in front. -/
def isNegative (x : Float) : Bool := !decide (x.toBits >>> 63 = 0)

theorem text_eq_chars {x : Float} (h : x.isFinite = true) :
    jsonStyle.text x = ((written x).literal (isNegative x)).chars := by
  have hbody : (if (magnitude x).significand = 0 then jsonStyle.layout ⟨0, 0⟩
      else jsonStyle.layout ((magnitude x).shortest .even)) =
        ((written x).literal false).chars := by
    rw [← Decimal.layout_eq_chars, written]
    split <;> rfl
  rw [Style.text, isNaN_of_isFinite h, if_neg (by simp), if_pos h]
  show (if x.toBits >>> 63 = 0 then (if (magnitude x).significand = 0 then
    jsonStyle.layout ⟨0, 0⟩ else jsonStyle.layout ((magnitude x).shortest .even)) else '-' ::
      (if (magnitude x).significand = 0 then jsonStyle.layout ⟨0, 0⟩
        else jsonStyle.layout ((magnitude x).shortest .even))) = _
  rw [hbody, isNegative]
  split
  · rename_i hbit
    rw [hbit]
    rfl
  · rename_i hbit
    rw [decide_eq_false hbit, Decimal.literal_chars_neg]
    rfl

theorem lt_of_ten_zpow {a b : Int} {v : Rat} (h : (10 : Rat) ^ a ≤ v) (h' : v < 10 ^ b) : a < b :=
  (zpow_lt_zpow_iff_right₀ (by simp : (1 : Rat) < 10)).mp (lt_of_le_of_lt h h')

/-- The first digit of the shortest decimal is worth about as much as the double. -/
theorem natAbs_lead_shortest {x : Magnitude} (hx : x.OfDouble) (h0 : 0 < x.significand)
    (tie : Tie) : (x.shortest tie).lead.natAbs < 400 := by
  obtain ⟨hlo, hhi⟩ := value_shortest_bounds hx h0 tie
  have hpos := (digits_shortest hx h0 tie).1
  generalize x.shortest tie = d at hlo hhi hpos
  have hlen := Decimal.length_digits_pos d.digits
  have hval : d.value = d.digits * (10 : Rat) ^ d.exponent := rfl
  have hfirst : (10 : Rat) ^ d.lead ≤ d.value := by
    have hn : 10 ^ ((Style.digits d.digits).length - 1) ≤ d.digits := by
      by_contra hlt
      rcases Nat.eq_zero_or_pos ((Style.digits d.digits).length - 1) with hz | hz
      · rw [hz] at hlt
        omega
      · have := (Nat.length_toDigits_le_iff (by simp) hz).mpr (not_le.mp hlt)
        change (Style.digits d.digits).length ≤ _ at this
        omega
    rw [hval, Decimal.lead, ten_zpow_add, mul_comm, zpow_natCast]
    exact mul_le_mul_of_nonneg_right (by exact_mod_cast hn) (ten_zpow_pos _).le
  have hlast : d.value < (10 : Rat) ^ (d.lead + 1) := by
    have hn := Decimal.digits_lt d.digits
    have he : d.lead + 1 = d.exponent + ((Style.digits d.digits).length : Nat) := by
      unfold Decimal.lead
      omega
    rw [hval, he, ten_zpow_add, mul_comm ((10 : Rat) ^ d.exponent), zpow_natCast]
    exact mul_lt_mul_of_pos_right (by exact_mod_cast hn) (ten_zpow_pos _)
  have htop : top < (10 : Rat) ^ (400 : Int) := by decide +kernel
  have hbottom : (10 : Rat) ^ (-398 : Int) ≤ 2 ^ (-1075 : Int) := by decide +kernel
  have h1 := lt_of_ten_zpow hfirst (hhi.trans htop)
  have h2 := lt_of_ten_zpow (hbottom.trans hlo) hlast
  omega

theorem writable_written {x : Float} (h : x.isFinite = true) : (written x).Writable := by
  unfold written
  split
  · exact ⟨by decide, fun _ => rfl, by decide⟩
  · rename_i h0
    have hx := ofDouble_magnitude h
    have hpos := Nat.pos_of_ne_zero h0
    obtain ⟨hd, hle⟩ := digits_shortest hx hpos .even
    have hlead := natAbs_lead_shortest hx hpos .even
    refine ⟨hle, fun hz => absurd hz hd.ne', ?_⟩
    exact hlead.trans (by decide)

/-- The double that the digits and the power of this one are scaled to, with its
sign. -/
def reread? (x : Float) : Option Float :=
  (Literal.scale (Float.ofNat (written x).word.1) (written x).word.2).map fun y =>
    if isNegative x then -y else y

/-- What was written of a finite double is never too great to be read. -/
theorem isSome_reread? {x : Float} (h : x.isFinite = true) : (reread? x).isSome := by
  have hscale : (Literal.scale (Float.ofNat (written x).word.1) (written x).word.2).isSome := by
    unfold Decimal.word
    split
    · exact Literal.isSome_scale_of_neg _ (by simp : (-1 : Int) < 0)
    · rename_i hplain
      unfold written at hplain ⊢
      split at hplain
      · exact absurd (by decide : (⟨0, 0⟩ : Decimal).Plain ∧ (0 : Int) ≤ 0) hplain
      · rename_i h0
        rw [if_neg h0]
        exact isSome_scale_shortest (ofDouble_magnitude h) (Nat.pos_of_ne_zero h0)
  rw [reread?, Option.isSome_map]
  exact hscale

/-- The double that is read where this one was written. -/
def reread (x : Float) : Float := (reread? x).getD x

/-- A finite double is written as a literal, and this is the number of that. -/
theorem number_written {x : Float} (h : x.isFinite = true) :
    ((written x).literal (isNegative x)).number = .ok (.double (reread x)) := by
  obtain ⟨y, hy⟩ := Option.isSome_iff_exists.mp (isSome_reread? h)
  obtain ⟨z, hz, rfl⟩ := Option.map_eq_some_iff.mp hy
  rw [reread, hy, Option.getD_some]
  exact Decimal.number_literal (writable_written h) _ hz

theorem value_eq_zero_iff {x : Float} (h : x.isFinite = true) :
    value x = 0 ↔ (magnitude x).significand = 0 := by
  rw [value_eq_magnitude h, value_eq]
  have hq := (magnitude x).quarter_pos.ne'
  cases signOf x <;> simp [signed, hq]

/-- Zero is read as zero, of either sign. -/
theorem reread_zero {x : Float} (h : x.isFinite = true) (h0 : value x = 0) :
    (reread x == x) = true := by
  have hw : written x = ⟨0, 0⟩ := by rw [written, if_pos ((value_eq_zero_iff h).mp h0)]
  have hscale : Literal.scale (Float.ofNat (⟨0, 0⟩ : Decimal).word.1) (⟨0, 0⟩ : Decimal).word.2 =
      some 0 := by decide +kernel
  have hzero : (reread x).isNaN = false ∧ value (reread x) = 0 := by
    rw [reread, reread?, hw, hscale, Option.map_some, Option.getD_some]
    cases isNegative x <;> decide
  rw [beq_iff, h0]
  exact ⟨⟨hzero.1, isNaN_of_isFinite h⟩, hzero.2⟩

/-- Cutting off below zero does not make up for what reading changed. -/
theorem nonneg_reread_beq {x : Float} (h : x.isFinite = true) (h0 : 0 ≤ x) :
    (Scalar.nonneg (reread x) == x) = true ↔ (reread x == x) = true := by
  by_cases hpos : 0 < reread x
  · rw [Scalar.nonneg_of_pos hpos]
  · have hzero : (0 : Float).isNaN = false := (value_ofNat 0).1
    rw [Scalar.nonneg_of_not_pos hpos]
    constructor
    · intro heq
      have hz := (beq_iff.mp heq).2
      exact reread_zero h (hz.symm.trans value_zero)
    · intro heq
      obtain ⟨⟨hn, hx⟩, hv⟩ := beq_iff.mp heq
      have hle : value (reread x) ≤ 0 := by
        by_contra hgt
        exact hpos (lt_iff.mpr ⟨⟨hzero, hn⟩, by rw [value_zero]; exact not_le.mp hgt⟩)
      refine beq_iff.mpr ⟨⟨hzero, hx⟩, ?_⟩
      exact value_zero.trans (le_antisymm (value_of_zero_le h0) (hv ▸ hle))

/-- The word and its power are the number that is written. -/
theorem value_word (d : Decimal) : (d.word.1 : Rat) * 10 ^ d.word.2 = d.value := by
  have hval : d.value = d.digits * (10 : Rat) ^ d.exponent := rfl
  rw [hval, Decimal.word]
  split
  · rename_i h
    obtain ⟨k, hk⟩ := Int.eq_ofNat_of_zero_le h.2
    rw [hk, Int.toNat_natCast, zpow_natCast]
    push_cast
    rw [pow_succ, zpow_neg, zpow_one]
    field_simp
  · rfl

/-- A double with few digits near the point comes back as it was: its digits and the
power of ten are doubles, and the one rounding is the one they were searched for. -/
theorem reread_beq_of_exact {x : Float} (h : x.isFinite = true)
    (hm : (written x).word.1 < 2 ^ 53) (he : (written x).word.2.natAbs ≤ 22) :
    (reread x == x) = true := by
  by_cases h0 : (magnitude x).significand = 0
  · exact reread_zero h ((value_eq_zero_iff h).mpr h0)
  have hx := ofDouble_magnitude h
  have hpos := Nat.pos_of_ne_zero h0
  have hw : written x = (magnitude x).shortest .even := if_neg h0
  obtain ⟨y, hy, hnan, hv⟩ := Literal.value_scale hm he
  have hnearest : value y = (magnitude x).value := by
    have hround := rounded_of_readsBack hx hpos ((magnitude x).readsBack_shortest .even)
    have hnonneg : 0 ≤ ((magnitude x).shortest .even).value :=
      (two_zpow_pos _).le.trans (value_shortest_bounds hx hpos .even).1
    have htop : (magnitude x).value ≤ top := by
      have := upper_lt_top hx
      rw [upper_eq] at this
      linarith [(magnitude x).quarter_pos]
    rw [hv, value_word, hw, nearest_of_nonneg hnonneg, hround, min_eq_left htop]
  have hreread : reread x = if isNegative x then -y else y := by
    rw [reread, reread?, hy]
    rfl
  have hsign : value x = if isNegative x then -value y else value y := by
    rw [value_eq_magnitude h, hnearest, isNegative, signOf]
    by_cases hbit : x.toBits >>> 63 = 0 <;> simp [hbit, signed]
  rw [beq_iff, hreread, hsign]
  cases isNegative x
  · exact ⟨⟨hnan, isNaN_of_isFinite h⟩, rfl⟩
  · exact ⟨⟨(isNaN_neg y).trans hnan, isNaN_of_isFinite h⟩, value_neg y⟩

end DragDrop
