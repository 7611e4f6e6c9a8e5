import DragDrop.Proofs.Double.Sum
import DragDrop.Proofs.Valued

/-! Arithmetic on ALL doubles, the infinite ones included. An infinity takes over a sum, and
no number comes out only if none went in or two opposite infinities met. So sums keep the
order of what is added, a part of a reach is not longer than the reach, and neither a square
nor a root is below zero. -/

namespace DragDrop.Double

open Float.Model Float.Model.UnpackedFloat

variable {x y a b r s : Float}

theorem reflexive (hx : x.isNaN = false) : x ≤ x := le_iff.mpr ⟨⟨hx, hx⟩, le_rfl⟩

/-! ## Infinities -/

theorem abs_value_le_top (x : Float) : |value x| ≤ top := by
  have hc := canonical_unpack x.toModel
  have htop := top_pos
  rw [value]
  generalize x.toModel.unpack = u at hc
  cases u with
  | notANumber => rw [partsValue, abs_zero]; exact htop.le
  | zero t => rw [partsValue, abs_zero]; exact htop.le
  | infinity t => cases t <;> simp [partsValue, signed, abs_of_pos htop]
  | finite t m e hm =>
    have hlt := finite_lt hc.1 hc.2.2.1
    have hpos := finite_pos e hm
    cases t <;> simp [partsValue, signed, abs_of_pos hpos, hlt.le]

/-- An infinity has the greatest value there is, or the least. -/
theorem value_of_isInf (hx : x.isInf = true) : value x = top ∨ value x = -top :=
  eq_or_eq_neg_of_abs_eq ((abs_value_le_top x).antisymm (isInf_iff.mp hx).2)

theorem isInf_of_value_add (hx : x.isNaN = false) (hy : y.isInf = true)
    (h : value x + value y = 0) : x.isInf = true := by
  refine isInf_iff.mpr ⟨hx, ?_⟩
  rw [eq_neg_of_add_eq_zero_left h, abs_neg]
  exact (isInf_iff.mp hy).2

theorem isFinite_of_not_isInf (hx : x.isNaN = false) (hi : ¬x.isInf = true) :
    x.isFinite = true :=
  isFinite_iff_not_isInf.mpr ⟨hx, hi⟩

/-! ## Sums -/

theorem add_eq (x y : Float) : x + y = .ofModel (.pack (UnpackedFloat.add Format.binary64
    x.toModel.unpack y.toModel.unpack)) := rfl

/-- The order of the addends does not count. -/
theorem add_symm (x y : Float) : x + y = y + x := by
  rw [add_eq, add_eq]
  generalize x.toModel.unpack = u
  generalize y.toModel.unpack = v
  refine congrArg (fun w => Float.ofModel (.pack w)) ?_
  cases u with
  | notANumber => cases v <;> rfl
  | infinity s =>
    cases v with
    | infinity t => cases s <;> cases t <;> rfl
    | _ => rfl
  | zero s =>
    cases v with
    | zero t => cases s <;> cases t <;> rfl
    | _ => rfl
  | finite s m e hm =>
    cases v with
    | finite t n f hn => simp only [UnpackedFloat.add, min_comm e f, Int.add_comm]
    | _ => rfl

/-- An infinity takes over the sum with all but its opposite. -/
theorem add_infinity (s : Sign) {v : UnpackedFloat} (hc : Canonical v) (hn : v ≠ .notANumber) :
    UnpackedFloat.add Format.binary64 (.infinity s) v =
      if signed s top + partsValue v = 0 then .notANumber else .infinity s := by
  have htop := top_pos
  cases v with
  | notANumber => exact absurd rfl hn
  | zero t =>
    rw [if_neg (by cases s <;> simp [partsValue, signed, htop.ne'])]
    rfl
  | finite t m e hm =>
    have hlt := finite_lt hc.1 hc.2.2.1
    have hpos := finite_pos e hm
    have hne : signed s top + partsValue (.finite t m e hm) ≠ 0 := by
      cases s <;> cases t <;> simp only [partsValue, signed] <;> intro h <;> linarith
    rw [if_neg hne]
    rfl
  | infinity t =>
    have hpos : top + top ≠ 0 := by linarith
    have hneg : -top + -top ≠ 0 := by linarith
    cases s <;> cases t <;> simp [partsValue, signed, hpos, hneg] <;> rfl

theorem add_of_isInf (hx : x.isInf = true) (hy : y.isNaN = false) :
    if value x + value y = 0 then (x + y).isNaN = true
    else (x + y).isNaN = false ∧ value (x + y) = value x := by
  have hc := canonical_unpack y.toModel
  change x.toModel.unpack.isInf = true at hx
  rw [isNaN_eq_false_iff] at hy
  rw [add_eq, value.eq_def x, value.eq_def y]
  generalize x.toModel.unpack = u at hx
  generalize y.toModel.unpack = v at hc hy
  cases u with
  | infinity t =>
    rw [add_infinity t hc hy, partsValue]
    split
    · exact (value_ofModel_of_canonical (u := .notANumber) trivial).1
    · exact value_ofModel_of_canonical (u := .infinity t) trivial
  | _ => cases hx

theorem isNaN_left_of_add (h : (x + y).isNaN = false) : x.isNaN = false := by
  rw [isNaN_eq_false_iff]
  intro hx
  have hsum : x + y = .ofModel (.pack .notANumber) := by rw [add_eq, hx]; rfl
  have hnan := (value_ofModel_of_canonical (u := .notANumber) trivial).1
  rw [← hsum, h] at hnan
  exact Bool.false_ne_true hnan

theorem isNaN_right_of_add (h : (x + y).isNaN = false) : y.isNaN = false := by
  rw [add_symm] at h
  exact isNaN_left_of_add h

theorem value_add_of_isInf (hx : x.isInf = true) (hn : (x + y).isNaN = false) :
    value x + value y ≠ 0 ∧ value (x + y) = value x := by
  have h := add_of_isInf hx (isNaN_right_of_add hn)
  split at h
  · exact absurd (hn.symm.trans h) Bool.false_ne_true
  · rename_i hne
    exact ⟨hne, h.2⟩

theorem value_add_right_of_isInf (hy : y.isInf = true) (hn : (x + y).isNaN = false) :
    value (x + y) = value y := by
  rw [add_symm] at hn ⊢
  exact (value_add_of_isInf hy hn).2

/-- Numbers have a sum, opposite infinities apart. -/
theorem isNaN_add (hx : x.isNaN = false) (hy : y.isNaN = false)
    (h : x.isInf = true → value x + value y ≠ 0) : (x + y).isNaN = false := by
  by_cases hi : x.isInf = true
  · have hsum := add_of_isInf hi hy
    rw [if_neg (h hi)] at hsum
    exact hsum.1
  by_cases hj : y.isInf = true
  · have hsum := add_of_isInf hj hx
    rw [if_neg fun h0 => hi (isInf_of_value_add hx hj (by linarith)), add_symm] at hsum
    exact hsum.1
  · exact (value_add (isFinite_of_not_isInf hx hi) (isFinite_of_not_isInf hy hj)).1

/-- An addend can be put in the place of another one that is infinite where it is. -/
theorem isNaN_add_of (ha : (x + a).isNaN = false) (hb : b.isNaN = false)
    (h : b.isInf = true → value a = value b) : (x + b).isNaN = false := by
  have hx := isNaN_left_of_add ha
  apply isNaN_add hx hb
  intro hi h0
  have hib := isInf_of_value_add hb hi (by linarith)
  apply (value_add_of_isInf hi ha).1
  rw [h hib, h0]

/-- Sums keep the order of what is added. -/
theorem add_mono (hab : value a ≤ value b) (ha : (x + a).isNaN = false)
    (hb : (x + b).isNaN = false) : x + a ≤ x + b := by
  refine le_iff.mpr ⟨⟨ha, hb⟩, ?_⟩
  have hlow (y : Float) : -top ≤ value y := (abs_le.mp (abs_value_le_top y)).1
  have hhigh (y : Float) : value y ≤ top := (abs_le.mp (abs_value_le_top y)).2
  by_cases hx : x.isInf = true
  · rw [(value_add_of_isInf hx ha).2, (value_add_of_isInf hx hb).2]
  by_cases hia : a.isInf = true <;> by_cases hib : b.isInf = true
  · rwa [value_add_right_of_isInf hia ha, value_add_right_of_isInf hib hb]
  · -- What is infinite and below a finite addend is infinite downward.
    have hlt := isFinite_iff.mp (isFinite_of_not_isInf (isNaN_right_of_add hb) hib)
    rw [value_add_right_of_isInf hia ha]
    rcases value_of_isInf hia with h | h
    · linarith [(abs_lt.mp hlt.2).2]
    · exact h.trans_le (hlow _)
  · have hlt := isFinite_iff.mp (isFinite_of_not_isInf (isNaN_right_of_add ha) hia)
    rw [value_add_right_of_isInf hib hb]
    rcases value_of_isInf hib with h | h
    · exact (hhigh _).trans_eq h.symm
    · linarith [(abs_lt.mp hlt.2).1]
  · have hx' := isFinite_of_not_isInf (isNaN_left_of_add ha) hx
    rw [(value_add hx' (isFinite_of_not_isInf (isNaN_right_of_add ha) hia)).2,
      (value_add hx' (isFinite_of_not_isInf (isNaN_right_of_add hb) hib)).2]
    exact nearest_mono (by linarith)

theorem isNaN_add_of_isFinite (hx : x.isFinite = true) (ha : a.isNaN = false) :
    (x + a).isNaN = false :=
  isNaN_add (isNaN_of_isFinite hx) ha fun hi => absurd hi (isFinite_iff_not_isInf.mp hx).2

/-- From a finite place, the longer way does not end in front of the shorter one. -/
theorem add_le_add_of_isFinite (hx : x.isFinite = true) (h : a ≤ b) : x + a ≤ x + b := by
  obtain ⟨⟨ha, hb⟩, hle⟩ := le_iff.mp h
  exact add_mono hle (isNaN_add_of_isFinite hx ha) (isNaN_add_of_isFinite hx hb)

theorem le_add_of_zero_le (hx : x.isFinite = true) (h : 0 ≤ a) : x ≤ x + a := by
  obtain ⟨hn, hv⟩ := value_add_zero (isNaN_of_isFinite hx)
  have hself : x ≤ x + 0 := le_iff.mpr ⟨⟨isNaN_of_isFinite hx, hn⟩, hv.ge⟩
  exact Valued.transitive hself (add_le_add_of_isFinite hx h)

theorem zero_le_add (hx : 0 ≤ x) (hy : 0 ≤ y) : 0 ≤ x + y := by
  have hvx := value_of_zero_le hx
  have hvy := value_of_zero_le hy
  have hn : (x + y).isNaN = false := by
    apply isNaN_add (number_of_zero_le hx) (number_of_zero_le hy)
    intro hi
    rcases value_of_isInf hi with h | h <;> linarith [top_pos]
  obtain ⟨hn0, hv0⟩ := value_add_zero (number_of_zero_le hx)
  exact Valued.transitive (zero_le_of_value hn0 (hv0 ▸ hvx)) (add_mono (le_iff.mp hy).2 hn0 hn)

/-! ## Differences -/

theorem isInf_neg (x : Float) : (-x).isInf = true ↔ x.isInf = true := by
  rw [isInf_iff, isInf_iff, isNaN_neg, value_neg, abs_neg]

/-- Numbers have a difference, equal infinities apart. -/
theorem isNaN_sub (hx : x.isNaN = false) (hy : y.isNaN = false)
    (h : x.isInf = true → value x ≠ value y) : (x - y).isNaN = false := by
  rw [sub_eq_add]
  apply isNaN_add hx ((isNaN_neg y).trans hy)
  intro hi h0
  rw [value_neg] at h0
  exact h hi (by linarith)

theorem isNaN_left_of_sub (h : (x - y).isNaN = false) : x.isNaN = false := by
  rw [sub_eq_add] at h
  exact isNaN_left_of_add h

theorem sub_le_sub_of_isFinite (hx : x.isFinite = true) (h : a ≤ b) : x - b ≤ x - a := by
  obtain ⟨⟨ha, hb⟩, hle⟩ := le_iff.mp h
  have hneg : -b ≤ -a := by
    refine le_iff.mpr ⟨⟨(isNaN_neg b).trans hb, (isNaN_neg a).trans ha⟩, ?_⟩
    rw [value_neg, value_neg]
    exact neg_le_neg hle
  rw [sub_eq_add, sub_eq_add]
  exact add_le_add_of_isFinite hx hneg

theorem sub_le_of_zero_le (hx : x.isFinite = true) (h : 0 ≤ a) : x - a ≤ x := by
  obtain ⟨hn, hv⟩ := value_sub_zero (isNaN_of_isFinite hx)
  have hself : x - 0 ≤ x := le_iff.mpr ⟨⟨hn, isNaN_of_isFinite hx⟩, hv.le⟩
  exact Valued.transitive (sub_le_sub_of_isFinite hx h) hself

/-! ## Products -/

theorem mul_eq (x y : Float) : x * y = .ofModel (.pack (UnpackedFloat.mul Format.binary64
    x.toModel.unpack y.toModel.unpack)) := rfl

/-- A part of an infinity is all of it, or it is no number. -/
theorem value_mul_of_isInf (hr : r.isInf = true) (hs : s.isFinite = true) (h0 : 0 ≤ value s)
    (hn : (r * s).isNaN = false) : value (r * s) = value r := by
  change r.toModel.unpack.isInf = true at hr
  change s.toModel.unpack.isFinite = true at hs
  rw [mul_eq] at hn ⊢
  rw [value.eq_def s] at h0
  rw [value.eq_def r]
  generalize r.toModel.unpack = u at hr hn
  generalize s.toModel.unpack = v at hs h0 hn
  cases u with
  | infinity t =>
    cases v with
    | notANumber => cases hs
    | infinity t' => cases hs
    | zero t' =>
      have hnan := (value_ofModel_of_canonical (u := .notANumber) trivial).1
      exact absurd (hn.symm.trans hnan) Bool.false_ne_true
    | finite t' m e hm =>
      have hpos := finite_pos e hm
      cases t' with
      | negative => simp only [partsValue, signed] at h0; linarith
      | positive => cases t <;> exact (value_ofModel_of_canonical (u := .infinity _) trivial).2
  | _ => cases hr

/-- An infinity times what is finite, and above zero, is a number. -/
theorem isNaN_mul_of_pos (hx : x.isNaN = false) (hs : s.isFinite = true) (h0 : 0 < s) :
    (x * s).isNaN = false := by
  by_cases hi : x.isInf = true
  · have hpos : 0 < value s := value_zero ▸ (lt_iff.mp h0).2
    change x.toModel.unpack.isInf = true at hi
    change s.toModel.unpack.isFinite = true at hs
    rw [value.eq_def] at hpos
    rw [mul_eq]
    generalize x.toModel.unpack = u at hi
    generalize s.toModel.unpack = v at hs hpos
    cases u with
    | infinity t =>
      cases v with
      | notANumber => cases hs
      | infinity t' => cases hs
      | zero t' => exact absurd hpos (lt_irrefl _)
      | finite t' m e hm => exact (value_ofModel_of_canonical (u := .infinity _) trivial).1
    | _ => cases hi
  · exact (value_mul (isFinite_of_not_isInf hx hi) hs).1

theorem zero_le_mul (hx : 0 ≤ x) (hs : s.isFinite = true) (h0 : 0 ≤ s)
    (hn : (x * s).isNaN = false) : 0 ≤ x * s := by
  apply zero_le_of_value hn
  by_cases hi : x.isInf = true
  · rw [value_mul_of_isInf hi hs (value_of_zero_le h0) hn]
    exact value_of_zero_le hx
  · rw [(value_mul (isFinite_of_not_isInf (number_of_zero_le hx) hi) hs).2]
    exact nearest_nonneg (mul_nonneg (value_of_zero_le hx) (value_of_zero_le h0))

/-- A part of a reach is not longer than the reach, and as long as it if that is infinite. -/
theorem mul_part (hr : 0 ≤ r) (h0 : 0 ≤ s) (h1 : s ≤ 1) (hn : (r * s).isNaN = false) :
    value (r * s) ≤ value r ∧ (r.isInf = true → value (r * s) = value r) := by
  have hle : value s ≤ 1 := value_one ▸ (le_iff.mp h1).2
  have hs : s.isFinite = true := isFinite_of_le (number_of_zero_le h0) (value_of_zero_le h0)
    (le_iff.mp h1).2 (by decide)
  by_cases hi : r.isInf = true
  · have heq := value_mul_of_isInf hi hs (value_of_zero_le h0) hn
    exact ⟨heq.le, fun _ => heq⟩
  · have hfin := isFinite_of_not_isInf (number_of_zero_le hr) hi
    refine ⟨?_, fun h => absurd h hi⟩
    rw [(value_mul hfin hs).2]
    exact (nearest_mono (mul_le_of_le_one_right (value_of_zero_le hr) hle)).trans_eq
      (nearest_value hfin)

/-- What a part of a reach reaches, the whole reach reaches too. -/
theorem le_add_of_le_add_part (hr : 0 ≤ r) (h0 : 0 ≤ s) (h1 : s ≤ 1) (h : y ≤ x + r * s) :
    y ≤ x + r := by
  have hn := (le_iff.mp h).1.2
  obtain ⟨hle, hinf⟩ := mul_part hr h0 h1 (isNaN_right_of_add hn)
  exact Valued.transitive h (add_mono hle hn (isNaN_add_of hn (number_of_zero_le hr) hinf))

theorem sub_le_of_sub_part_le (hr : 0 ≤ r) (h0 : 0 ≤ s) (h1 : s ≤ 1) (h : x - r * s ≤ y) :
    x - r ≤ y := by
  have hn := (le_iff.mp h).1.1
  rw [sub_eq_add] at h hn ⊢
  have hpart := isNaN_right_of_add hn
  rw [isNaN_neg] at hpart
  obtain ⟨hle, hinf⟩ := mul_part hr h0 h1 hpart
  have hn' : (x + -r).isNaN = false := by
    apply isNaN_add_of hn ((isNaN_neg r).trans (number_of_zero_le hr))
    intro hi
    rw [value_neg, value_neg, hinf ((isInf_neg r).mp hi)]
  refine Valued.transitive (add_mono ?_ hn' hn) h
  rw [value_neg, value_neg]
  exact neg_le_neg hle

/-! ## Squares and roots -/

theorem zero_le_mul_self (hx : x.isNaN = false) : 0 ≤ x * x := by
  by_cases hi : x.isInf = true
  · rw [mul_eq]
    change x.toModel.unpack.isInf = true at hi
    generalize x.toModel.unpack = u at hi
    cases u with
    | infinity t =>
      obtain ⟨hnan, hvalue⟩ := value_ofModel_of_canonical (u := .infinity (t * t)) trivial
      refine zero_le_of_value hnan (le_of_le_of_eq ?_ hvalue.symm)
      cases t <;> exact top_pos.le
    | _ => cases hi
  · have hx' := isFinite_of_not_isInf hx hi
    obtain ⟨hn, hv⟩ := value_mul hx' hx'
    exact zero_le_of_value hn (hv ▸ nearest_nonneg (mul_self_nonneg (value x)))

theorem signed_signed (s : Sign) (v : Rat) : signed s (signed s v) = v := by
  cases s
  · exact neg_neg v
  · rfl

/-- Fields keep to the side of zero that their sign says. -/
theorem signed_ofFields (s : Sign) {e : Nat} (f : Nat) (h : e ≠ 2047) :
    (ofFields s e f).isNaN = false ∧ 0 ≤ signed s (partsValue (ofFields s e f)) := by
  unfold ofFields
  rw [if_neg h]
  split
  · split
    · refine ⟨rfl, ?_⟩
      cases s <;> simp [partsValue, signed]
    · refine ⟨rfl, ?_⟩
      rw [partsValue, signed_signed]
      positivity
  · refine ⟨rfl, ?_⟩
    rw [partsValue, signed_signed]
    positivity

theorem signed_of_canonical {s : Sign} {v : Rat} {u : UnpackedFloat} (hc : Canonical u)
    (hn : u.isNaN = false) (hv : partsValue u = signed s v) (h0 : 0 ≤ v) :
    (Float.ofModel (.pack u)).isNaN = false ∧ 0 ≤ signed s (value (.ofModel (.pack u))) := by
  obtain ⟨hn', hv'⟩ := value_ofModel_of_canonical hc
  rw [hn', hv', hv, signed_signed]
  exact ⟨hn, h0⟩

/-- Parts with ANY significand are put together to a number on their side of zero. -/
theorem signed_pack_parts (s : Sign) (m : Nat) (e : Int) :
    (Float.ofModel (.pack (parts s m e))).isNaN = false ∧
      0 ≤ signed s (value (.ofModel (.pack (parts s m e)))) := by
  unfold parts
  split
  · exact signed_of_canonical (v := 0) trivial rfl (by cases s <;> simp [partsValue, signed]) le_rfl
  · rename_i hm
    by_cases he : 971 < e
    · rw [pack_of_too_great s (Nat.pos_of_ne_zero hm) he]
      exact signed_of_canonical (u := .infinity s) trivial rfl rfl top_pos.le
    · have hexp : ¬2 ^ Format.binary64.exponentBits ≤ (e + Format.binary64.exponentBias +
          Format.binary64.mantissaBitsWithoutImplicit).toNat + 1 := by
        show ¬2048 ≤ (e + 1023 + 52).toNat + 1
        omega
      show (unpack Format.binary64 (UnpackedFloat.pack Format.binary64 _)).isNaN = false ∧
        0 ≤ signed s (partsValue (unpack Format.binary64 (UnpackedFloat.pack Format.binary64 _)))
      rw [UnpackedFloat.pack, if_neg hexp]
      split
      · rw [unpack_packComponents]
        apply signed_ofFields
        show (e + 1023 + 52).toNat % 2048 ≠ 2047
        omega
      · rw [unpack_packComponents]
        exact signed_ofFields s _ (Nat.succ_ne_zero 2046).symm

theorem signed_pack_sqrt {u : UnpackedFloat} (hn : u ≠ .notANumber) (hv : 0 ≤ partsValue u) :
    (Float.ofModel (.pack (UnpackedFloat.sqrt Format.binary64 u))).isNaN = false ∧
      0 ≤ signed .positive
        (value (.ofModel (.pack (UnpackedFloat.sqrt Format.binary64 u)))) := by
  have htop := top_pos
  cases u with
  | notANumber => exact absurd rfl hn
  | zero t => exact signed_of_canonical (u := .zero t) trivial rfl rfl le_rfl
  | infinity t =>
    cases t with
    | positive => exact signed_of_canonical (u := .infinity .positive) trivial rfl rfl htop.le
    | negative => simp only [partsValue, signed] at hv; linarith
  | finite t m e hm =>
    have hpos := finite_pos e hm
    cases t with
    | positive => exact signed_pack_parts .positive _ _
    | negative => simp only [partsValue, signed] at hv; linarith

/-- Where there is a root, it is not below zero. -/
theorem zero_le_sqrt (h : 0 ≤ x) : 0 ≤ x.sqrt := by
  have hroot := signed_pack_sqrt (isNaN_eq_false_iff.mp (number_of_zero_le h)) (value_of_zero_le h)
  exact zero_le_of_value hroot.1 hroot.2

/-- A vector is as long with its components exchanged. -/
instance : Std.Commutative (@Scalar.norm Float _) where
  comm x y := congrArg Float.sqrt (add_symm (x * x) (y * y))

/-! ## Zeros, of either sign -/

theorem beq_zero_iff : (x == 0) = true ↔ x.isNaN = false ∧ value x = 0 := by
  rw [beq_iff, value_zero]
  exact ⟨fun h => ⟨h.1.1, h.2⟩, fun h => ⟨⟨h.1, (value_ofNat 0).1⟩, h.2⟩⟩

theorem isFinite_of_beq_zero (h : (x == 0) = true) : x.isFinite = true := by
  obtain ⟨hn, hv⟩ := beq_zero_iff.mp h
  refine isFinite_iff.mpr ⟨hn, ?_⟩
  rw [hv, abs_zero]
  exact top_pos

theorem nearest_zero : nearest 0 = 0 := by
  rw [nearest_of_nonneg le_rfl, rounded_zero, min_eq_left top_pos.le]

theorem sub_beq_zero (hx : x.isFinite = true) (h : (x == y) = true) : (x - y == 0) = true := by
  obtain ⟨⟨hnx, hny⟩, hv⟩ := beq_iff.mp h
  have hy : y.isFinite = true := isFinite_iff.mpr ⟨hny, hv ▸ (isFinite_iff.mp hx).2⟩
  obtain ⟨hn, hsub⟩ := value_sub hx hy
  rw [hv, sub_self, nearest_zero] at hsub
  exact beq_zero_iff.mpr ⟨hn, hsub⟩

theorem mul_self_beq_zero (h : (x == 0) = true) : (x * x == 0) = true := by
  obtain ⟨hn, hmul⟩ := value_mul (isFinite_of_beq_zero h) (isFinite_of_beq_zero h)
  rw [(beq_zero_iff.mp h).2, mul_zero, nearest_zero] at hmul
  exact beq_zero_iff.mpr ⟨hn, hmul⟩

theorem add_beq_zero (hx : (x == 0) = true) (hy : (y == 0) = true) : (x + y == 0) = true := by
  obtain ⟨hn, hadd⟩ := value_add (isFinite_of_beq_zero hx) (isFinite_of_beq_zero hy)
  rw [(beq_zero_iff.mp hx).2, (beq_zero_iff.mp hy).2, add_zero, nearest_zero] at hadd
  exact beq_zero_iff.mpr ⟨hn, hadd⟩

theorem sqrt_beq_zero (h : (x == 0) = true) : (x.sqrt == 0) = true := by
  obtain ⟨hn, hv⟩ := beq_zero_iff.mp h
  have htop := top_pos
  have hroot : x.sqrt = .ofModel (.pack (UnpackedFloat.sqrt Format.binary64
      x.toModel.unpack)) := rfl
  rw [isNaN_eq_false_iff] at hn
  rw [value.eq_def] at hv
  rw [beq_zero_iff, hroot]
  generalize x.toModel.unpack = u at hn hv
  cases u with
  | notANumber => exact absurd rfl hn
  | zero t => exact value_ofModel_of_canonical (u := .zero t) trivial
  | infinity t => cases t <;> simp only [partsValue, signed] at hv <;> linarith
  | finite t m e hm =>
    have hpos := finite_pos e hm
    cases t <;> simp only [partsValue, signed] at hv <;> linarith

end DragDrop.Double
