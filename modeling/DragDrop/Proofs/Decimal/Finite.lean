import DragDrop.Proofs.Decimal.Scale

/-! NO number that is accepted is infinite, and none of them is no number, whatever
digits and exponents a literal has. Words of 64 bits are far below the greatest double,
products that overflow are refused, and quotients only get smaller. -/

namespace DragDrop

open Double

namespace Literal

/-- Words are nowhere near the greatest double. -/
theorem isFinite_ofNat_of_word {n : Nat} (h : n ≤ wordLimit) :
    (Float.ofNat n).isFinite = true ∧ 0 ≤ value (Float.ofNat n) := by
  obtain ⟨hn, hv⟩ := value_ofNat n
  have h0 : 0 ≤ value (Float.ofNat n) := by
    rw [hv]
    exact nearest_nonneg (Nat.cast_nonneg n)
  have hcast : (n : Rat) ≤ (1 : Nat) * 2 ^ (64 : Int) := by
    rw [Nat.cast_one, one_mul]
    exact_mod_cast h
  have hle := nearest_mono hcast
  rw [nearest_exact (by simp) (by simp) (by simp)] at hle
  refine ⟨isFinite_iff.mpr ⟨hn, ?_⟩, h0⟩
  rw [abs_of_nonneg h0, hv]
  exact hle.trans_lt (finite_lt (by simp) (by simp))

theorem isFinite_ofInt {i : Int} (h : i.natAbs ≤ wordLimit) : (Float.ofInt i).isFinite = true := by
  cases i with
  | ofNat n => exact (isFinite_ofNat_of_word h).1
  | negSucc n => exact isFinite_neg (isFinite_ofNat_of_word h).1

theorem gather_lt {limit n : Nat} (h : n < limit) (digits : List Char) :
    (gather limit n digits).1 < limit := by
  induction digits generalizing n with
  | nil => exact h
  | cons c digits ih =>
    rw [gather]
    split
    · rename_i hm
      exact ih hm
    · exact h

theorem gathered_lt (l : Literal) : l.gathered.1 < wordLimit :=
  gather_lt (gather_lt (by decide) _) _

/-- A division by a power of ten stays finite, and keeps the sign. -/
theorem isFinite_div_powerOfTen {x : Float} {e : Nat} (h : x.isFinite = true)
    (h0 : 0 ≤ value x) (he : e ≤ 308) :
    (x / powerOfTen e).isFinite = true ∧ 0 ≤ value (x / powerOfTen e) := by
  obtain ⟨hp, hp1⟩ := powerOfTen_spec he
  have hpos : 0 < value (powerOfTen e) := one_pos.trans_le hp1
  obtain ⟨hn, hv⟩ := value_div h hp hpos.ne'
  have hquot : 0 ≤ value (x / powerOfTen e) := by
    rw [hv]
    exact nearest_nonneg (div_nonneg h0 hpos.le)
  refine ⟨isFinite_of_le hn hquot ?_ h, hquot⟩
  calc value (x / powerOfTen e) = nearest (value x / value (powerOfTen e)) := hv
    _ ≤ nearest (value x) := nearest_mono (div_le_self h0 hp1)
    _ = value x := nearest_value h

/-- What is scaled without being refused is finite. -/
theorem isFinite_scale {x y : Float} {e : Int} (h : x.isFinite = true) (h0 : 0 ≤ value x)
    (hy : scale x e = some y) : y.isFinite = true := by
  fun_induction scale x e with
  | case1 x e _ _ =>
    obtain rfl := Option.some.inj hy
    exact h
  | case2 | case3 => cases hy
  | case4 x e hhi hlo z hinf =>
    obtain rfl := Option.some.inj hy
    obtain ⟨hp, -⟩ := powerOfTen_spec (by omega : e.toNat ≤ 308)
    exact isFinite_iff_not_isInf.mpr ⟨(value_mul h hp).1, hinf⟩
  | case5 x e hhi hneg hlo =>
    obtain rfl := Option.some.inj hy
    exact (isFinite_div_powerOfTen h h0 (by omega)).1
  | case6 x e _ _ _ _ =>
    obtain rfl := Option.some.inj hy
    exact h
  | case7 x e _ _ _ _ ih =>
    obtain ⟨hfin, hnonneg⟩ := isFinite_div_powerOfTen h h0 le_rfl
    exact ih hfin hnonneg hy

theorem natAbs_integer? {l : Literal} {i : Int} (h : l.integer? = some i) :
    i.natAbs ≤ wordLimit := by
  have hlt := gather_lt (by decide : 0 < wordLimit) l.whole
  unfold integer? at h
  split at h
  · rename_i n _ _ hgather
    rw [hgather] at hlt
    split at h
    · obtain rfl := Option.some.inj h
      exact hlt.le
    · split at h
      · obtain rfl := Option.some.inj h
        rw [Int.natAbs_neg]
        exact hlt.le
      · cases h
  · cases h

theorem isFinite_double {l : Literal} {x : Float} (h : l.double = .ok x) : x.isFinite = true := by
  obtain ⟨hfin, hnonneg⟩ := isFinite_ofNat_of_word l.gathered_lt.le
  have hsigned {y : Float} (hy : y.isFinite = true) :
      (if l.negative then -y else y).isFinite = true := by
    split
    · exact isFinite_neg hy
    · exact hy
  have hscaled {e : Int} {y : Float} (hy : scale (Float.ofNat l.gathered.1) e = some y) :
      (if l.negative then -y else y).isFinite = true :=
    hsigned (isFinite_scale hfin hnonneg hy)
  unfold double at h
  dsimp only at h
  split at h
  · split at h
    · rename_i y hy
      obtain rfl := Except.ok.inj h
      exact hscaled hy
    · cases h
  · split at h
    · split at h
      · rename_i y hy
        obtain rfl := Except.ok.inj h
        exact hscaled hy
      · cases h
    · split at h
      · cases h
      · obtain rfl := Except.ok.inj h
        exact hsigned (by decide)

/-- A number that is accepted is finite. -/
theorem isFinite_number {l : Literal} {n : Number} (h : l.number = .ok n) :
    n.toFloat.isFinite = true := by
  unfold number at h
  split at h
  · rename_i i hi
    obtain rfl := Except.ok.inj h
    exact isFinite_ofInt (natAbs_integer? hi)
  · cases hd : l.double with
    | error unread => rw [hd] at h; cases h
    | ok x =>
      rw [hd] at h
      obtain rfl := Except.ok.inj h
      exact isFinite_double hd

end Literal

end DragDrop
