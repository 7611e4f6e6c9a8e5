/-! The fewest decimal digits that a double can be recognised by. A finite
double stands for an interval of numbers, all of which round to it; `shortest`
searches ever finer decimal grids for one of them, and of two equally fine ones
takes the nearer. Main statement: `readsBack_shortest`, that what is found lies
in the interval. The arithmetic is EXACT throughout. -/

namespace DragDrop

/-- The number `digits · 10 ^ exponent`. -/
structure Decimal where
  digits : Nat
  exponent : Int
deriving DecidableEq, Repr

namespace Decimal

def value (d : Decimal) : Rat := d.digits * (10 : Rat) ^ d.exponent

/-- How many digits a number is written with. -/
def length (n : Nat) : Nat := if n < 10 then 1 else length (n / 10) + 1

/-- Moves trailing zeros from the digits into the exponent. -/
def trimmed (d : Decimal) : Decimal :=
  if h : d.digits ≠ 0 ∧ d.digits % 10 = 0 then trimmed ⟨d.digits / 10, d.exponent + 1⟩ else d
termination_by d.digits

theorem value_trimmed (d : Decimal) : d.trimmed.value = d.value := by
  fun_induction trimmed d with
  | case1 d h ih =>
    rw [ih]
    have hd : (d.digits : Rat) = ((d.digits / 10 : Nat) : Rat) * 10 := by
      have := Nat.div_add_mod d.digits 10
      rw [h.2, Nat.add_zero, Nat.mul_comm] at this
      rw [← Rat.natCast_ofNat, ← Rat.natCast_mul, this]
    simp only [value]
    rw [hd, Rat.zpow_add_one (by decide), Rat.mul_assoc, Rat.mul_comm ((10 : Rat) ^ d.exponent)]
  | case2 => rfl

end Decimal

/-- Which of two equally near candidates is taken. -/
inductive Tie where
  /-- The even one. -/
  | even
  /-- The greater one. -/
  | up
deriving DecidableEq, Repr

/-- The number `significand · 2 ^ exponent` as a finite double holds it, short
of the sign. -/
structure Magnitude where
  significand : Nat
  exponent : Int
  /-- The next double below is only HALF as far away as the next one above. -/
  narrowBelow : Bool
deriving DecidableEq, Repr

namespace Magnitude

/-- The magnitude in the bits of a finite double. -/
def ofBits (b : UInt64) : Magnitude :=
  let e := ((b >>> 52) &&& 0x7FF).toNat
  let f := (b &&& 0xFFFFFFFFFFFFF).toNat
  if e = 0 then ⟨f, -1074, false⟩ else ⟨0x10000000000000 + f, (e : Int) - 1075, f = 0 ∧ 1 < e⟩

def value (x : Magnitude) : Rat := x.significand * (2 : Rat) ^ x.exponent

/-- Half way to the next double below. -/
def lower (x : Magnitude) : Rat :=
  (4 * x.significand - (if x.narrowBelow then 1 else 2)) * (2 : Rat) ^ (x.exponent - 2)

/-- Half way to the next double above. -/
def upper (x : Magnitude) : Rat := (4 * x.significand + 2) * (2 : Rat) ^ (x.exponent - 2)

/-- The numbers that round to the double. Half way counts if the significand is
even. -/
def ReadsBack (x : Magnitude) (v : Rat) : Prop :=
  if x.significand % 2 = 0 then x.lower ≤ v ∧ v ≤ x.upper else x.lower < v ∧ v < x.upper

instance (x : Magnitude) (v : Rat) : Decidable (x.ReadsBack v) := by
  unfold ReadsBack; infer_instance

/-- The `k` with `10 ^ (k - 1) ≤ v < 10 ^ k`, for `v` above zero. -/
def place (v : Rat) : Int :=
  if 1 ≤ v then Decimal.length v.floor.toNat
  else 1 - Decimal.length (v⁻¹.ceil.toNat - 1)

/-- The better of two neighbours on a grid, the smaller one given. -/
def nearer (x : Magnitude) (tie : Tie) (n : Nat) (grid : Rat) : Nat :=
  let twice := 2 * x.value
  let middle := (2 * n + 1) * grid
  if twice < middle then n
  else if middle < twice then n + 1
  else match tie with
    | .even => if n % 2 = 0 then n else n + 1
    | .up => n + 1

/-- A number on the grid `10 ^ k` that reads back, if there is one. -/
def onGrid (x : Magnitude) (tie : Tie) (k : Int) : Option Decimal :=
  let grid := (10 : Rat) ^ k
  let n := (x.value / grid).floor.toNat
  if x.ReadsBack (n * grid) then
    if x.ReadsBack ((n + 1 : Nat) * grid) then some ⟨x.nearer tie n grid, k⟩ else some ⟨n, k⟩
  else if x.ReadsBack ((n + 1 : Nat) * grid) then some ⟨n + 1, k⟩
  else none

/-- The double as it is, digit by digit. -/
def exact (x : Magnitude) : Decimal :=
  if 0 ≤ x.exponent then ⟨x.significand * Nat.pow 2 x.exponent.toNat, 0⟩
  else ⟨x.significand * Nat.pow 5 (-x.exponent).toNat, x.exponent⟩

/-- The shortest decimal that reads back. Seventeen digits are known to be
enough; `exact` stands in so that nothing rests on that. -/
def shortest (x : Magnitude) (tie : Tie) : Decimal :=
  let k := place x.value
  (((List.range 17).findSome? fun (n : Nat) => x.onGrid tie (k - (n + 1))).getD x.exact).trimmed

theorem readsBack_onGrid {x : Magnitude} {tie : Tie} {k : Int} {d : Decimal}
    (h : x.onGrid tie k = some d) : x.ReadsBack d.value := by
  have near (n : Nat) (g : Rat) : x.nearer tie n g = n ∨ x.nearer tie n g = n + 1 := by
    unfold nearer; cases tie <;> grind
  unfold onGrid at h
  dsimp only at h
  simp only [Decimal.value]
  split at h
  · rename_i hn
    split at h <;> obtain rfl := Option.some.inj h
    · rename_i hs
      rcases near (x.value / 10 ^ k).floor.toNat (10 ^ k) with e | e <;> rw [e] <;> assumption
    · exact hn
  · split at h
    · rename_i hs
      obtain rfl := Option.some.inj h
      exact hs
    · simp at h

theorem value_exact (x : Magnitude) : x.exact.value = x.value := by
  unfold exact
  split
  · rename_i h
    obtain ⟨n, hn⟩ := Int.eq_ofNat_of_zero_le h
    simp only [Decimal.value, value, hn, Int.toNat_natCast, Rat.zpow_natCast, Nat.pow_eq,
      Rat.natCast_mul, Rat.natCast_pow]
    simp
  · rename_i h
    obtain ⟨n, hn⟩ := Int.eq_ofNat_of_zero_le (a := -x.exponent) (by omega)
    have he : x.exponent = -(n : Int) := by omega
    have h10 : (10 : Rat) ^ n = 5 ^ n * 2 ^ n := by
      have : ((10 ^ n : Nat) : Rat) = (5 ^ n * 2 ^ n : Nat) := by rw [← Nat.mul_pow]
      simpa only [Rat.natCast_mul, Rat.natCast_pow, Rat.natCast_ofNat] using this
    have h5 : (5 : Rat) ^ n ≠ 0 := by
      have : (0 : Rat) < 5 ^ n := Rat.pow_pos (by decide)
      grind
    simp only [Decimal.value, value, he, Int.neg_neg, Int.toNat_natCast, Rat.zpow_neg,
      Rat.zpow_natCast, Nat.pow_eq, Rat.natCast_mul, Rat.natCast_pow, h10]
    grind

theorem readsBack_value (x : Magnitude) : x.ReadsBack x.value := by
  have hp : (0 : Rat) < 2 ^ (x.exponent - 2) := Rat.zpow_pos (by decide)
  have hv : x.value = (4 * x.significand) * (2 : Rat) ^ (x.exponent - 2) := by
    have h4 : (2 : Rat) ^ x.exponent = 2 ^ (x.exponent - 2) * 4 := by
      rw [show x.exponent = x.exponent - 2 + 1 + 1 by omega, Rat.zpow_add_one (by decide),
        Rat.zpow_add_one (by decide), show x.exponent - 2 + 1 + 1 - 2 = x.exponent - 2 by omega]
      grind
    rw [value, h4]
    grind
  have hl : x.lower < x.value := by
    rw [hv]
    exact Rat.mul_lt_mul_of_pos_right (by split <;> grind) hp
  have hu : x.value < x.upper := by
    rw [hv]
    exact Rat.mul_lt_mul_of_pos_right (by grind) hp
  unfold ReadsBack
  split
  · exact ⟨Rat.le_of_lt hl, Rat.le_of_lt hu⟩
  · exact ⟨hl, hu⟩

/-- What is found rounds to the double it was found for. -/
theorem readsBack_shortest (x : Magnitude) (tie : Tie) : x.ReadsBack (x.shortest tie).value := by
  unfold shortest
  rw [Decimal.value_trimmed]
  match h : (List.range 17).findSome? fun (n : Nat) => x.onGrid tie (place x.value - (n + 1)) with
  | none =>
    rw [Option.getD_none, value_exact]
    exact x.readsBack_value
  | some d =>
    obtain ⟨n, _, hn⟩ := List.exists_of_findSome?_eq_some h
    exact readsBack_onGrid hn

end Magnitude

end DragDrop
