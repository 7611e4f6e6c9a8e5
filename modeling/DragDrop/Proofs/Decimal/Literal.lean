import DragDrop.Proofs.Decimal.Scale
import DragDrop.Proofs.Json.Numeral

/-! The literal that a number is written as, and what its digits are gathered to.
Nothing of the seventeen digits of a double is lost in a word of 64 bits; a whole
number is gathered with the zero behind its point, TEN TIMES as great as it is. -/

namespace DragDrop

open Style (zeros)

theorem allDigits_toDigits (n : Nat) : AllDigits (Nat.toDigits 10 n) := by
  intro c hc
  exact Nat.isDigit_of_mem_toDigits (by simp) (by simp) hc

theorem AllDigits.append {s t : List Char} (hs : AllDigits s) (ht : AllDigits t) :
    AllDigits (s ++ t) := by
  intro c hc
  rcases List.mem_append.mp hc with h | h
  · exact hs c h
  · exact ht c h

theorem allDigits_zeros (n : Nat) : AllDigits (zeros n) := by
  intro c hc
  rw [List.eq_of_mem_replicate hc]
  rfl

theorem AllDigits.take {s : List Char} (h : AllDigits s) (n : Nat) : AllDigits (s.take n) := by
  intro c hc
  exact h c (List.mem_of_mem_take hc)

theorem AllDigits.drop {s : List Char} (h : AllDigits s) (n : Nat) : AllDigits (s.drop n) := by
  intro c hc
  exact h c (List.mem_of_mem_drop hc)

/-- No number but zero is written with a zero in front. -/
theorem head?_toDigits {n : Nat} (h : 0 < n) : (Nat.toDigits 10 n).head? ≠ some '0' := by
  induction n using Nat.strongRecOn with
  | ind n ih =>
    by_cases hn : n < 10
    · rw [Nat.toDigits_of_lt_base hn]
      intro heq
      have := Nat.digitChar_eq_zero.mp (Option.some.inj heq)
      omega
    · rw [Nat.toDigits_of_base_le (by simp) (not_lt.mp hn),
        List.head?_append_of_ne_nil _ Nat.toDigits_ne_nil]
      exact ih (n / 10) (by omega) (by omega)

namespace Literal

theorem le_ofDigitChars (ds : List Char) (n : Nat) : n ≤ Nat.ofDigitChars 10 ds n := by
  induction ds generalizing n with
  | nil => exact Nat.ofDigitChars_nil.ge
  | cons c ds ih =>
    rw [Nat.ofDigitChars_cons]
    have := ih (10 * n + (c.toNat - '0'.toNat))
    omega

/-- Digits that fit are all gathered. -/
theorem gather_of_lt {limit n : Nat} {ds : List Char} (h : Nat.ofDigitChars 10 ds n < limit) :
    gather limit n ds = (Nat.ofDigitChars 10 ds n, []) := by
  induction ds generalizing n with
  | nil => rw [gather, Nat.ofDigitChars_nil]
  | cons c ds ih =>
    rw [Nat.ofDigitChars_cons] at h ⊢
    have hle := le_ofDigitChars ds (10 * n + (c.toNat - '0'.toNat))
    rw [gather, digitValue, if_pos (lt_of_le_of_lt hle h)]
    exact ih h

theorem gather_toDigits {limit n : Nat} (h : n < limit) :
    gather limit 0 (Nat.toDigits 10 n) = (n, []) := by
  have hn : Nat.ofDigitChars 10 (Nat.toDigits 10 n) 0 = n := Nat.ofDigitChars_ten_toDigits
  rw [gather_of_lt (by rwa [hn]), hn]

/-- Digits that fit are gathered on both sides of the point. -/
theorem gathered_of_lt {l : Literal}
    (h : Nat.ofDigitChars 10 (l.whole ++ l.fraction) 0 < wordLimit) :
    l.gathered = (Nat.ofDigitChars 10 (l.whole ++ l.fraction) 0, -(l.fraction.length : Int)) := by
  rw [Nat.ofDigitChars_append] at h ⊢
  have hw := gather_of_lt (lt_of_le_of_lt (le_ofDigitChars l.fraction _) h)
  unfold gathered
  simp only [hw, gather_of_lt h, List.length_nil]
  congr 1
  omega

/-- The literal of an integer that is not negative. -/
def ofNat (n : Nat) : Literal := { negative := false, whole := Nat.toDigits 10 n }

theorem wellFormed_ofNat (n : Nat) : (ofNat n).WellFormed where
  whole := allDigits_toDigits n
  whole_ne_nil := Nat.toDigits_ne_nil
  head h := by
    rcases n.eq_zero_or_pos with rfl | hn
    · rfl
    · exact absurd h (head?_toDigits hn)
  fraction := fun _ hc => absurd hc List.not_mem_nil
  exponent := nofun

/-- An integer that fits into a word is read as it is. -/
theorem number_ofNat {n : Nat} (h : n < wordLimit) : (ofNat n).number = .ok (.integer n) := by
  have hint : (ofNat n).integer? = some (n : Int) := by
    unfold integer? ofNat
    simp only [gather_toDigits h]
    rfl
  rw [number, hint]

end Literal

namespace Decimal

/-- The power of ten of the first digit. -/
def lead (d : Decimal) : Int := d.exponent + ((Style.digits d.digits).length - 1 : Nat)

/-- Whether the number is written without an exponent. -/
def Plain (d : Decimal) : Prop := -5 ≤ d.lead ∧ d.lead ≤ 15

instance (d : Decimal) : Decidable d.Plain := inferInstanceAs (Decidable (_ ∧ _))

/-- How many digits stand behind the point, if there are any. -/
def behind (d : Decimal) : Nat := (-d.exponent).toNat

/-- The digits around the point of a number written without an exponent. -/
def around (d : Decimal) : List Char × List Char :=
  let ds := Style.digits d.digits
  if 0 ≤ d.exponent then (ds ++ zeros d.exponent.toNat, ['0'])
  else if d.behind < ds.length then
    (ds.take (ds.length - d.behind), ds.drop (ds.length - d.behind))
  else (['0'], zeros (d.behind - ds.length) ++ ds)

/-- The literal that a number is written as. -/
def literal (negative : Bool) (d : Decimal) : Literal :=
  if d.Plain then { negative, whole := d.around.1, fraction := d.around.2 }
  else
    { negative
      whole := (Style.digits d.digits).take 1
      fraction := (Style.digits d.digits).drop 1
      exponent := some ⟨!decide (0 ≤ d.lead), Style.digits d.lead.natAbs⟩ }

theorem length_digits_pos (n : Nat) : 0 < (Style.digits n).length := Nat.length_toDigits_pos

theorem around_ne_nil (d : Decimal) : d.around.1 ≠ [] ∧ d.around.2 ≠ [] := by
  have hpos := length_digits_pos d.digits
  have hne : Style.digits d.digits ≠ [] := Nat.toDigits_ne_nil
  unfold around
  dsimp only
  split
  · exact ⟨by simp [hne], List.cons_ne_nil _ _⟩
  · rename_i hk
    have hb : 0 < d.behind := by
      unfold behind
      omega
    split
    · refine ⟨?_, ?_⟩ <;> rw [← List.length_pos_iff]
      · rw [List.length_take]
        omega
      · rw [List.length_drop]
        omega
    · exact ⟨List.cons_ne_nil _ _, by simp [hne]⟩

theorem layoutPlain_eq (d : Decimal) :
    jsonStyle.layoutPlain d = d.around.1 ++ '.' :: d.around.2 := by
  unfold Style.layoutPlain around behind
  dsimp only
  split
  · rfl
  · split <;> rfl

theorem layoutScientific_eq {d : Decimal} (h : ¬d.Plain) :
    Style.layoutScientific d = (d.literal false).chars := by
  have hpos := length_digits_pos d.digits
  have hpoint : (Style.digits d.digits).drop 1 = [] ↔ (Style.digits d.digits).length = 1 := by
    rw [List.drop_eq_nil_iff]
    omega
  have hsign : (if 0 ≤ d.lead then '+' else '-') =
      if (!decide (0 ≤ d.lead)) = true then '-' else '+' := by
    by_cases hl : 0 ≤ d.lead <;> simp [hl]
  rw [literal, if_neg h]
  simp only [Literal.chars, Literal.exponentChars, hpoint, ← hsign, Bool.false_eq_true, if_false,
    List.nil_append]
  exact List.append_assoc _ _ _

/-- A number is written as its literal. -/
theorem layout_eq_chars (d : Decimal) : jsonStyle.layout d = (d.literal false).chars := by
  show (if d.Plain then jsonStyle.layoutPlain d else Style.layoutScientific d) = _
  split
  · rename_i h
    rw [layoutPlain_eq, literal, if_pos h]
    simp [Literal.chars, Literal.exponentChars, (around_ne_nil d).2]
  · rename_i h
    exact layoutScientific_eq h

theorem literal_chars_neg (d : Decimal) :
    '-' :: (d.literal false).chars = (d.literal true).chars := by
  unfold literal
  split <;> rfl

/-- What the digits of the literal are gathered to, and the power of ten that goes
with them. -/
def word (d : Decimal) : Nat × Int :=
  if d.Plain ∧ 0 ≤ d.exponent then (d.digits * 10 ^ (d.exponent.toNat + 1), -1)
  else (d.digits, d.exponent)

/-- The numbers that doubles are written as. -/
structure Writable (d : Decimal) : Prop where
  digits_le : d.digits ≤ 10 ^ 17
  exponent_eq_zero : d.digits = 0 → d.exponent = 0
  lead_lt : d.lead.natAbs < Literal.exponentLimit

theorem digits_lt (n : Nat) : n < 10 ^ (Style.digits n).length :=
  (Nat.length_toDigits_le_iff (by simp) (length_digits_pos n)).mp le_rfl

/-- Ten times a whole number that is written out fits into a word. -/
theorem word_lt {d : Decimal} (hd : d.Writable) : d.word.1 < Literal.wordLimit := by
  have hlimit : 10 ^ 17 < Literal.wordLimit := by decide
  unfold word
  split
  · rename_i h
    obtain ⟨k, hk⟩ := Int.eq_ofNat_of_zero_le h.2
    have hlead : k + ((Style.digits d.digits).length - 1) ≤ 15 := by
      have := h.1.2
      unfold lead at this
      omega
    have hpos := length_digits_pos d.digits
    have hlt : d.digits * 10 ^ (k + 1) < 10 ^ 17 := calc
      d.digits * 10 ^ (k + 1) < 10 ^ (Style.digits d.digits).length * 10 ^ (k + 1) :=
        Nat.mul_lt_mul_of_pos_right (digits_lt _) (Nat.pow_pos (by simp))
      _ = 10 ^ ((Style.digits d.digits).length + (k + 1)) := (pow_add _ _ _).symm
      _ ≤ 10 ^ 17 := Nat.pow_le_pow_right (by simp) (by omega)
    rw [hk, Int.toNat_natCast]
    exact hlt.trans hlimit
  · exact lt_of_le_of_lt hd.digits_le hlimit

/-- The digits around the point are all the digits there are. -/
theorem ofDigitChars_around {d : Decimal} (h : d.Plain) :
    Nat.ofDigitChars 10 (d.around.1 ++ d.around.2) 0 = d.word.1 ∧
      -(d.around.2.length : Int) = d.word.2 := by
  have hds : Nat.ofDigitChars 10 (Style.digits d.digits) 0 = d.digits :=
    Nat.ofDigitChars_ten_toDigits
  by_cases hk : 0 ≤ d.exponent
  · rw [around, if_pos hk, word, if_pos ⟨h, hk⟩]
    refine ⟨?_, rfl⟩
    dsimp only
    rw [Nat.ofDigitChars_append, Nat.ofDigitChars_append, hds, zeros,
      Nat.ofDigitChars_replicate_zero, Nat.ofDigitChars_cons, Nat.ofDigitChars_nil, pow_succ]
    show 10 * (10 ^ d.exponent.toNat * d.digits) + 0 = _
    ring
  · have hb : d.exponent = -(d.behind : Int) := by
      unfold behind
      omega
    rw [around, if_neg hk, word, if_neg (not_and_of_not_right _ hk)]
    split
    · refine ⟨by rw [List.take_append_drop, hds], ?_⟩
      dsimp only
      rw [List.length_drop]
      omega
    · refine ⟨?_, ?_⟩
      · show Nat.ofDigitChars 10 ('0' :: (zeros _ ++ Style.digits d.digits)) 0 = _
        rw [Nat.ofDigitChars_cons, Nat.ofDigitChars_append, zeros, Nat.ofDigitChars_replicate_zero]
        exact hds
      · dsimp only
        rw [List.length_append, zeros, List.length_replicate]
        omega

theorem allDigits_around (d : Decimal) : AllDigits d.around.1 ∧ AllDigits d.around.2 := by
  have hall : AllDigits (Style.digits d.digits) := allDigits_toDigits d.digits
  have hzero : AllDigits ['0'] := allDigits_zeros 1
  unfold around
  dsimp only
  split
  · exact ⟨hall.append (allDigits_zeros _), hzero⟩
  · split
    · exact ⟨hall.take _, hall.drop _⟩
    · exact ⟨hzero, (allDigits_zeros _).append hall⟩

/-- Only a zero begins with one. -/
theorem head?_digits {n : Nat} (h : (Style.digits n).head? = some '0') : n = 0 := by
  apply Nat.eq_zero_of_not_pos
  intro hpos
  exact head?_toDigits hpos h

theorem head?_around {d : Decimal} (hd : d.Writable) (h : d.around.1.head? = some '0') :
    d.around.1 = ['0'] := by
  have hne : Style.digits d.digits ≠ [] := Nat.toDigits_ne_nil
  unfold around at h ⊢
  dsimp only at h ⊢
  split at h
  · rename_i hk
    rw [List.head?_append_of_ne_nil _ hne] at h
    have h0 := head?_digits h
    rw [if_pos hk, h0, hd.exponent_eq_zero h0]
    rfl
  · rename_i hk
    have hb : 0 < d.behind := by
      unfold behind
      omega
    rw [if_neg hk]
    split at h
    · rename_i hlt
      rw [List.head?_take, if_neg (by omega)] at h
      have h0 := head?_digits h
      have hk0 := hd.exponent_eq_zero h0
      omega
    · rename_i hge
      rw [if_neg hge]

theorem wellFormed_literal {d : Decimal} (hd : d.Writable) (negative : Bool) :
    (d.literal negative).WellFormed := by
  by_cases hp : d.Plain
  · obtain ⟨hwhole, hfraction⟩ := allDigits_around d
    rw [literal, if_pos hp]
    exact ⟨hwhole, (around_ne_nil d).1, head?_around hd, hfraction, nofun⟩
  · have hall : AllDigits (Style.digits d.digits) := allDigits_toDigits d.digits
    rw [literal, if_neg hp]
    refine ⟨hall.take 1, ?_, ?_, hall.drop 1, ?_⟩
    · rw [← List.length_pos_iff, List.length_take]
      have := length_digits_pos d.digits
      omega
    · have hne : Style.digits d.digits ≠ [] := Nat.toDigits_ne_nil
      obtain ⟨c, cs, hc⟩ := List.exists_cons_of_ne_nil hne
      dsimp only
      rw [hc]
      rintro ⟨⟩
      rfl
    · rintro e ⟨⟩
      exact ⟨allDigits_toDigits _, Nat.toDigits_ne_nil⟩

theorem gathered_literal {d : Decimal} (hd : d.Writable) (negative : Bool) (h : d.Plain) :
    (d.literal negative).gathered = d.word := by
  obtain ⟨hdigits, hpower⟩ := ofDigitChars_around h
  have hlt := word_lt hd
  rw [← hdigits] at hlt
  rw [literal, if_pos h, Literal.gathered_of_lt hlt, hdigits, hpower]

/-- An exponent is added to the power of ten that goes with the digits. -/
theorem gathered_scientific {d : Decimal} (hd : d.Writable) (negative : Bool) (h : ¬d.Plain) :
    (d.literal negative).gathered =
      (d.digits, -(((Style.digits d.digits).length - 1 : Nat) : Int)) := by
  have hds : Nat.ofDigitChars 10 (Style.digits d.digits) 0 = d.digits :=
    Nat.ofDigitChars_ten_toDigits
  have hlt : d.digits < Literal.wordLimit := lt_of_le_of_lt hd.digits_le (by decide)
  rw [literal, if_neg h, Literal.gathered_of_lt]
  · dsimp only
    rw [List.take_append_drop, hds, List.length_drop]
  · dsimp only
    rw [List.take_append_drop, hds]
    exact hlt

theorem integer?_literal (d : Decimal) (negative : Bool) :
    (d.literal negative).integer? = none := by
  unfold Literal.integer? literal
  split
  · rename_i h0 _ _
    split at h0
    · exact absurd h0 (around_ne_nil d).2
    · rename_i hnone _ _
      split at hnone <;> contradiction
  · rfl

/-- What is taken off the power behind the point comes back with the exponent. -/
theorem shifted_lead (d : Decimal) :
    (if (!decide (0 ≤ d.lead)) = true
      then -(((Style.digits d.digits).length - 1 : Nat) : Int) - d.lead.natAbs
      else -(((Style.digits d.digits).length - 1 : Nat) : Int) + d.lead.natAbs) = d.exponent := by
  have hl : d.lead = d.exponent + ((Style.digits d.digits).length - 1 : Nat) := rfl
  by_cases h0 : 0 ≤ d.lead <;> simp only [h0, decide_true, decide_false, Bool.not_true,
    Bool.not_false, Bool.false_eq_true, if_true, if_false] <;> omega

theorem double_plain {d : Decimal} (hd : d.Writable) (negative : Bool) (hp : d.Plain) {y : Float}
    (h : Literal.scale (Float.ofNat d.word.1) d.word.2 = some y) :
    (d.literal negative).double = .ok (if negative then -y else y) := by
  have hexp : (d.literal negative).exponent = none := by rw [literal, if_pos hp]
  have hneg : (d.literal negative).negative = negative := by rw [literal, if_pos hp]
  unfold Literal.double
  rw [gathered_literal hd negative hp, hexp, hneg]
  dsimp only
  rw [h]
  rfl

theorem double_scientific {d : Decimal} (hd : d.Writable) (negative : Bool) (hp : ¬d.Plain)
    {y : Float} (h : Literal.scale (Float.ofNat d.word.1) d.word.2 = some y) :
    (d.literal negative).double = .ok (if negative then -y else y) := by
  have hexp : (d.literal negative).exponent =
      some ⟨!decide (0 ≤ d.lead), Style.digits d.lead.natAbs⟩ := by rw [literal, if_neg hp]
  have hneg : (d.literal negative).negative = negative := by rw [literal, if_neg hp]
  have hword : d.word = (d.digits, d.exponent) := by
    rw [word, if_neg (not_and_of_not_left _ hp)]
  have hk : Literal.gather Literal.exponentLimit 0 (Style.digits d.lead.natAbs) =
      (d.lead.natAbs, []) := Literal.gather_toDigits hd.lead_lt
  rw [hword] at h
  unfold Literal.double
  rw [gathered_scientific hd negative hp, hexp, hneg]
  dsimp only
  rw [hk]
  dsimp only
  rw [shifted_lead, h]
  rfl

/-- The double that the literal of a number is read as. -/
theorem number_literal {d : Decimal} (hd : d.Writable) (negative : Bool) {y : Float}
    (h : Literal.scale (Float.ofNat d.word.1) d.word.2 = some y) :
    (d.literal negative).number = .ok (.double (if negative then -y else y)) := by
  have hdouble : (d.literal negative).double = .ok (if negative then -y else y) := by
    by_cases hp : d.Plain
    · exact double_plain hd negative hp h
    · exact double_scientific hd negative hp h
  rw [Literal.number, integer?_literal, hdouble]
  rfl

end Decimal

end DragDrop
