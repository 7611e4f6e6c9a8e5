import Mathlib

/-! What a double is made of. Its bits are taken apart into a sign, a significand
and an exponent, in ONE way only: `canonical_unpack` says which parts occur, and
`unpack_pack` that such parts are put together without loss. The value of a
finite double is exact, a rational number. -/

namespace DragDrop.Double

open Float.Model Float.Model.UnpackedFloat

/-- The parts of a double. A significand has 53 bits, or fewer at the least
exponent. -/
def Canonical : UnpackedFloat → Prop
  | .finite _ m e _ => m < 2 ^ 53 ∧ -1074 ≤ e ∧ e ≤ 971 ∧ (2 ^ 52 ≤ m ∨ e = -1074)
  | _ => True

theorem toNat_one_append (v : BitVec 52) : (1#1 ++ v).toNat = 2 ^ 52 + v.toNat := by
  rw [BitVec.toNat_append, ← Nat.shiftLeft_add_eq_or_of_lt v.isLt]
  rfl

/-- The parts that an exponent field and a fraction field stand for. -/
def ofFields (s : Sign) (e f : Nat) : UnpackedFloat :=
  if e = 2047 then if f = 0 then .infinity s else .notANumber
  else if e = 0 then if h : f = 0 then .zero s else .finite s f (-1074) (Nat.pos_of_ne_zero h)
  else .finite s (2 ^ 52 + f) (e - 1075) (by positivity)

theorem unpack_eq_ofFields (b : BitVec Format.binary64.numBits) :
    unpack Format.binary64 b =
      ofFields (Sign.ofBitVec (unpackSign b)) (unpackExponent b).toNat
        (unpackMantissa b).toNat := by
  have hinf : unpackExponent b = -1#_ ↔ (unpackExponent b).toNat = 2047 :=
    ⟨congrArg BitVec.toNat, fun h => BitVec.eq_of_toNat_eq h⟩
  have hzero : unpackExponent b = 0#_ ↔ (unpackExponent b).toNat = 0 :=
    ⟨congrArg BitVec.toNat, fun h => BitVec.eq_of_toNat_eq h⟩
  have hnone : unpackMantissa b = 0#_ ↔ (unpackMantissa b).toNat = 0 :=
    ⟨congrArg BitVec.toNat, fun h => BitVec.eq_of_toNat_eq h⟩
  unfold UnpackedFloat.unpack ofFields
  dsimp only
  simp only [hinf, hzero, hnone]
  split
  · rfl
  · split
    · rename_i hz
      split
      · rfl
      · simp only [hz]
        rfl
    · simp only [toNat_one_append]
      rfl

theorem canonical_ofFields (s : Sign) {e f : Nat} (he : e < 2 ^ 11) (hf : f < 2 ^ 52) :
    Canonical (ofFields s e f) := by
  unfold ofFields
  split
  · split <;> trivial
  · split
    · split
      · trivial
      · exact ⟨by omega, by simp, by simp, .inr rfl⟩
    · exact ⟨by omega, by omega, by omega, .inl (by omega)⟩

theorem canonical_unpack (x : Float.Model) : Canonical x.unpack := by
  rw [Float.Model.unpack, unpack_eq_ofFields]
  exact canonical_ofFields _ (BitVec.isLt _) (BitVec.isLt _)

/-- What has the form of a double's parts has fields. No number has just one
payload. -/
theorem exists_ofFields {u : UnpackedFloat} (h : Canonical u) :
    ∃ s e f, e < 2 ^ 11 ∧ f < 2 ^ 52 ∧ (e = 2047 → f = 0 ∨ s = .positive ∧ f = 2 ^ 51) ∧
      u = ofFields s e f := by
  cases u with
  | notANumber => exact ⟨.positive, 2047, 2 ^ 51, by simp, by simp, by simp, rfl⟩
  | infinity s => exact ⟨s, 2047, 0, by simp, by simp, by simp, rfl⟩
  | zero s => exact ⟨s, 0, 0, by simp, by simp, by simp, rfl⟩
  | finite s m e hm =>
    obtain ⟨hlt, hlo, hhi, hn⟩ := h
    by_cases hc : 2 ^ 52 ≤ m
    · refine ⟨s, (e + 1075).toNat, m - 2 ^ 52, by omega, by omega, by omega, ?_⟩
      have hs : 2 ^ 52 + (m - 2 ^ 52) = m := by omega
      have hx : (((e + 1075).toNat : Nat) : Int) - 1075 = e := by omega
      rw [ofFields, if_neg (by omega), if_neg (by omega)]
      simp only [hs, hx]
    · obtain rfl : e = -1074 := hn.resolve_left hc
      refine ⟨s, 0, m, by simp, by omega, by simp, ?_⟩
      rw [ofFields, if_neg (by simp), if_pos rfl, dif_neg (by omega)]

theorem pack_ofFields (s : Sign) {e f : Nat} (he : e < 2 ^ 11) (hf : f < 2 ^ 52)
    (hn : e = 2047 → f = 0 ∨ s = .positive ∧ f = 2 ^ 51) :
    UnpackedFloat.pack Format.binary64 (ofFields s e f) =
      packComponents Format.binary64 s (BitVec.ofNat _ e) (BitVec.ofNat _ f) := by
  unfold ofFields
  by_cases hinf : e = 2047
  · rw [if_pos hinf, hinf]
    rcases hn hinf with rfl | ⟨rfl, rfl⟩
    · rfl
    · have h : ¬2 ^ 51 = 0 := by decide
      rw [if_neg h]
      rfl
  · rw [if_neg hinf]
    by_cases hz : e = 0
    · rw [if_pos hz, hz]
      by_cases hf0 : f = 0
      · rw [dif_pos hf0, hf0]
        rfl
      · rw [dif_neg hf0, UnpackedFloat.pack, if_neg (by decide), if_neg]
        have := (Nat.log2_lt hf0).mpr hf
        show ¬f.log2 + 1 = 53
        omega
    · rw [if_neg hz, UnpackedFloat.pack]
      have hb : ((e : Int) - 1075 + Format.binary64.exponentBias +
          Format.binary64.mantissaBitsWithoutImplicit).toNat = e := by
        show ((e : Int) - 1075 + 1023 + 52).toNat = e
        omega
      have hlog : (2 ^ 52 + f).log2 = 52 := (Nat.log2_eq_iff (by omega)).mpr ⟨by omega, by omega⟩
      have hm : BitVec.ofNat 52 (2 ^ 52 + f) = BitVec.ofNat 52 f := by
        apply BitVec.eq_of_toNat_eq
        simp
      simp only [hb, hlog]
      rw [if_neg (by show ¬2048 ≤ e + 1; omega), if_pos (by rfl)]
      exact congrArg _ hm

@[simp] theorem unpackSign_packComponents (s : Sign) (e : BitVec 11) (m : BitVec 52) :
    unpackSign (packComponents Format.binary64 s e m) = s.toBitVec := by
  ext i hi
  obtain rfl : i = 0 := by omega
  have h : (s.toBitVec ++ e ++ m : BitVec (1 + 11 + 52)).getLsbD 63 = s.toBitVec[0] := by
    rw [BitVec.getLsbD_append, BitVec.getLsbD_append]
    rfl
  simp only [unpackSign, packComponents, BitVec.extractLsb, BitVec.getElem_cast,
    BitVec.getElem_extractLsb']
  exact h

theorem unpack_packComponents (s : Sign) (e : BitVec 11) (f : BitVec 52) :
    unpack Format.binary64 (packComponents Format.binary64 s e f) =
      ofFields s e.toNat f.toNat := by
  have hs : Sign.ofBitVec (unpackSign (packComponents Format.binary64 s e f)) = s := by
    rw [unpackSign_packComponents]
    cases s <;> rfl
  rw [unpack_eq_ofFields, unpackExponent_packComponents, unpackMantissa_packComponents, hs]

/-- Parts that a double can have are put together without loss. -/
theorem unpack_pack {u : UnpackedFloat} (h : Canonical u) : (Float.Model.pack u).unpack = u := by
  obtain ⟨s, e, f, he, hf, hn, rfl⟩ := exists_ofFields h
  show unpack Format.binary64 (UnpackedFloat.pack Format.binary64 (ofFields s e f)) = _
  rw [pack_ofFields s he hf hn, unpack_packComponents, BitVec.toNat_ofNat, BitVec.toNat_ofNat,
    Nat.mod_eq_of_lt he, Nat.mod_eq_of_lt hf]

end DragDrop.Double
