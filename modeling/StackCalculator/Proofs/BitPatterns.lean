import Mathlib
import StackCalculator.Number.Layout
import StackCalculator.Number.Literal

/-!
# Bit patterns of doubles

A double is a sign, an exponent of eleven bits, and a mantissa of fifty-two. Its magnitude is the
number that the exponent and the mantissa make together, so that the two signs of a magnitude differ
in their first bit alone. Negation flips that bit and taking the absolute value clears it, for zeros
and infinities as well.

Arithmetic on doubles unpacks them, computes, and packs the result. What is packed again right away
is what was unpacked, unless it is not a number; there is one double only that is not a number.

## Main definitions

* `Magnitude.pattern m negative`: the bit pattern of a magnitude and a sign

## Main results

* `unpack_cases`: the five kinds of bit patterns, of which the sign is no part
* `Magnitude.pack_unpack_pattern`: the pattern of a magnitude is packed again as it was unpacked
* `Magnitude.neg_toFloat`, `Magnitude.abs_toFloat`: the negative and the absolute value of a double
* `Magnitude.ofFloat?_toFloat`, `Magnitude.toFloat_of_ofFloat?`: a double is its magnitude and its
  sign
* `eq_nan_of_ofFloat?`: a double without a magnitude is the one that is not a number
-/

namespace StackCalculator

open Float.Model Float.Model.UnpackedFloat

section Components

variable (s : Sign) (e : BitVec 11) (m : BitVec 52)

/-- The number that a bit pattern is. -/
theorem toNat_packComponents :
    (packComponents .binary64 s e m).toNat =
      s.toBitVec.toNat * 2 ^ 63 + (e.toNat * 2 ^ 52 + m.toNat) := by
  have he := e.isLt
  have hm := m.isLt
  unfold packComponents
  rw [BitVec.toNat_append, BitVec.toNat_append, ← Nat.shiftLeft_add_eq_or_of_lt he,
    ← Nat.shiftLeft_add_eq_or_of_lt hm, Nat.shiftLeft_eq, Nat.shiftLeft_eq]
  omega

/-- Every bit pattern has a sign, an exponent and a mantissa. -/
theorem exists_packComponents (b : BitVec 64) : ∃ s e m, b = packComponents .binary64 s e m :=
  ⟨_, _, _, (@packComponents_unpackSign_unpackExponent_unpackMantissa .binary64 b).symm⟩

/-- The mantissa of a normal double has one bit more than is written. -/
theorem toNat_implicit : (1#1 ++ m).toNat = 2 ^ 52 + m.toNat := by
  rw [BitVec.toNat_append, ← Nat.shiftLeft_add_eq_or_of_lt m.isLt, Nat.shiftLeft_eq]
  rfl

/-- The proof that its mantissa is positive is no part of a number. -/
theorem finite_congr {n n' : Nat} {x x' : Int} (hn : n = n') (hx : x = x') (h : 0 < n)
    (h' : 0 < n') : UnpackedFloat.finite s n x h = .finite s n' x' h' := by
  subst hn hx
  rfl

/-- **Unpacking a bit pattern**: infinite or not a number, zero, subnormal, or normal. -/
theorem unpack_packComponents :
    UnpackedFloat.unpack .binary64 (packComponents .binary64 s e m) =
      if e = -1#11 then if m = 0#52 then .infinity s else .notANumber
      else if e = 0#11 then if h : m = 0#52 then .zero s
        else .finite s m.toNat (-1074) (by simpa [BitVec.toNat_pos, BitVec.pos_iff_ne_zero])
      else .finite s (2 ^ 52 + m.toNat) (e.toNat - 1075) (by omega) := by
  have hmant : unpackMantissa (packComponents .binary64 s e m) = m := unpackMantissa_packComponents
  have hexp : unpackExponent (packComponents .binary64 s e m) = e := unpackExponent_packComponents
  have hsign : Sign.ofBitVec (unpackSign (packComponents .binary64 s e m)) = s := by
    rw [unpackSign_packComponents, Sign.ofBitVec_toBitVec]
  generalize packComponents .binary64 s e m = b at hmant hexp hsign ⊢
  subst hmant hexp hsign
  unfold UnpackedFloat.unpack
  refine ite_congr rfl (fun _ => rfl) fun _ => ite_congr rfl (fun he => ?_) fun _ => ?_
  · have hexponent : ((unpackExponent b).toNat : Int) - 1075 + 1 = -1074 := by
      rw [he]
      rfl
    exact dite_congr rfl (fun _ => rfl) fun _ => finite_congr _ rfl hexponent _ _
  · exact finite_congr _ (toNat_implicit _) rfl _ _

/-- **The five kinds of bit patterns.** The kind does not depend on the sign. -/
theorem unpack_cases :
    (e = -1#11 ∧ m = 0#52 ∧
      ∀ s, UnpackedFloat.unpack .binary64 (packComponents .binary64 s e m) = .infinity s) ∨
    (e = -1#11 ∧ m ≠ 0#52 ∧
      ∀ s, UnpackedFloat.unpack .binary64 (packComponents .binary64 s e m) = .notANumber) ∨
    (e = 0#11 ∧ m = 0#52 ∧
      ∀ s, UnpackedFloat.unpack .binary64 (packComponents .binary64 s e m) = .zero s) ∨
    (e = 0#11 ∧ m ≠ 0#52 ∧ ∃ h, ∀ s,
      UnpackedFloat.unpack .binary64 (packComponents .binary64 s e m) =
        .finite s m.toNat (-1074) h) ∨
    e ≠ -1#11 ∧ e ≠ 0#11 ∧ ∃ h, ∀ s,
      UnpackedFloat.unpack .binary64 (packComponents .binary64 s e m) =
        .finite s (2 ^ 52 + m.toNat) (e.toNat - 1075) h := by
  by_cases he : e = -1#11
  · by_cases hm : m = 0#52
    · exact .inl ⟨he, hm, fun s => by rw [unpack_packComponents, if_pos he, if_pos hm]⟩
    · exact .inr (.inl ⟨he, hm, fun s => by rw [unpack_packComponents, if_pos he, if_neg hm]⟩)
  · by_cases he0 : e = 0#11
    · by_cases hm : m = 0#52
      · refine .inr (.inr (.inl ⟨he0, hm, fun s => ?_⟩))
        rw [unpack_packComponents, if_neg he, if_pos he0, dif_pos hm]
      · have hpos : 0 < m.toNat := Nat.pos_of_ne_zero fun h0 => hm (BitVec.eq_of_toNat_eq h0)
        refine .inr (.inr (.inr (.inl ⟨he0, hm, hpos, fun s => ?_⟩)))
        rw [unpack_packComponents, if_neg he, if_pos he0, dif_neg hm]
    · have hpos : 0 < 2 ^ 52 + m.toNat := by omega
      refine .inr (.inr (.inr (.inr ⟨he, he0, hpos, fun s => ?_⟩)))
      rw [unpack_packComponents, if_neg he, if_neg he0]

/-- Negation flips the sign of a bit pattern. -/
theorem neg_unpack :
    (UnpackedFloat.unpack .binary64 (packComponents .binary64 s e m)).neg =
      UnpackedFloat.unpack .binary64 (packComponents .binary64 (-s) e m) := by
  rcases unpack_cases e m with ⟨-, -, h⟩ | ⟨-, -, h⟩ | ⟨-, -, h⟩ | ⟨-, -, _, h⟩ | ⟨-, -, _, h⟩ <;>
    rw [h, h] <;> rfl

/-- Taking the absolute value clears it. -/
theorem abs_unpack :
    (UnpackedFloat.unpack .binary64 (packComponents .binary64 s e m)).abs =
      UnpackedFloat.unpack .binary64 (packComponents .binary64 .positive e m) := by
  rcases unpack_cases e m with ⟨-, -, h⟩ | ⟨-, -, h⟩ | ⟨-, -, h⟩ | ⟨-, -, _, h⟩ | ⟨-, -, _, h⟩ <;>
    rw [h, h] <;> rfl

end Components

/-! ## Magnitudes and signs -/

namespace Magnitude

/-- **The bit pattern of a magnitude and a sign.** -/
def pattern (m : Magnitude) (negative : Bool) : BitVec 64 :=
  packComponents .binary64 (if negative then .negative else .positive)
    (BitVec.ofNat 11 (m.rank / binade)) (BitVec.ofNat 52 m.rank)

variable (m : Magnitude) (negative : Bool)

/-- The place of a magnitude is its bit pattern without the sign. -/
theorem toNat_pattern :
    (m.pattern negative).toNat = m.rank + if negative then signBit else 0 := by
  have hrank := m.rank_le
  simp only [infinityRank] at hrank
  unfold pattern
  rw [toNat_packComponents, BitVec.toNat_ofNat, BitVec.toNat_ofNat]
  cases negative
  all_goals simp [Sign.toBitVec, binade, signBit]
  all_goals omega

theorem toBitVec_ofNat :
    (UInt64.ofNat (m.rank + if negative then signBit else 0)).toBitVec = m.pattern negative := by
  apply BitVec.eq_of_toNat_eq
  have hlt := (m.pattern negative).isLt
  rw [toNat_pattern] at hlt ⊢
  exact Nat.mod_eq_of_lt hlt

/-- Behind the largest exponent there is infinity alone, and so no pattern of what is not a
number. -/
theorem mantissa_eq_zero (h : BitVec.ofNat 11 (m.rank / binade) = -1#11) :
    BitVec.ofNat 52 m.rank = 0#52 := by
  have hrank := m.rank_le
  simp only [infinityRank] at hrank
  have he : m.rank / binade % 2 ^ 11 = 2047 := congrArg BitVec.toNat h
  apply BitVec.eq_of_toNat_eq
  show m.rank % 2 ^ 52 = 0
  simp only [binade] at he
  omega

/-- The bit pattern of a magnitude is packed again as it was unpacked. -/
theorem pack_unpack_pattern :
    UnpackedFloat.pack .binary64 (UnpackedFloat.unpack .binary64 (m.pattern negative)) =
      m.pattern negative := by
  refine pack_unpack_of_valid ⟨fun he hm => ?_⟩
  rw [pattern, unpackExponent_packComponents] at he
  rw [pattern, unpackMantissa_packComponents, m.mantissa_eq_zero he] at hm
  exact absurd rfl hm

theorem toFloat_eq :
    m.toFloat negative =
      .ofModel (.pack (UnpackedFloat.unpack .binary64 (m.pattern negative))) := by
  rw [← toBitVec_ofNat]
  rfl

theorem unpack_toFloat :
    (m.toFloat negative).toModel.unpack = UnpackedFloat.unpack .binary64 (m.pattern negative) := by
  rw [toFloat_eq]
  exact congrArg (UnpackedFloat.unpack .binary64) (m.pack_unpack_pattern negative)

/-- **A magnitude is a number.** -/
theorem isNaN_toFloat : (m.toFloat negative).isNaN = false := by
  show (m.toFloat negative).toModel.unpack.isNaN = false
  rw [unpack_toFloat, pattern]
  rcases unpack_cases (BitVec.ofNat 11 (m.rank / binade)) (BitVec.ofNat 52 m.rank) with
    ⟨-, -, h⟩ | ⟨he, hm, -⟩ | ⟨-, -, h⟩ | ⟨-, -, _, h⟩ | ⟨-, -, _, h⟩
  case inr.inl => exact absurd (m.mantissa_eq_zero he) hm
  all_goals
    rw [h]
    rfl

/-- **The bits of a double** are its place, and the sign in front. -/
@[simp]
theorem toNat_toBits_toFloat :
    (m.toFloat negative).toBits.toNat = m.rank + if negative then signBit else 0 := by
  rw [← toNat_pattern, ← m.pack_unpack_pattern negative, toFloat_eq]
  rfl

/-- **The negative of a double** has the other sign. -/
theorem neg_toFloat : -(m.toFloat negative) = m.toFloat !negative := by
  have hneg : -(m.toFloat negative) = .ofModel (.pack (m.toFloat negative).toModel.unpack.neg) :=
    rfl
  rw [hneg, unpack_toFloat, pattern, neg_unpack, toFloat_eq, pattern]
  cases negative <;> rfl

/-- **The absolute value of a double** has no sign. -/
theorem abs_toFloat : (m.toFloat negative).abs = m.toFloat false := by
  have habs : (m.toFloat negative).abs = .ofModel (.pack (m.toFloat negative).toModel.unpack.abs) :=
    rfl
  rw [habs, unpack_toFloat, pattern, abs_unpack, toFloat_eq, pattern]
  rfl

/-- **The magnitude of a double.** -/
theorem ofFloat?_toFloat : ofFloat? (m.toFloat negative) = some m := by
  have hrank := m.rank_le
  have hmod : (m.toFloat negative).toBits.toNat % signBit = m.rank := by
    rw [toNat_toBits_toFloat]
    simp only [infinityRank, signBit] at hrank ⊢
    cases negative
    all_goals simp
    all_goals omega
  unfold ofFloat?
  simp only [hmod, dif_pos hrank]

/-- **The sign of a double.** -/
theorem isNegative_toFloat : Layout.isNegative (m.toFloat negative) = negative := by
  have hrank := m.rank_le
  unfold Layout.isNegative
  rw [toNat_toBits_toFloat]
  simp only [infinityRank, signBit] at hrank ⊢
  cases negative
  all_goals simp
  all_goals omega

variable {m} {x : Float}

/-- **A double is its magnitude and its sign**, if it has a magnitude. -/
theorem toFloat_of_ofFloat? (h : ofFloat? x = some m) : m.toFloat (Layout.isNegative x) = x := by
  apply Float.toBits_inj.mp
  apply UInt64.toNat.inj
  have hlt : x.toBits.toNat < 2 ^ 64 := x.toBits.toBitVec.isLt
  unfold ofFloat? at h
  split at h
  · obtain rfl := Option.some.inj h
    rw [toNat_toBits_toFloat, Layout.isNegative]
    show x.toBits.toNat % signBit + (if decide (signBit ≤ x.toBits.toNat) then signBit else 0) = _
    by_cases hs : signBit ≤ x.toBits.toNat
    · rw [decide_eq_true hs, if_pos rfl]
      simp only [signBit] at hs ⊢
      omega
    · rw [decide_eq_false hs, if_neg Bool.false_ne_true]
      simp only [signBit] at hs ⊢
      omega
  · cases h

end Magnitude

/-- **A double without a magnitude is the one that is not a number.** -/
theorem eq_nan_of_ofFloat? {x : Float} (h : Magnitude.ofFloat? x = none) : x = Literal.nan := by
  have hnan : Literal.nan.toBits.toBitVec = packedNaN .binary64 := by decide +kernel
  have hnone : ¬ x.toBits.toNat % signBit ≤ infinityRank := by
    intro hle
    unfold Magnitude.ofFloat? at h
    rw [dif_pos hle] at h
    cases h
  obtain ⟨s, e, m, hb⟩ := exists_packComponents x.toBits.toBitVec
  have he := e.isLt
  have hm := m.isLt
  have hs := s.toBitVec.isLt
  have hnat : x.toBits.toNat = _ := congrArg BitVec.toNat hb
  rw [hnat, toNat_packComponents] at hnone
  simp only [signBit, infinityRank] at hnone
  -- a double keeps one pattern for all that is not a number
  have hvalid := x.toModel.valid.eq_packedNaN
  rw [show x.toModel.toBits.toBitVec = _ from hb, unpackExponent_packComponents,
    unpackMantissa_packComponents] at hvalid
  have hbits : x.toBits.toBitVec = packedNaN .binary64 := by
    rw [hb]
    apply hvalid
    · apply BitVec.eq_of_toNat_eq
      show e.toNat = 2047
      omega
    · rintro rfl
      simp at hnone
      omega
  apply Float.toBits_inj.mp
  exact UInt64.toBitVec_inj.mp (hbits.trans hnan.symm)

/-- **A double equals zero whatever its sign**, or not at all. -/
theorem beq_zero_toFloat {m : Magnitude} {negative : Bool} (h : (m.toFloat negative == 0) = true) :
    (m.toFloat false == 0) = true := by
  have hzero : (0 : Float).toModel.unpack = .zero .positive := by
    have h0 : (0 : Float) = Magnitude.toFloat ⟨0, Nat.zero_le _⟩ false := by decide +kernel
    rw [h0, Magnitude.unpack_toFloat]
    rfl
  have hbeq : ∀ x : Float,
      (x == 0) = (x.toModel.unpack.compare (0 : Float).toModel.unpack == some .eq) :=
    fun _ => rfl
  rw [hbeq, Magnitude.unpack_toFloat, hzero, Magnitude.pattern] at h ⊢
  rcases unpack_cases (BitVec.ofNat 11 (m.rank / binade)) (BitVec.ofNat 52 m.rank) with
    ⟨-, -, hunpack⟩ | ⟨-, -, hunpack⟩ | ⟨-, -, hunpack⟩ | ⟨-, -, _, hunpack⟩ |
      ⟨-, -, _, hunpack⟩ <;>
    rw [hunpack] at h ⊢
  · cases negative <;> cases h
  · cases h
  · rfl
  · cases negative <;> cases h
  · cases negative <;> cases h

end StackCalculator
