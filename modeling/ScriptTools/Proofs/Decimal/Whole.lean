import Mathlib
import ScriptTools.Decimal.Whole

/-!
Integers become doubles and back. Below `2 ^ 53` nothing is lost, and every integer of 64 bits becomes a
finite double.
-/

namespace ScriptTools.Decimal

/-! Bits -/

section Bits

open Float.Model (Format UnpackedFloat)
open Float.Model.UnpackedFloat

theorem sign_bits (b : BitVec 1) : (Sign.ofBitVec b).toBitVec = b := by
  revert b
  decide

/-- The three parts of a double together are its bits. -/
theorem packComponents_unpack (b : BitVec 64) :
    packComponents .binary64 (Sign.ofBitVec (@unpackSign .binary64 b)) (@unpackExponent .binary64 b)
      (@unpackMantissa .binary64 b) = b := by
  simp only [packComponents, sign_bits, unpackSign, unpackExponent, unpackMantissa, BitVec.extractLsb]
  ext i bound
  grind

theorem pack_subnormal {s : Sign} {m : BitVec 52} (some : 0 < m.toNat) :
    pack .binary64 (.finite s m.toNat (-1074) some) = packComponents .binary64 s 0#11 m := by
  have log : m.toNat.log2 < 52 := (Nat.log2_lt (by omega)).mpr m.isLt
  have large : ¬ m.toNat.log2 + 1 = Format.binary64.mantissaBits := by
    have width : Format.binary64.mantissaBits = 53 := rfl
    omega
  unfold pack
  dsimp only
  rw [if_neg (by decide), if_neg large, BitVec.ofNat_toNat, BitVec.setWidth_eq]

theorem pack_normal {s : Sign} {e : BitVec 11} {m : BitVec 52} (finite : e ≠ -1#11) (some : 0 < (1#1 ++ m).toNat) :
    pack .binary64 (.finite s (1#1 ++ m).toNat (e.toNat - 1075) some) = packComponents .binary64 s e m := by
  have value : (1#1 ++ m).toNat = 2 ^ 52 + m.toNat := by
    rw [BitVec.toNat_append, ← Nat.shiftLeft_add_eq_or_of_lt m.isLt, Nat.shiftLeft_eq]
    rfl
  have log : (1#1 ++ m).toNat.log2 = 52 := by
    rw [value, Nat.log2_eq_iff (by omega)]
    omega
  have biased : ((e.toNat : Int) - 1075 + (Format.binary64.exponentBias : Nat) +
      (Format.binary64.mantissaBitsWithoutImplicit : Nat)).toNat = e.toNat := by
    have bias : Format.binary64.exponentBias = 1023 := rfl
    have bits : Format.binary64.mantissaBitsWithoutImplicit = 52 := rfl
    rw [bias, bits]
    omega
  have below : e.toNat ≠ 2047 := fun same => finite (BitVec.eq_of_toNat_eq same)
  unfold pack
  dsimp only
  rw [biased, log, if_neg, if_pos (by decide)]
  · congr 1
    · rw [BitVec.ofNat_toNat, BitVec.setWidth_eq]
    · rw [value]
      refine BitVec.eq_of_toNat_eq ?_
      rw [BitVec.toNat_ofNat, Nat.add_mod_left]
      exact Nat.mod_eq_of_lt m.isLt
  · have size := e.isLt
    have bits : Format.binary64.exponentBits = 11 := rfl
    omega

/-- The bits of a double that is no infinity and no NaN are those it was made from. -/
theorem pack_unpack {b : BitVec 64} (finite : @unpackExponent .binary64 b ≠ -1#11) :
    UnpackedFloat.pack .binary64 (UnpackedFloat.unpack .binary64 b) = b := by
  have parts := packComponents_unpack b
  rw [UnpackedFloat.unpack]
  dsimp only
  rw [if_neg finite]
  split
  · rename_i subnormal
    split
    · rename_i zero
      rw [subnormal, zero] at parts
      exact parts
    · rename_i some
      rw [subnormal] at parts ⊢
      exact (pack_subnormal _).trans parts
  · exact (pack_normal finite _).trans parts

/-- The biased exponent of a double. -/
def biased (bits : UInt64) : Nat := bits.toNat / 2 ^ 52 % 2048

theorem unpackExponent_ne {bits : UInt64} (finite : biased bits ≠ 2047) :
    @unpackExponent .binary64 bits.toBitVec ≠ -1#11 := by
  intro same
  have value := congrArg BitVec.toNat same
  refine finite ?_
  rw [biased]
  simpa [unpackExponent, BitVec.extractLsb, BitVec.extractLsb'_toNat, Nat.shiftRight_eq_div_pow] using value

theorem toBits_ofBits {bits : UInt64} (finite : biased bits ≠ 2047) : (Float.ofBits bits).toBits = bits := by
  change UInt64.ofBitVec (UnpackedFloat.pack .binary64 (UnpackedFloat.unpack .binary64 bits.toBitVec)) = bits
  rw [pack_unpack (unpackExponent_ne finite)]

theorem isFinite_ofBits {bits : UInt64} (finite : biased bits ≠ 2047) : (Float.ofBits bits).isFinite = true := by
  change (UnpackedFloat.unpack .binary64
    (UnpackedFloat.pack .binary64 (UnpackedFloat.unpack .binary64 bits.toBitVec))).isFinite = true
  rw [pack_unpack (unpackExponent_ne finite), UnpackedFloat.unpack]
  dsimp only
  rw [if_neg (unpackExponent_ne finite)]
  split
  · split <;> rfl
  · rfl

end Bits

/-! The double nearest to a natural number -/

theorem roundHalfEven_le (num den : Nat) : roundHalfEven num den ≤ num / den + 1 := by
  rw [roundHalfEven]
  split
  · exact Nat.le_succ _
  · split
    · exact Nat.le_refl _
    · split
      · exact Nat.le_succ _
      · exact Nat.le_refl _

theorem le_roundHalfEven (num den : Nat) : num / den ≤ roundHalfEven num den := by
  rw [roundHalfEven]
  split
  · exact Nat.le_refl _
  · split
    · exact Nat.le_succ _
    · split
      · exact Nat.le_refl _
      · exact Nat.le_succ _

theorem roundHalfEven_mul {n d : Nat} (positive : 0 < d) : roundHalfEven (n * d) d = n := by
  have none : n * d % d = 0 := Nat.mul_mod_left n d
  rw [roundHalfEven]
  rw [none, if_pos (by omega), Nat.mul_div_cancel n positive]

/-- The significand of the double nearest to a natural number. -/
def significand (n : Nat) : Nat := roundHalfEven (n * 2 ^ (52 - n.log2)) (2 ^ (n.log2 - 52))

theorem significand_bounds {n : Nat} (positive : n ≠ 0) : 2 ^ 52 ≤ significand n ∧ significand n ≤ 2 ^ 53 := by
  have low : 2 ^ n.log2 * 2 ^ (52 - n.log2) ≤ n * 2 ^ (52 - n.log2) := Nat.mul_le_mul_right _ (Nat.log2_self_le positive)
  have high : n * 2 ^ (52 - n.log2) < 2 ^ (n.log2 + 1) * 2 ^ (52 - n.log2) :=
    Nat.mul_lt_mul_of_pos_right Nat.lt_log2_self (Nat.two_pow_pos _)
  rw [← Nat.pow_add] at low high
  have lowExponent : n.log2 + (52 - n.log2) = 52 + (n.log2 - 52) := by omega
  have highExponent : n.log2 + 1 + (52 - n.log2) = 53 + (n.log2 - 52) := by omega
  rw [lowExponent, Nat.pow_add] at low
  rw [highExponent, Nat.pow_add] at high
  have least := (Nat.le_div_iff_mul_le (Nat.two_pow_pos _)).mpr low
  have most := (Nat.div_lt_iff_lt_mul (Nat.two_pow_pos _)).mpr high
  exact ⟨least.trans (le_roundHalfEven _ _), (roundHalfEven_le _ _).trans most⟩

/-- The double nearest to a natural number has its highest bit at the front of the significand. -/
theorem nearestBits_whole {n : Nat} (positive : n ≠ 0) (fits : n.log2 ≤ 63) :
    nearestBits n 1 = UInt64.ofNat ((n.log2 + 1022) * 2 ^ 52 + significand n) := by
  have one : Nat.log2 1 = 0 := rfl
  have wide : ¬ n * 2 ^ (53 - n.log2) / 2 ^ (n.log2 - 53) < 2 ^ 53 := by
    rw [Nat.not_lt, Nat.le_div_iff_mul_le (Nat.two_pow_pos _), ← Nat.pow_add]
    have exponent : 53 + (n.log2 - 53) = n.log2 + (53 - n.log2) := by omega
    rw [exponent, Nat.pow_add]
    exact Nat.mul_le_mul_right _ (Nat.log2_self_le positive)
  have guessed : (-((n.log2 : Int) - (0 : Nat) - 53)).toNat = 53 - n.log2 := by omega
  have guessed' : ((n.log2 : Int) - (0 : Nat) - 53).toNat = n.log2 - 53 := by omega
  have chosen : max ((n.log2 : Int) - (0 : Nat) - 53 + 1) (-1074) = n.log2 - 52 := by omega
  have up : (-((n.log2 : Int) - 52)).toNat = 52 - n.log2 := by omega
  have down : ((n.log2 : Int) - 52).toNat = n.log2 - 52 := by omega
  have field : ((n.log2 : Int) - 52 + 1074).toNat = n.log2 + 1022 := by omega
  have below : (n.log2 + 1022) * 2 ^ 52 + significand n < 0x7FF0000000000000 := by
    have most := (significand_bounds positive).2
    have carry : (n.log2 + 1022) * 2 ^ 52 ≤ (63 + 1022) * 2 ^ 52 := Nat.mul_le_mul_right _ (by omega)
    omega
  rw [nearestBits, if_neg positive]
  simp only [one, Nat.one_mul, Nat.pow_eq, guessed, guessed', if_neg wide, chosen, up, down, field]
  exact if_pos below

theorem signed_toNat {bits : UInt64} (negative : Bool) (small : bits.toNat < 2 ^ 63) :
    (if negative then bits ||| 0x8000000000000000 else bits).toNat = bits.toNat + negative.toNat * 2 ^ 63 := by
  cases negative with
  | false => rfl
  | true =>
    rw [if_pos rfl, UInt64.toNat_or]
    have joined := Nat.two_pow_add_eq_or_of_lt small 1
    rw [Nat.or_comm]
    change 2 ^ 63 * 1 ||| bits.toNat = _
    rw [← joined, Nat.mul_one, Nat.add_comm]
    rfl

/-- The bits of an integer as a double. -/
def bitsOfInt (i : Int) : UInt64 :=
  if decide (i < 0) then nearestBits i.natAbs 1 ||| 0x8000000000000000 else nearestBits i.natAbs 1

theorem bitsOfInt_toNat {i : Int} (positive : i ≠ 0) (fits : i.natAbs.log2 ≤ 63) :
    (bitsOfInt i).toNat =
      (i.natAbs.log2 + 1022) * 2 ^ 52 + significand i.natAbs + (decide (i < 0)).toNat * 2 ^ 63 := by
  have some : i.natAbs ≠ 0 := by omega
  have bounds := significand_bounds some
  have carry : (i.natAbs.log2 + 1022) * 2 ^ 52 ≤ (63 + 1022) * 2 ^ 52 := Nat.mul_le_mul_right _ (by omega)
  have value : (nearestBits i.natAbs 1).toNat = (i.natAbs.log2 + 1022) * 2 ^ 52 + significand i.natAbs := by
    rw [nearestBits_whole some fits, UInt64.toNat_ofNat']
    exact Nat.mod_eq_of_lt (by omega)
  rw [bitsOfInt, signed_toNat _ (by omega), value]

theorem biased_bitsOfInt {i : Int} (fits : i.natAbs.log2 ≤ 63) : biased (bitsOfInt i) ≠ 2047 := by
  by_cases zero : i = 0
  · subst zero
    decide
  · have bounds := significand_bounds (by omega : i.natAbs ≠ 0)
    have sign : (decide (i < 0)).toNat ≤ 1 := Bool.toNat_le _
    rw [biased, bitsOfInt_toNat zero fits]
    omega

/-- Every integer of 64 bits, with or without a sign, is a finite double. -/
theorem isFinite_ofInt {i : Int} (fits : i.natAbs < 2 ^ 64) : (ofInt i).isFinite = true := by
  refine isFinite_ofBits (biased_bitsOfInt ?_)
  by_cases zero : i.natAbs = 0
  · rw [zero]
    decide
  · exact Nat.le_of_lt_succ ((Nat.log2_lt zero).mpr fits)

/-- Up to `2 ^ 53` the significand holds all digits. -/
theorem significand_exact {n : Nat} (exact : n ≤ 2 ^ 53) :
    significand n * 2 ^ (n.log2 - 52) = n * 2 ^ (52 - n.log2) := by
  rcases Nat.lt_or_eq_of_le exact with below | rfl
  · have small : n.log2 ≤ 52 := by
      by_cases zero : n = 0
      · subst zero
        decide
      · exact Nat.le_of_lt_succ ((Nat.log2_lt zero).mpr below)
    have none : n.log2 - 52 = 0 := by omega
    have whole := roundHalfEven_mul (n := n * 2 ^ (52 - n.log2)) Nat.one_pos
    rw [Nat.mul_one] at whole
    rw [significand, none, Nat.pow_zero, Nat.mul_one, whole]
  · decide

theorem significand_lt {n : Nat} (exact : n ≤ 2 ^ 53) : significand n < 2 ^ 53 := by
  have high : n * 2 ^ (52 - n.log2) < 2 ^ (n.log2 + 1) * 2 ^ (52 - n.log2) :=
    Nat.mul_lt_mul_of_pos_right Nat.lt_log2_self (Nat.two_pow_pos _)
  have exponent : n.log2 + 1 + (52 - n.log2) = 53 + (n.log2 - 52) := by omega
  rw [← significand_exact exact, ← Nat.pow_add, exponent, Nat.pow_add] at high
  exact Nat.lt_of_mul_lt_mul_right high

/-- The magnitude of an integer that a double holds exactly. -/
theorem ofFloat_ofInt {i : Int} (some : i ≠ 0) (exact : i.natAbs ≤ 2 ^ 53) :
    Binary.ofFloat (ofInt i) = ⟨significand i.natAbs, i.natAbs.log2 - 52⟩ := by
  have log : i.natAbs.log2 ≤ 53 := Nat.le_of_lt_succ ((Nat.log2_lt (by omega)).mpr (by omega))
  have bits : (ofInt i).toBits = bitsOfInt i := toBits_ofBits (biased_bitsOfInt (by omega))
  have value := bitsOfInt_toNat some (by omega)
  have low := (significand_bounds (by omega : i.natAbs ≠ 0)).1
  have high := significand_lt exact
  have sign : (decide (i < 0)).toNat ≤ 1 := Bool.toNat_le _
  have exponent : (bitsOfInt i >>> 52).toNat % 2048 = i.natAbs.log2 + 1023 := by
    rw [UInt64.toNat_shiftRight, value, Nat.shiftRight_eq_div_pow]
    change _ / 2 ^ 52 % 2048 = _
    omega
  have fraction : (bitsOfInt i).toNat % Nat.pow 2 52 = significand i.natAbs - 2 ^ 52 := by
    rw [value, Nat.pow_eq]
    omega
  rw [Binary.ofFloat, bits, Binary.ofBits]
  simp only [exponent, fraction]
  rw [if_neg (by omega), Binary.mk.injEq, Nat.pow_eq]
  omega

theorem isNegative_ofInt {i : Int} (some : i ≠ 0) (exact : i.natAbs ≤ 2 ^ 53) : isNegative (ofInt i) = decide (i < 0) := by
  have log : i.natAbs.log2 ≤ 53 := Nat.le_of_lt_succ ((Nat.log2_lt (by omega)).mpr (by omega))
  have bits : (ofInt i).toBits = bitsOfInt i := toBits_ofBits (biased_bitsOfInt (by omega))
  have value := bitsOfInt_toNat some (by omega)
  have high := significand_lt exact
  have sign : (bitsOfInt i >>> 63).toNat = (decide (i < 0)).toNat := by
    rw [UInt64.toNat_shiftRight, value, Nat.shiftRight_eq_div_pow]
    change _ / 2 ^ 63 = _
    omega
  rw [isNegative, bits, Bool.eq_iff_iff, beq_iff_eq, ← UInt64.toNat_inj, sign]
  cases decide (i < 0) <;> decide

/-- An integer that a double holds exactly is read back from it. -/
theorem whole?_ofInt {i : Int} (exact : i.natAbs ≤ 2 ^ 53) : whole? (ofInt i) = some (Int64.ofInt i) := by
  by_cases zero : i = 0
  · subst zero
    decide +kernel
  · have up : ((i.natAbs.log2 : Int) - 52).toNat = i.natAbs.log2 - 52 := by omega
    have down : (-((i.natAbs.log2 : Int) - 52)).toNat = 52 - i.natAbs.log2 := by omega
    have num : (Binary.ofFloat (ofInt i)).num = i.natAbs * (Binary.ofFloat (ofInt i)).den := by
      rw [ofFloat_ofInt zero exact, Binary.num, Binary.den, up, down]
      exact significand_exact exact
    have value : (if isNegative (ofInt i) then -(i.natAbs : Int) else i.natAbs) = i := by
      rw [isNegative_ofInt zero exact]
      split
      · rename_i negative
        have := of_decide_eq_true negative
        omega
      · rename_i negative
        have := of_decide_eq_false (Bool.not_eq_true _ ▸ negative)
        omega
    have fits : fitsInt64 i = true := by
      rw [fitsInt64, Bool.and_eq_true, decide_eq_true_eq, decide_eq_true_eq]
      omega
    have positive := (Binary.ofFloat (ofInt i)).den_pos
    have quotient : ((Binary.ofFloat (ofInt i)).num : Int) / ((Binary.ofFloat (ofInt i)).den : Int) = i.natAbs := by
      rw [num, Int.natCast_mul]
      exact Int.mul_ediv_cancel _ (by omega)
    have rest : (Binary.ofFloat (ofInt i)).num % (Binary.ofFloat (ofInt i)).den = 0 := by
      rw [num, Nat.mul_mod_left]
    rw [whole?, quotient, value, rest, fits, isFinite_ofInt (by omega)]
    rfl

theorem whole?_negativeZero : whole? (-0.0) = some 0 := by
  have bits : (-0.0 : Float).toBits = 0x8000000000000000 := by decide
  have zero : (Binary.ofFloat (-0.0)).num = 0 := by
    rw [Binary.ofFloat, bits]
    exact Nat.zero_mul _
  have finite : (-0.0 : Float).isFinite = true := by decide
  rw [whole?, zero, finite]
  simp only [Nat.zero_mod, Int.natCast_zero, Int.zero_ediv, Int.neg_zero, ite_self]
  rfl

end ScriptTools.Decimal
