import ScriptTools.Proofs.Decimal.ReadBack

/-!
Arithmetic on doubles. The double of an integer, a product and a quotient is the nearest one to the exact number, when
the signs are positive.
-/

namespace ScriptTools.Decimal

open Float.Model (Format UnpackedFloat totalExponent)
open Float.Model.UnpackedFloat

/-! Shifted mantissas -/

/-- Where in a unit the round bit puts a number. -/
def half (m : ExtendedMantissa) : ℚ := if m.roundBit then 1 / 2 else 0

/-- Whether a mantissa with its two bits stands for a number: it is the number without its fraction, of which the bits
tell the half and whether that is all. -/
structure Describes (m : ExtendedMantissa) (q : ℚ) : Prop where
  low : m.mantissa + half m ≤ q
  high : q < m.mantissa + half m + 1 / 2
  sticky : m.stickyBit = false ↔ q = m.mantissa + half m

variable {m : ExtendedMantissa} {q : ℚ}

theorem half_bounds (m : ExtendedMantissa) : 0 ≤ half m ∧ half m ≤ 1 / 2 := by
  rw [half]
  split <;> norm_num

theorem Describes.floor (describes : Describes m q) : (m.mantissa : ℚ) ≤ q ∧ q < m.mantissa + 1 := by
  obtain ⟨low, high, _⟩ := describes
  obtain ⟨inner, outer⟩ := half_bounds m
  constructor <;> linarith

theorem Describes.shiftRightOne (describes : Describes m q) : Describes m.shiftRightOne (q / 2) := by
  obtain ⟨low, high, sticky⟩ := describes
  have parts : (m.mantissa : ℚ) = 2 * (m.mantissa / 2 : ℕ) + (m.mantissa % 2 : ℕ) := by
    exact_mod_cast (Nat.div_add_mod m.mantissa 2).symm
  have bit : half m.shiftRightOne = (m.mantissa % 2 : ℕ) / 2 := by
    rcases Nat.mod_two_eq_zero_or_one m.mantissa with even | odd
    · simp [half, ExtendedMantissa.shiftRightOne, even]
    · simp [half, ExtendedMantissa.shiftRightOne, odd]
  obtain ⟨inner, outer⟩ := half_bounds m
  have whole : (m.shiftRightOne.mantissa : ℚ) = (m.mantissa / 2 : ℕ) := rfl
  refine ⟨?_, ?_, ?_⟩
  · rw [whole, bit]
    linarith
  · rw [whole, bit]
    linarith
  · rw [whole, bit]
    change (m.roundBit || m.stickyBit) = false ↔ _
    rw [Bool.or_eq_false_iff, sticky]
    constructor
    · rintro ⟨round, same⟩
      have none : half m = 0 := by simp [half, round]
      linarith
    · intro same
      have none : half m = 0 := by linarith
      refine ⟨?_, by linarith⟩
      by_contra round
      rw [Bool.not_eq_false] at round
      simp [half, round] at none

theorem Describes.shiftRight (describes : Describes m q) (n : ℕ) : Describes (m >>> n) (q / 2 ^ n) := by
  change Describes (n.repeat ExtendedMantissa.shiftRightOne m) _
  induction n with
  | zero => simpa [Nat.repeat] using describes
  | succ n ih =>
    rw [pow_succ, ← div_div]
    exact ih.shiftRightOne

/-- The rounded mantissa is the nearest whole number, the even one of two. -/
theorem Describes.rounded (describes : Describes m q) :
    |q - m.roundedMantissa| ≤ 1 / 2 ∧ (m.roundedMantissa % 2 = 1 → |q - m.roundedMantissa| < 1 / 2) := by
  obtain ⟨mantissa, round, sticky⟩ := m
  obtain ⟨low, high, exact⟩ := describes
  rw [abs_le, abs_lt]
  cases round with
  | false =>
    have none : half ⟨mantissa, false, sticky⟩ = 0 := rfl
    have down : (⟨mantissa, false, sticky⟩ : ExtendedMantissa).roundedMantissa = mantissa := by cases sticky <;> rfl
    rw [none] at low high
    rw [down]
    exact ⟨⟨by linarith, by linarith⟩, fun _ => ⟨by linarith, by linarith⟩⟩
  | true =>
    have some : half ⟨mantissa, true, sticky⟩ = 1 / 2 := rfl
    rw [some] at low high exact
    cases sticky with
    | false =>
      have tie := exact.mp rfl
      have even : (⟨mantissa, true, false⟩ : ExtendedMantissa).roundedMantissa = mantissa + mantissa % 2 := rfl
      rw [even]
      have unit : ((mantissa % 2 : ℕ) : ℚ) ≤ 1 := by exact_mod_cast Nat.le_of_lt_succ (Nat.mod_lt _ Nat.two_pos)
      push_cast at tie ⊢
      exact ⟨⟨by linarith, by linarith⟩, fun odd => absurd odd (by omega)⟩
    | true =>
      have above : q ≠ mantissa + 1 / 2 := fun same => Bool.noConfusion (exact.mpr same)
      have strict := lt_of_le_of_ne low above.symm
      have up : (⟨mantissa, true, true⟩ : ExtendedMantissa).roundedMantissa = mantissa + 1 := rfl
      rw [up]
      push_cast at low high strict ⊢
      exact ⟨⟨by linarith, by linarith⟩, fun _ => ⟨by linarith, by linarith⟩⟩

/-! Rounded floats -/

/-- The float of a magnitude. -/
def unpacked (s : Sign) (b : Binary) : UnpackedFloat :=
  if none : b.significand = 0 then .zero s else .finite s b.significand b.exponent (Nat.pos_of_ne_zero none)

theorem targetExponent_eq (mantissa : ℕ) (e : ℤ) :
    Format.binary64.targetExponent (totalExponent mantissa e) = max (mantissa.log2 + e - 52) (-1074) := by
  rw [Format.targetExponent, totalExponent]
  have width : (Format.binary64.mantissaBits : ℤ) = 53 := rfl
  have least : Format.binary64.minExponent = -1074 := rfl
  rw [width, least]
  congr 1
  omega

/-- The magnitude with a rounded significand, which may have taken one bit more. -/
def carried (significand : ℕ) (e : ℤ) : Binary :=
  if significand = 2 ^ 53 then ⟨2 ^ 52, e + 1⟩ else ⟨significand, e⟩

/-- A rounded mantissa keeps its exponent, unless it took one bit more. -/
theorem shiftToTargetExponent_rounded {n : ℕ} {e : ℤ} (most : n ≤ 2 ^ 53) (least : -1074 ≤ e) :
    (shiftToTargetExponent .binary64 n e .exact).1.mantissa = (carried n e).significand ∧
      (shiftToTargetExponent .binary64 n e .exact).2 = (carried n e).exponent := by
  rw [shiftToTargetExponent, targetExponent_eq, shiftToExponent, carried]
  dsimp only
  split
  · rename_i last
    have one : (max ((n.log2 : ℤ) + e - 52) (-1074) - e).toNat = 1 := by
      rw [last, Nat.log2_two_pow]
      omega
    rw [one, last]
    exact ⟨rfl, rfl⟩
  · rename_i inner
    have log : n.log2 < 53 := by
      by_cases zero : n = 0
      · rw [zero]
        decide
      · exact (Nat.log2_lt zero).mpr (lt_of_le_of_ne most inner)
    have none : (max ((n.log2 : ℤ) + e - 52) (-1074) - e).toNat = 0 := by omega
    rw [none]
    exact ⟨rfl, add_zero e⟩

theorem carry_near {e : ℤ} {r : ℚ} (least : -1074 ≤ e) (below : r < 2 ^ 53) (close : 2 ^ 53 - 1 / 2 ≤ r) :
    (⟨2 ^ 52, e + 1⟩ : Binary).IsCanonical ∧ (⟨2 ^ 52, e + 1⟩ : Binary).Near (r * 2 ^ e) := by
  have ratio : r * 2 ^ e / 2 ^ (e + 1) = r / 2 := by
    rw [zpow_add_one₀ two_ne_zero]
    field_simp
  have gap : (⟨2 ^ 52, e + 1⟩ : Binary).gap = 1 / 4 := if_pos ⟨rfl, by dsimp only; omega⟩
  refine ⟨⟨by norm_num, by dsimp only; omega, fun _ => le_rfl⟩, ?_, ?_, fun parity => absurd parity (by norm_num)⟩
  · rw [gap, ratio]
    push_cast
    linarith
  · rw [ratio]
    push_cast
    linarith

/-- Below the least significand the next double is closer, but a number that it stands for is not below it. -/
theorem gap_below {n : ℕ} {e : ℤ} {r : ℚ} (least : -1074 ≤ e) (full : -1074 < e → 2 ^ 52 ≤ r) (close : |r - n| ≤ 1 / 2)
    (odd : n % 2 = 1 → |r - n| < 1 / 2) :
    n - (⟨n, e⟩ : Binary).gap ≤ r ∧ (n % 2 = 1 → n - (⟨n, e⟩ : Binary).gap < r) := by
  rw [Binary.gap]
  split
  · rename_i first
    have power : (n : ℚ) = 2 ^ 52 := by exact_mod_cast first.1
    have := full (lt_of_le_of_ne least (Ne.symm first.2))
    exact ⟨by linarith, fun _ => by linarith⟩
  · exact ⟨by linarith [(abs_le.mp close).1], fun parity => by linarith [(abs_lt.mp (odd parity)).1]⟩

theorem carried_near {n : ℕ} {e : ℤ} {r : ℚ} (least : -1074 ≤ e) (below : r < 2 ^ 53) (full : -1074 < e → 2 ^ 52 ≤ r)
    (close : |r - n| ≤ 1 / 2) (odd : n % 2 = 1 → |r - n| < 1 / 2) :
    n ≤ 2 ^ 53 ∧ (carried n e).IsCanonical ∧ (carried n e).Near (r * 2 ^ e) := by
  obtain ⟨low, high⟩ := abs_le.mp close
  have most : n ≤ 2 ^ 53 := by
    have cast : (n : ℚ) < (2 ^ 53 + 1 : ℕ) := by
      push_cast
      linarith
    exact Nat.le_of_lt_succ (by exact_mod_cast cast)
  refine ⟨most, ?_⟩
  rw [carried]
  split
  · rename_i last
    rw [last] at low
    push_cast at low
    exact carry_near least below (by linarith)
  · rename_i inner
    have ratio : r * 2 ^ e / 2 ^ e = r := mul_div_cancel_right₀ _ (by positivity)
    have normal (above : -1074 < e) : 2 ^ 52 ≤ n := by
      have cast : ((2 ^ 52 : ℕ) : ℚ) < (n + 1 : ℕ) := by
        have := full above
        push_cast
        linarith
      exact Nat.le_of_lt_succ (by exact_mod_cast cast)
    obtain ⟨wide, strict⟩ := gap_below least full close odd
    refine ⟨⟨lt_of_le_of_ne most inner, least, normal⟩, ?_, ?_, fun parity => ?_⟩
    · rw [ratio]
      exact wide
    · rw [ratio]
      dsimp only
      linarith
    · rw [ratio]
      exact ⟨strict parity, by linarith [(abs_lt.mp (odd parity)).2]⟩

/-- A number has 53 bits before its point when it is shifted to the exponent of a double. -/
theorem shifted_bounds {mantissa k : ℕ} {e : ℤ} (low : mantissa ≤ q) (high : q < mantissa + 1)
    (target : e + k = max (mantissa.log2 + e - 52) (-1074)) :
    q / 2 ^ k < 2 ^ 53 ∧ (-1074 < e + k → 2 ^ 52 ≤ q / 2 ^ k) := by
  have power : (0 : ℚ) < 2 ^ k := by positivity
  constructor
  · have bits : mantissa + 1 ≤ 2 ^ (53 + k) :=
      Nat.lt_log2_self.trans_le (Nat.pow_le_pow_right Nat.two_pos (by omega))
    have cast : (mantissa + 1 : ℚ) ≤ 2 ^ (53 + k) := by exact_mod_cast bits
    rw [div_lt_iff₀ power, ← pow_add]
    linarith
  · intro above
    have log : mantissa.log2 = 52 + k := by omega
    have some : mantissa ≠ 0 := by
      rintro rfl
      rw [Nat.log2_zero] at log
      omega
    have bits := Nat.log2_self_le some
    rw [log] at bits
    have cast : (2 : ℚ) ^ (52 + k) ≤ mantissa := by exact_mod_cast bits
    rw [le_div_iff₀ power, ← pow_add]
    linarith

theorem mantissa_ofMantissaAndAccuracy (n : ℕ) (accuracy : Accuracy) :
    (ExtendedMantissa.ofMantissaAndAccuracy n accuracy).mantissa = n := by
  cases accuracy with
  | exact => rfl
  | inexact side => cases side <;> rfl

/-- A float is rounded to the nearest magnitude when the mantissa has all the bits that are needed. -/
theorem roundWithAccuracy_near (s : Sign) {mantissa : ℕ} {e : ℤ} {accuracy : Accuracy}
    (fine : e ≤ max (mantissa.log2 + e - 52) (-1074))
    (describes : Describes (.ofMantissaAndAccuracy mantissa accuracy) q) :
    ∃ b : Binary, b.IsCanonical ∧ b.Near (q * 2 ^ e) ∧ roundWithAccuracy .binary64 s mantissa e accuracy = unpacked s b := by
  obtain ⟨k, target⟩ := Int.le.dest fine
  obtain ⟨low, high⟩ := describes.floor
  rw [mantissa_ofMantissaAndAccuracy] at low high
  obtain ⟨close, odd⟩ := (describes.shiftRight k).rounded
  obtain ⟨n, rounded⟩ : ∃ n, n = (ExtendedMantissa.ofMantissaAndAccuracy mantissa accuracy >>> k).roundedMantissa := ⟨_, rfl⟩
  rw [← rounded] at close odd
  obtain ⟨below, full⟩ := shifted_bounds low high target
  obtain ⟨most, canonical, near⟩ := carried_near (e := e + k) (by omega) below full close odd
  refine ⟨carried n (e + k), canonical, ?_, ?_⟩
  · have scaled : q / 2 ^ k * 2 ^ (e + k) = q * 2 ^ e := by
      rw [zpow_add₀ two_ne_zero, zpow_natCast]
      field_simp
    rwa [scaled] at near
  · have first : shiftToTargetExponent .binary64 mantissa e accuracy =
        (ExtendedMantissa.ofMantissaAndAccuracy mantissa accuracy >>> k, e + k) := by
      have steps : (max ((mantissa.log2 : ℤ) + e - 52) (-1074) - e).toNat = k := by omega
      rw [shiftToTargetExponent, targetExponent_eq, shiftToExponent, steps]
    obtain ⟨significand, exponent⟩ := shiftToTargetExponent_rounded (e := e + k) most (by omega)
    rw [roundWithAccuracy, first]
    simp only [← rounded, significand, exponent, unpacked]

/-! Doubles and their floats -/

variable {b : Binary} {x y : Float}

theorem bits_lt (canonical : b.IsCanonical) (finite : b.exponent ≤ 971) : b.bits < 0x7FF0000000000000 := by
  have below := canonical.below
  have least := canonical.least
  rw [Binary.bits]
  omega

/-- A canonical magnitude is read back from its bits. -/
theorem ofBits_bits (canonical : b.IsCanonical) (finite : b.exponent ≤ 971) : Binary.ofBits (UInt64.ofNat b.bits) = b := by
  have small := bits_lt canonical finite
  obtain ⟨significand, exponent⟩ := b
  obtain ⟨below, least, normal⟩ := canonical
  dsimp only at *
  have value : (UInt64.ofNat (Binary.bits ⟨significand, exponent⟩)).toNat =
      (exponent + 1074).toNat * 2 ^ 52 + significand := by
    rw [UInt64.toNat_ofNat', Nat.mod_eq_of_lt (by omega)]
    rfl
  rw [Binary.ofBits]
  simp only [Binary.biased_ofBits, biased, value, Nat.pow_eq]
  split
  · rw [Binary.mk.injEq]
    omega
  · rw [Binary.mk.injEq]
    omega

theorem packComponents_toNat (e : BitVec 11) (m : BitVec 52) :
    (packComponents .binary64 .positive e m).toNat = e.toNat * 2 ^ 52 + m.toNat := by
  change (0#1 ++ e ++ m).toNat = _
  rw [append_toNat, append_toNat]
  simp

theorem pack_unpacked (canonical : b.IsCanonical) :
    (pack .binary64 (unpacked .positive b)).toNat = if b.exponent ≤ 971 then b.bits else 0x7FF0000000000000 := by
  obtain ⟨significand, exponent⟩ := b
  obtain ⟨below, least, normal⟩ := canonical
  dsimp only at below least normal ⊢
  rw [unpacked, Binary.bits]
  dsimp only
  split
  · rename_i zero
    have last : exponent = -1074 := by
      by_contra above
      have := normal (by omega)
      omega
    rw [zero, last]
    rfl
  · rename_i some
    unfold pack
    dsimp only
    have bias : (exponent + (Format.binary64.exponentBias : ℕ) + (52 : ℕ)).toNat = (exponent + 1075).toNat := by
      have bias : Format.binary64.exponentBias = 1023 := rfl
      rw [bias]
      omega
    have width : Format.binary64.mantissaBits = 53 := rfl
    rw [bias, width]
    by_cases large : 971 < exponent
    · rw [if_pos (show 2 ^ 11 ≤ (exponent + 1075).toNat + 1 by omega), if_neg (not_le.mpr large)]
      rfl
    · rw [if_neg (show ¬ 2 ^ 11 ≤ (exponent + 1075).toNat + 1 by omega), if_pos (not_lt.mp large)]
      by_cases full : 2 ^ 52 ≤ significand
      · rw [if_pos (congrArg (· + 1) ((Nat.log2_eq_iff some).mpr ⟨full, below⟩)), packComponents_toNat, BitVec.toNat_ofNat,
          BitVec.toNat_ofNat]
        omega
      · have log : significand.log2 < 52 := (Nat.log2_lt some).mpr (not_le.mp full)
        have last : exponent = -1074 := by
          by_contra above
          exact full (normal (by omega))
        rw [if_neg (by omega), packComponents_toNat, BitVec.toNat_ofNat, BitVec.toNat_ofNat, last]
        omega

theorem sign_of_positive (positive : isNegative x = false) :
    Sign.ofBitVec (@unpackSign .binary64 x.toBits.toBitVec) = .positive := by
  have small : x.toBits.toNat < 2 ^ 63 := by
    rw [← Nat.not_le, ← isNegative_iff, positive]
    exact Bool.false_ne_true
  have bit : @unpackSign .binary64 x.toBits.toBitVec = 0#1 := by
    refine BitVec.eq_of_toNat_eq ?_
    simp only [unpackSign, Nat.reduceAdd, Nat.reduceSub, BitVec.extractLsb, BitVec.cast_eq, BitVec.extractLsb'_toNat,
      UInt64.toNat_toBitVec, Nat.shiftRight_eq_div_pow, Nat.reducePow, pow_one, BitVec.toNat_ofNat, Nat.zero_mod]
    omega
  rw [Sign.ofBitVec, if_pos bit]

theorem unpack_eq (finite : x.isFinite = true) (positive : isNegative x = false) :
    unpack .binary64 x.toBits.toBitVec = unpacked .positive (Binary.ofFloat x) := by
  have exponent : (@unpackExponent .binary64 x.toBits.toBitVec).toNat = biased x.toBits := by
    simp [unpackExponent, BitVec.extractLsb, BitVec.extractLsb'_toNat, Nat.shiftRight_eq_div_pow, biased]
  have mantissa : (@unpackMantissa .binary64 x.toBits.toBitVec).toNat = x.toBits.toNat % 2 ^ 52 := by
    simp [unpackMantissa, BitVec.extractLsb, BitVec.extractLsb'_toNat]
  rw [unpack]
  dsimp only
  rw [if_neg (unpackExponent_ne (biased_of_isFinite finite)), sign_of_positive positive, Binary.ofFloat, Binary.ofBits]
  simp only [Binary.biased_ofBits, Nat.pow_eq]
  by_cases lowest : biased x.toBits = 0
  · rw [if_pos (BitVec.eq_of_toNat_eq (exponent.trans (lowest.trans rfl))), if_pos lowest]
    split
    · rename_i zero
      rw [← mantissa, zero]
      rfl
    · rename_i some
      refine Eq.trans ?_ (dif_neg fun none => some (BitVec.eq_of_toNat_eq (mantissa.trans none))).symm
      rw [UnpackedFloat.finite.injEq]
      exact ⟨rfl, mantissa, by rw [exponent, lowest]; rfl⟩
  · rw [if_neg fun zero => lowest (exponent.symm.trans (congrArg BitVec.toNat zero)), if_neg lowest]
    refine Eq.trans ?_ (dif_neg (Nat.add_pos_right _ (Nat.two_pow_pos 52)).ne').symm
    rw [UnpackedFloat.finite.injEq]
    refine ⟨rfl, ?_, by rw [exponent]; rfl⟩
    change (1#1 ++ @unpackMantissa .binary64 x.toBits.toBitVec).toNat = _
    rw [append_toNat, mantissa, Nat.add_comm]
    rfl

/-- Whether a double is the nearest one to a number that is not negative. -/
structure IsNearest (x : Float) (q : ℚ) : Prop where
  finite : x.isFinite = true
  positive : isNegative x = false
  near : (Binary.ofFloat x).Near q

/-- The infinite double with a positive sign. -/
def infinity : Float := Float.ofBits 0x7FF0000000000000

theorem isNearest_of_pack (canonical : b.IsCanonical) (near : b.Near q)
    (bits : x.toBits.toBitVec = pack .binary64 (unpacked .positive b)) : IsNearest x q ∨ x = infinity ∧ 2 ^ 1023 ≤ q := by
  have value := congrArg BitVec.toNat bits
  rw [pack_unpacked canonical] at value
  change x.toBits.toNat = _ at value
  split at value
  · rename_i small
    have below := bits_lt canonical small
    have magnitude : Binary.ofFloat x = b := by
      rw [Binary.ofFloat, ← UInt64.ofNat_toNat (x := x.toBits), value]
      exact ofBits_bits canonical small
    refine .inl ⟨?_, ?_, magnitude ▸ near⟩
    · rw [← Float.ofBits_toBits x]
      refine isFinite_ofBits ?_
      rw [biased, value]
      omega
    · rw [← Bool.not_eq_true, isNegative_iff, value]
      omega
  · rename_i large
    refine .inr ⟨?_, ?_⟩
    · rw [infinity, ← Float.ofBits_toBits x]
      exact congrArg Float.ofBits (UInt64.toNat_inj.mp value)
    · have scale : (0 : ℚ) < 2 ^ b.exponent := by positivity
      have full : ((2 ^ 52 : ℕ) : ℚ) ≤ b.significand := by exact_mod_cast canonical.normal (by omega)
      have power : (2 : ℚ) ^ (972 : ℤ) ≤ 2 ^ b.exponent := zpow_le_zpow_right₀ one_le_two (by omega)
      have low := near.low
      have gap := b.gap_le
      rw [le_div_iff₀ scale] at low
      push_cast at full
      calc (2 : ℚ) ^ 1023 = 2 ^ 51 * 2 ^ (972 : ℤ) := by rw [zpow_ofNat, ← pow_add]
        _ ≤ (b.significand - b.gap) * 2 ^ b.exponent := by
          refine mul_le_mul ?_ power (by positivity) (by linarith)
          linarith
        _ ≤ q := low

/-! Operations -/

theorem describes_exact (n : ℕ) : Describes (.ofMantissaAndAccuracy n .exact) n := by
  have none : half (.ofMantissaAndAccuracy n .exact) = 0 := rfl
  refine ⟨?_, ?_, iff_of_true rfl ?_⟩ <;> rw [none, mantissa_ofMantissaAndAccuracy] <;> norm_num

/-- The order of a fraction and the half stands for the fraction. -/
theorem describes_inexact (n : ℕ) {o : Ordering} {f : ℚ} (some : 0 < f) (below : f < 1) (less : o = .lt ↔ f < 1 / 2)
    (same : o = .eq ↔ f = 1 / 2) : Describes (.ofMantissaAndAccuracy n (.inexact o)) (n + f) := by
  cases o with
  | lt =>
    have none : half (.ofMantissaAndAccuracy n (.inexact .lt)) = 0 := rfl
    have low := less.mp rfl
    refine ⟨?_, ?_, iff_of_false nofun ?_⟩ <;> rw [none, mantissa_ofMantissaAndAccuracy]
    · linarith
    · linarith
    · exact fun whole => by linarith
  | eq =>
    have one : half (.ofMantissaAndAccuracy n (.inexact .eq)) = 1 / 2 := rfl
    rw [same.mp rfl]
    refine ⟨?_, ?_, iff_of_true rfl ?_⟩ <;> rw [one, mantissa_ofMantissaAndAccuracy]
    linarith
  | gt =>
    have one : half (.ofMantissaAndAccuracy n (.inexact .gt)) = 1 / 2 := rfl
    have high : 1 / 2 < f := lt_of_le_of_ne (not_lt.mp (mt less.mpr nofun)) fun half => nomatch same.mpr half.symm
    refine ⟨?_, ?_, iff_of_false nofun ?_⟩ <;> rw [one, mantissa_ofMantissaAndAccuracy]
    · linarith
    · linarith
    · exact fun half => by linarith

/-- What is left of a division tells the fraction of the quotient. -/
theorem describes_fraction (num : ℕ) {den : ℕ} (positive : 0 < den) :
    Describes (.ofMantissaAndAccuracy (num / den) (accuracyOfFraction (num % den) den)) (num / den) := by
  have denominator : (0 : ℚ) < den := by exact_mod_cast positive
  obtain ⟨rest, left⟩ : ∃ rest, rest = num % den := ⟨_, rfl⟩
  have quotient : (num / den : ℚ) = (num / den : ℕ) + rest / den := by
    have split : (num : ℚ) = den * (num / den : ℕ) + rest := by
      rw [left]
      exact_mod_cast (Nat.div_add_mod num den).symm
    rw [div_eq_iff denominator.ne', add_mul, div_mul_cancel₀ _ denominator.ne', split]
    ring
  rw [quotient, ← left, accuracyOfFraction]
  split
  · rename_i none
    rw [none, Nat.cast_zero, zero_div, add_zero]
    exact describes_exact _
  · rename_i some
    refine describes_inexact _ (div_pos (by exact_mod_cast Nat.pos_of_ne_zero some) denominator) ?_ ?_ ?_
    · rw [div_lt_one denominator]
      exact_mod_cast left ▸ Nat.mod_lt num positive
    · rw [Nat.compare_eq_lt, div_lt_div_iff₀ denominator two_pos, one_mul, mul_comm]
      exact_mod_cast Iff.rfl
    · rw [Nat.compare_eq_eq, div_eq_div_iff denominator.ne' two_ne_zero, one_mul, mul_comm]
      exact_mod_cast Iff.rfl

theorem zero_near : (⟨0, -1074⟩ : Binary).IsCanonical ∧ (⟨0, -1074⟩ : Binary).Near 0 := by
  have near := Binary.near_self ⟨0, -1074⟩
  rw [Nat.cast_zero, zero_mul] at near
  exact ⟨⟨by norm_num, le_rfl, fun above => absurd above (lt_irrefl _)⟩, near⟩

/-- The number that a magnitude is. -/
def Binary.number (b : Binary) : ℚ := b.significand * 2 ^ b.exponent

variable {c : Binary}

theorem mul_unpacked (left : b.IsCanonical) (right : c.IsCanonical) :
    ∃ d : Binary, d.IsCanonical ∧ d.Near (b.number * c.number) ∧
      mul .binary64 (unpacked .positive b) (unpacked .positive c) = unpacked .positive d := by
  by_cases first : b.significand = 0
  · refine ⟨_, zero_near.1, ?_, ?_⟩
    · rw [Binary.number, first, Nat.cast_zero, zero_mul, zero_mul]
      exact zero_near.2
    · rw [unpacked, dif_pos first, unpacked]
      split <;> rfl
  by_cases second : c.significand = 0
  · refine ⟨_, zero_near.1, ?_, ?_⟩
    · rw [Binary.number, Binary.number, second, Nat.cast_zero, zero_mul, mul_zero]
      exact zero_near.2
    · rw [unpacked, dif_neg first, unpacked, dif_pos second]
      rfl
  have fine : b.exponent + c.exponent ≤
      max ((b.significand * c.significand).log2 + (b.exponent + c.exponent) - 52) (-1074) := by
    by_cases wide : 2 ^ 52 ≤ b.significand * c.significand
    · have log : 52 ≤ (b.significand * c.significand).log2 := (Nat.le_log2 (by omega)).mpr wide
      omega
    · have lowest : ¬ -1074 < b.exponent := fun above =>
        wide ((left.normal above).trans (Nat.le_mul_of_pos_right _ (Nat.pos_of_ne_zero second)))
      have lowest' : ¬ -1074 < c.exponent := fun above =>
        wide ((right.normal above).trans (Nat.le_mul_of_pos_left _ (Nat.pos_of_ne_zero first)))
      omega
  obtain ⟨d, canonical, near, rounded⟩ := roundWithAccuracy_near .positive fine (describes_exact _)
  refine ⟨d, canonical, ?_, ?_⟩
  · have product : ((b.significand * c.significand : ℕ) : ℚ) * 2 ^ (b.exponent + c.exponent) = b.number * c.number := by
      rw [Binary.number, Binary.number, zpow_add₀ two_ne_zero]
      push_cast
      ring
    rwa [product] at near
  · rw [unpacked, dif_neg first, unpacked, dif_neg second]
    exact rounded

theorem quotient_bits {a d k n : ℕ} (some : a ≠ 0) (positive : 0 < d) (wide : n + (d.log2 + 1) ≤ a.log2 + k) :
    2 ^ n ≤ a * 2 ^ k / d := by
  rw [Nat.le_div_iff_mul_le positive]
  calc 2 ^ n * d ≤ 2 ^ n * 2 ^ (d.log2 + 1) := Nat.mul_le_mul_left _ Nat.lt_log2_self.le
    _ = 2 ^ (n + (d.log2 + 1)) := (Nat.pow_add ..).symm
    _ ≤ 2 ^ (a.log2 + k) := Nat.pow_le_pow_right Nat.two_pos wide
    _ = 2 ^ a.log2 * 2 ^ k := Nat.pow_add ..
    _ ≤ a * 2 ^ k := Nat.mul_le_mul_right _ (Nat.log2_self_le some)

theorem div_unpacked (b : Binary) (some : c.significand ≠ 0) :
    ∃ d : Binary, d.IsCanonical ∧ d.Near (b.number / c.number) ∧
      div .binary64 (unpacked .positive b) (unpacked .positive c) = unpacked .positive d := by
  by_cases first : b.significand = 0
  · refine ⟨_, zero_near.1, ?_, ?_⟩
    · rw [Binary.number, first, Nat.cast_zero, zero_mul, zero_div]
      exact zero_near.2
    · rw [unpacked, dif_pos first, unpacked, dif_neg some]
      rfl
  obtain ⟨e, target⟩ : ∃ e : ℤ, e = min (b.exponent - c.exponent)
    (max (b.significand.log2 + b.exponent - (c.significand.log2 + c.exponent) - 53) (-1074)) := ⟨_, rfl⟩
  obtain ⟨k, shift⟩ : ∃ k : ℕ, b.exponent - c.exponent - e = k := ⟨(b.exponent - c.exponent - e).toNat, by omega⟩
  have core : divCore .binary64 b.significand b.exponent c.significand c.exponent =
      (b.significand * 2 ^ k / c.significand, e,
        accuracyOfFraction (b.significand * 2 ^ k % c.significand) c.significand) := by
    have width : (Format.binary64.mantissaBits : ℤ) = 53 := rfl
    have least : Format.binary64.minExponent = -1074 := rfl
    have exponent : min (b.exponent - c.exponent) (Format.binary64.targetExponent
        (totalExponent b.significand b.exponent - totalExponent c.significand c.exponent)) = e := by
      rw [Format.targetExponent, totalExponent, totalExponent, width, least]
      omega
    rw [divCore, exponent, shift, Int.toNat_natCast, Nat.shiftLeft_eq]
  have fine : e ≤ max ((b.significand * 2 ^ k / c.significand).log2 + e - 52) (-1074) := by
    by_cases lowest : e ≤ -1074
    · exact le_max_of_le_right lowest
    · have bits : 2 ^ 52 ≤ b.significand * 2 ^ k / c.significand :=
        quotient_bits first (Nat.pos_of_ne_zero some) (by omega)
      have log : 52 ≤ (b.significand * 2 ^ k / c.significand).log2 := (Nat.le_log2 (by omega)).mpr bits
      omega
  obtain ⟨d, canonical, near, rounded⟩ :=
    roundWithAccuracy_near .positive fine (describes_fraction _ (Nat.pos_of_ne_zero some))
  refine ⟨d, canonical, ?_, ?_⟩
  · have divisor : (c.significand : ℚ) ≠ 0 := by exact_mod_cast some
    have exponent : b.exponent = e + k + c.exponent := by omega
    have quotient : ((b.significand * 2 ^ k : ℕ) : ℚ) / c.significand * 2 ^ e = b.number / c.number := by
      rw [Binary.number, Binary.number, exponent, zpow_add₀ two_ne_zero, zpow_add₀ two_ne_zero, zpow_natCast]
      push_cast
      field_simp
    rwa [quotient] at near
  · rw [unpacked, dif_neg first, unpacked, dif_neg some, div, core]
    exact rounded

theorem ofNat_unpacked (n : ℕ) :
    ∃ d : Binary, d.IsCanonical ∧ d.Near n ∧ ofNat .binary64 n = unpacked .positive d := by
  by_cases zero : n = 0
  · rw [zero, Nat.cast_zero]
    exact ⟨_, zero_near.1, zero_near.2, rfl⟩
  obtain ⟨k, shift⟩ : ∃ k : ℕ, k = (0 - max ((n.log2 : ℤ) + 0 - 52) (-1074)).toNat := ⟨_, rfl⟩
  have log : (n * 2 ^ k).log2 = n.log2 + k := by
    rw [Nat.log2_eq_iff (by positivity), Nat.pow_add, Nat.add_right_comm, Nat.pow_add]
    exact ⟨Nat.mul_le_mul_right _ (Nat.log2_self_le zero), Nat.mul_lt_mul_of_pos_right Nat.lt_log2_self (Nat.two_pow_pos k)⟩
  have fine : 0 - (k : ℤ) ≤ max ((n * 2 ^ k).log2 + (0 - (k : ℤ)) - 52) (-1074) := by
    rw [log]
    omega
  obtain ⟨d, canonical, near, rounded⟩ := roundWithAccuracy_near .positive fine (describes_exact _)
  refine ⟨d, canonical, ?_, ?_⟩
  · have whole : ((n * 2 ^ k : ℕ) : ℚ) * 2 ^ (0 - (k : ℤ)) = n := by
      rw [zero_sub, zpow_neg, zpow_natCast]
      push_cast
      field_simp
    rwa [whole] at near
  · have positive : compare (n : ℤ) 0 = .gt := Int.compare_eq_gt.mpr (by omega)
    rw [ofNat, UnpackedFloat.ofInt, UnpackedFloat.normalize, positive]
    dsimp only
    rw [Int.toNat_natCast, UnpackedFloat.round]
    simp only [targetExponent_eq, decreaseExponent, ← shift, Nat.shiftLeft_eq]
    exact rounded

theorem value_of_positive (positive : isNegative x = false) : value x = (Binary.ofFloat x).number := by
  have power := zpow_eq_div 2 (Binary.ofFloat x).exponent
  rw [value, positive, Binary.number, Binary.num, Binary.den]
  push_cast [Nat.pow_eq] at power ⊢
  rw [power]
  ring

/-- The double of an integer of 64 bits is the nearest one. -/
theorem toFloat_near (n : UInt64) : IsNearest n.toFloat n.toNat := by
  obtain ⟨d, canonical, near, float⟩ := ofNat_unpacked n.toNat
  have bits : n.toFloat.toBits.toBitVec = pack .binary64 (unpacked .positive d) := by
    rw [← float]
    rfl
  refine (isNearest_of_pack canonical near bits).resolve_right ?_
  rintro ⟨_, large⟩
  have power : (2 : ℚ) ^ 64 ≤ 2 ^ 1023 := pow_le_pow_right₀ one_le_two (by decide)
  have small : (n.toNat : ℚ) < 2 ^ 64 := by exact_mod_cast n.toNat_lt
  exact absurd (power.trans large) (not_le.mpr small)

theorem mul_near (finite : x.isFinite = true) (positive : isNegative x = false) (finite' : y.isFinite = true)
    (positive' : isNegative y = false) :
    IsNearest (x * y) (value x * value y) ∨ x * y = infinity ∧ 2 ^ 1023 ≤ value x * value y := by
  obtain ⟨d, canonical, near, float⟩ :=
    mul_unpacked (Binary.isCanonical_ofBits x.toBits) (Binary.isCanonical_ofBits y.toBits)
  rw [value_of_positive positive, value_of_positive positive']
  refine isNearest_of_pack canonical near ?_
  rw [← float]
  change pack .binary64 (mul .binary64 (unpack .binary64 x.toBits.toBitVec) (unpack .binary64 y.toBits.toBitVec)) = _
  rw [unpack_eq finite positive, unpack_eq finite' positive']
  rfl

theorem div_near (finite : x.isFinite = true) (positive : isNegative x = false) (finite' : y.isFinite = true)
    (positive' : isNegative y = false) (some : value y ≠ 0) :
    IsNearest (x / y) (value x / value y) ∨ x / y = infinity ∧ 2 ^ 1023 ≤ value x / value y := by
  have divisor : (Binary.ofFloat y).significand ≠ 0 := by
    intro zero
    rw [value_of_positive positive', Binary.number, zero, Nat.cast_zero, zero_mul] at some
    exact some rfl
  obtain ⟨d, canonical, near, float⟩ := div_unpacked (Binary.ofFloat x) divisor
  rw [value_of_positive positive, value_of_positive positive']
  refine isNearest_of_pack canonical near ?_
  rw [← float]
  change pack .binary64 (div .binary64 (unpack .binary64 x.toBits.toBitVec) (unpack .binary64 y.toBits.toBitVec)) = _
  rw [unpack_eq finite positive, unpack_eq finite' positive']

end ScriptTools.Decimal
