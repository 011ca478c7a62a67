import ScriptTools.Proofs.Decimal.Rounded

/-!
Integers scaled by powers of ten. Doubles hold the first powers of ten, so a small integer times or over one of them is
rounded once, and what is rounded to an integer is that integer.
-/

namespace ScriptTools.Decimal

variable {x y : Float} {q : ℚ}

theorem value_neg (finite : x.isFinite = true) : value (-x) = -value x := by
  rw [value, value, ofFloat_neg finite, isNegative_neg finite]
  cases isNegative x <;> simp

/-- The double nearest to an integer that doubles hold is that integer. -/
theorem IsNearest.value_nat {n : ℕ} (near : IsNearest x n) (exact : n ≤ 2 ^ 53) : value x = n := by
  have canonical : (Binary.ofFloat x).IsCanonical := Binary.isCanonical_ofBits x.toBits
  by_cases zero : (Binary.ofFloat x).significand = 0
  · have lowest : (Binary.ofFloat x).exponent ≤ 0 := by
      by_contra above
      have full := canonical.normal (by omega)
      omega
    have high := near.near.high
    have power : (2 : ℚ) ^ (Binary.ofFloat x).exponent ≤ 1 := zpow_le_one_of_nonpos₀ one_le_two lowest
    rw [zero, Nat.cast_zero, zero_add, div_le_iff₀ (by positivity)] at high
    have none : n = 0 := by
      have less : (n : ℚ) < (1 : ℕ) := by
        push_cast
        linarith
      exact Nat.lt_one_iff.mp (by exact_mod_cast less)
    rw [value_of_positive near.positive, Binary.number, zero, none, Nat.cast_zero, zero_mul]
  · have divided : (n : ℚ) = n / (1 : ℕ) := by simp
    have integer : ofInt n = x := nearest_eq_of_near near.finite near.positive zero Nat.one_pos (divided ▸ near.near)
    have whole := whole?_ofInt (i := n) exact
    rw [integer, whole?_eq_some_iff, Int64.toInt_ofInt_of_le (by omega) (by omega)] at whole
    exact whole.2

/-- The double nearest to a normal number has 53 bits. -/
theorem IsNearest.exponent_of_normal (near : IsNearest x q) (normal : 1 / 2 ^ 1021 ≤ q) :
    -1074 < (Binary.ofFloat x).exponent := by
  have canonical : (Binary.ofFloat x).IsCanonical := Binary.isCanonical_ofBits x.toBits
  refine lt_of_le_of_ne canonical.least fun lowest => ?_
  have high := near.near.high
  have below : ((Binary.ofFloat x).significand + 1 : ℚ) ≤ 2 ^ 53 := by exact_mod_cast canonical.below
  have unit : (2 : ℚ) ^ (-1074 : ℤ) = (2 ^ 53)⁻¹ * (1 / 2 ^ 1021) := by
    rw [zpow_neg, zpow_ofNat, one_div, ← mul_inv, ← pow_add]
  have most : (2 : ℚ) ^ 53 ≤ q / 2 ^ (-1074 : ℤ) := by
    rw [le_div_iff₀ (by positivity), unit, mul_inv_cancel_left₀ (by positivity)]
    exact normal
  rw [← lowest] at high
  linarith

/-- A double differs from the number that it is the nearest one to by at most a part in `2 ^ 53`. -/
theorem IsNearest.close (near : IsNearest x q) (normal : 1 / 2 ^ 1021 ≤ q) : |value x - q| ≤ q / 2 ^ 53 := by
  have canonical : (Binary.ofFloat x).IsCanonical := Binary.isCanonical_ofBits x.toBits
  have above := near.exponent_of_normal normal
  have scale : (0 : ℚ) < 2 ^ (Binary.ofFloat x).exponent := by positivity
  obtain ⟨r, ratio⟩ : ∃ r, r = q / 2 ^ (Binary.ofFloat x).exponent := ⟨_, rfl⟩
  obtain rfl : q = r * 2 ^ (Binary.ofFloat x).exponent := by rw [ratio, div_mul_cancel₀ _ scale.ne']
  have low := near.near.low
  obtain ⟨least, most⟩ := abs_le.mp near.near.close
  rw [← ratio] at low least most
  have apart : |(Binary.ofFloat x).significand - r| ≤ r / 2 ^ 53 := by
    rw [abs_le]
    by_cases first : (Binary.ofFloat x).significand = 2 ^ 52
    · have gap : (Binary.ofFloat x).gap = 1 / 4 := if_pos ⟨first, above.ne'⟩
      have power : ((Binary.ofFloat x).significand : ℚ) = 2 ^ 52 := by exact_mod_cast first
      rw [gap] at low
      rw [power] at low least most ⊢
      constructor <;> linarith
    · have more : (2 ^ 52 + 1 : ℚ) ≤ (Binary.ofFloat x).significand := by
        exact_mod_cast Nat.lt_of_le_of_ne (canonical.normal above) (Ne.symm first)
      constructor <;> linarith
  calc |value x - r * 2 ^ (Binary.ofFloat x).exponent|
      = |(Binary.ofFloat x).significand - r| * 2 ^ (Binary.ofFloat x).exponent := by
        rw [value_of_positive near.positive, Binary.number, ← sub_mul, abs_mul, abs_of_pos scale]
    _ ≤ r / 2 ^ 53 * 2 ^ (Binary.ofFloat x).exponent := mul_le_mul_of_nonneg_right apart scale.le
    _ = r * 2 ^ (Binary.ofFloat x).exponent / 2 ^ 53 := by ring

theorem normal_of_one_le (one : 1 ≤ q) : 1 / 2 ^ 1021 ≤ q := by
  refine le_trans ?_ one
  rw [div_le_one (by positivity)]
  exact one_le_pow₀ one_le_two

theorem IsNearest.value_pos (near : IsNearest x q) (one : 1 ≤ q) : 0 < value x := by
  have low := (abs_le.mp (near.close (normal_of_one_le one))).1
  linarith

/-- Doubles hold the powers of ten up to the twenty-second. -/
theorem value_power_ten {k : ℕ} (small : k ≤ 22) :
    (ofScientific false 1 k).isFinite = true ∧ isNegative (ofScientific false 1 k) = false ∧
      value (ofScientific false 1 k) = 10 ^ k := by
  have all : ∀ k : ℕ, k < 23 →
      (ofScientific false 1 k).isFinite = true ∧ isNegative (ofScientific false 1 k) = false ∧
      (Binary.ofFloat (ofScientific false 1 k)).num = 10 ^ k * (Binary.ofFloat (ofScientific false 1 k)).den := by
    decide +kernel
  obtain ⟨finite, positive, power⟩ := all k (by omega)
  refine ⟨finite, positive, ?_⟩
  have den : ((Binary.ofFloat (ofScientific false 1 k)).den : ℚ) ≠ 0 := by exact_mod_cast (Binary.den_pos _).ne'
  rw [value, positive, if_neg Bool.false_ne_true, one_mul, power]
  push_cast
  exact mul_div_cancel_right₀ _ den

theorem isInf_of_isFinite (finite : x.isFinite = true) : x.isInf = false := by
  change (Float.Model.UnpackedFloat.unpack .binary64 x.toModel.toBits.toBitVec).isFinite = true at finite
  change (Float.Model.UnpackedFloat.unpack .binary64 x.toModel.toBits.toBitVec).isInf = false
  cases unpacked : Float.Model.UnpackedFloat.unpack .binary64 x.toModel.toBits.toBitVec with
  | infinity s => simp [unpacked, Float.Model.UnpackedFloat.isFinite] at finite
  | _ => rfl

/-! Integers and powers of ten -/

variable {s k : ℕ}

theorem ofNat_near (small : s < 2 ^ 64) : IsNearest (UInt64.ofNat s).toFloat s := by
  have near := toFloat_near (UInt64.ofNat s)
  rwa [UInt64.toNat_ofNat', Nat.mod_eq_of_lt small] at near

theorem value_ofNat (small : s ≤ 2 ^ 53) : value (UInt64.ofNat s).toFloat = s :=
  (ofNat_near (by omega)).value_nat small

/-- An integer times a power of ten is not rounded where doubles hold the product. -/
theorem value_mul_power (size : s * 10 ^ k ≤ 2 ^ 53) (power : k ≤ 22) :
    ((UInt64.ofNat s).toFloat * ofScientific false 1 k).isFinite = true ∧
      value ((UInt64.ofNat s).toFloat * ofScientific false 1 k) = (s * 10 ^ k : ℕ) := by
  have small : s ≤ 2 ^ 53 := (Nat.le_mul_of_pos_right s (by positivity)).trans size
  have start := ofNat_near (s := s) (by omega)
  obtain ⟨finite, positive, ten⟩ := value_power_ten power
  have product : value (UInt64.ofNat s).toFloat * value (ofScientific false 1 k) = (s * 10 ^ k : ℕ) := by
    rw [value_ofNat small, ten]
    push_cast
    rfl
  have near := mul_near start.finite start.positive finite positive
  rw [product] at near
  rcases near with near | ⟨_, large⟩
  · exact ⟨near.finite, near.value_nat size⟩
  · have limit : (2 : ℚ) ^ 53 < 2 ^ 1023 := pow_lt_pow_right₀ one_lt_two (by decide)
    have cast : ((s * 10 ^ k : ℕ) : ℚ) ≤ 2 ^ 53 := by exact_mod_cast size
    exact absurd (large.trans cast) (not_le.mpr limit)

/-- A quotient that is no integer is farther from all of them than it is rounded. -/
theorem IsNearest.eq_of_value {d : ℕ} {i : ℤ} (near : IsNearest x (s / d)) (normal : 1 / 2 ^ 1021 ≤ (s / d : ℚ))
    (positive : 0 < d) (small : s < 2 ^ 53) (integer : value x = i) : (s / d : ℚ) = i := by
  have unit : (0 : ℚ) < d := by exact_mod_cast positive
  have close := near.close normal
  have apart : |(i * d - s : ℚ)| < 1 := by
    have cast : (s : ℚ) < 2 ^ 53 := by exact_mod_cast small
    calc |(i * d - s : ℚ)| = |(i - s / d : ℚ)| * d := by
          rw [← abs_of_pos unit, ← abs_mul, abs_of_pos unit, sub_mul, div_mul_cancel₀ _ unit.ne']
      _ ≤ s / d / 2 ^ 53 * d := mul_le_mul_of_nonneg_right (integer ▸ close) unit.le
      _ = s / 2 ^ 53 := by field_simp
      _ < 1 := by rwa [div_lt_one (by positivity)]
  have whole : i * d - s = 0 := by
    rw [← Int.abs_lt_one_iff]
    exact_mod_cast apart
  rw [div_eq_iff unit.ne']
  have cast : ((i * d : ℤ) : ℚ) = (s : ℤ) := congrArg Int.cast (sub_eq_zero.mp whole)
  push_cast at cast
  exact cast.symm

theorem normal_of_power (some : s ≠ 0) (power : k ≤ 22) : 1 / 2 ^ 1021 ≤ (s / 10 ^ k : ℚ) := by
  have one : (1 : ℚ) ≤ s := by exact_mod_cast Nat.one_le_iff_ne_zero.mpr some
  have most : (10 : ℚ) ^ k ≤ 2 ^ 1021 := by
    calc (10 : ℚ) ^ k ≤ 10 ^ 22 := pow_le_pow_right₀ (by norm_num) power
      _ ≤ 2 ^ 74 := by norm_num
      _ ≤ 2 ^ 1021 := pow_le_pow_right₀ one_le_two (by decide)
  exact div_le_div₀ (by linarith) one (by positivity) most

/-- An integer over a power of ten is rounded to an integer just when it is one. -/
theorem value_div_power_iff (small : s < 2 ^ 53) (power : k ≤ 22) :
    ((UInt64.ofNat s).toFloat / ofScientific false 1 k).isFinite = true ∧
      ∀ i : ℤ, value ((UInt64.ofNat s).toFloat / ofScientific false 1 k) = i ↔ (s / 10 ^ k : ℚ) = i := by
  have start := ofNat_near (s := s) (by omega)
  obtain ⟨finite, positive, ten⟩ := value_power_ten power
  have unit : (0 : ℚ) < 10 ^ k := by positivity
  have near := div_near start.finite start.positive finite positive (by rw [ten]; exact unit.ne')
  rw [ten, value_ofNat small.le] at near
  have below : (s / 10 ^ k : ℚ) < 2 ^ 53 := by
    have cast : (s : ℚ) < 2 ^ 53 := by exact_mod_cast small
    exact (div_le_self (Nat.cast_nonneg s) (one_le_pow₀ (by norm_num))).trans_lt cast
  replace near := near.resolve_right fun large =>
    absurd (large.2.trans below.le) (not_le.mpr (pow_lt_pow_right₀ one_lt_two (by decide)))
  refine ⟨near.finite, fun i => ?_⟩
  have exact (i : ℤ) (integer : (s / 10 ^ k : ℚ) = i) : value ((UInt64.ofNat s).toFloat / ofScientific false 1 k) = i := by
    have nonneg : 0 ≤ i := by
      have cast : (0 : ℚ) ≤ i := integer ▸ by positivity
      exact_mod_cast cast
    obtain ⟨n, rfl⟩ := Int.eq_ofNat_of_zero_le nonneg
    rw [integer, Int.cast_natCast] at near below
    exact near.value_nat (Nat.le_of_lt (by exact_mod_cast below))
  refine ⟨fun integer => ?_, exact i⟩
  by_cases zero : s = 0
  · have none : (s / 10 ^ k : ℚ) = (0 : ℤ) := by simp [zero]
    rw [none, ← integer, exact 0 none]
  · have cast : ((10 ^ k : ℕ) : ℚ) = 10 ^ k := Nat.cast_pow 10 k
    have normal := normal_of_power zero power
    rw [← cast] at near normal ⊢
    exact near.eq_of_value normal (by positivity) small integer

/-! Large integers -/

theorem beq_zero (near : IsNearest x q) (one : 1 ≤ q) : (x == 0) = false := by
  have significand : (Binary.ofFloat x).significand ≠ 0 := by
    intro zero
    have positive := near.value_pos one
    rw [value_of_positive near.positive, Binary.number, zero, Nat.cast_zero, zero_mul] at positive
    exact lt_irrefl _ positive
  have zero : Binary.ofFloat 0 = ⟨0, -1074⟩ := rfl
  change (Float.Model.UnpackedFloat.compare (Float.Model.UnpackedFloat.unpack .binary64 x.toBits.toBitVec)
    (Float.Model.UnpackedFloat.unpack .binary64 (0 : Float).toBits.toBitVec) == .some .eq) = false
  rw [unpack_eq near.finite near.positive, unpack_eq (x := 0) rfl rfl, zero, unpacked,
    dif_neg significand]
  rfl

theorem number_le {b : Binary} (canonical : b.IsCanonical) {n : ℕ} (small : b.exponent + 53 ≤ n) :
    (b.significand + 1) * 2 ^ b.exponent ≤ (2 ^ n : ℚ) := by
  have below : (b.significand + 1 : ℚ) ≤ 2 ^ 53 := by exact_mod_cast canonical.below
  calc (b.significand + 1) * (2 : ℚ) ^ b.exponent ≤ 2 ^ 53 * 2 ^ b.exponent :=
        mul_le_mul_of_nonneg_right below (by positivity)
    _ = 2 ^ (53 + b.exponent) := by rw [zpow_add₀ two_ne_zero, zpow_ofNat]
    _ ≤ 2 ^ n := zpow_le_zpow_right₀ (n := n) one_le_two (by omega)

theorem le_number {b : Binary} (canonical : b.IsCanonical) (above : -1074 < b.exponent) {n : ℕ}
    (large : n ≤ b.exponent + 52) : (2 ^ n : ℚ) ≤ b.significand * 2 ^ b.exponent := by
  have full : (2 ^ 52 : ℚ) ≤ b.significand := by exact_mod_cast canonical.normal above
  calc (2 ^ n : ℚ) ≤ 2 ^ (52 + b.exponent) := zpow_le_zpow_right₀ (m := n) one_le_two (by omega)
    _ = 2 ^ 52 * 2 ^ b.exponent := by rw [zpow_add₀ two_ne_zero, zpow_ofNat]
    _ ≤ b.significand * 2 ^ b.exponent := mul_le_mul_of_nonneg_right full (by positivity)

/-- The midpoint between the first integer out of range and the next double is rounded down to it. -/
theorem IsNearest.value_le_iff (near : IsNearest x s) : value x ≤ 2 ^ 63 ↔ s ≤ 2 ^ 63 + 1024 := by
  have canonical : (Binary.ofFloat x).IsCanonical := Binary.isCanonical_ofBits x.toBits
  obtain ⟨low, high, odd⟩ := near.near
  rw [value_of_positive near.positive, Binary.number]
  have gap := (Binary.ofFloat x).gap_le
  have scale : (0 : ℚ) < 2 ^ (Binary.ofFloat x).exponent := by positivity
  rw [le_div_iff₀ scale, sub_mul] at low
  rw [div_le_iff₀ scale, add_mul] at high
  rcases lt_trichotomy (Binary.ofFloat x).exponent 11 with small | middle | big
  · have below := number_le canonical (n := 63) (by omega)
    rw [add_one_mul] at below
    refine iff_of_true (by linarith) ?_
    have cast : (s : ℚ) ≤ (2 ^ 63 + 1024 : ℕ) := by
      push_cast
      linarith
    exact_mod_cast cast
  · rw [middle, show (2 : ℚ) ^ (11 : ℤ) = 2048 by norm_num] at low high odd ⊢
    constructor
    · intro bounded
      have cast : (s : ℚ) ≤ (2 ^ 63 + 1024 : ℕ) := by
        push_cast
        linarith
      exact_mod_cast cast
    · -- The next double is odd, so the midpoint below it does not round up.
      intro bounded
      have cast : (s : ℚ) ≤ 2 ^ 63 + 1024 := by exact_mod_cast bounded
      by_contra more
      have next : 2 ^ 52 + 1 ≤ (Binary.ofFloat x).significand := by
        have cast : ((2 ^ 52 : ℕ) : ℚ) < (Binary.ofFloat x).significand := by
          push_cast
          linarith
        exact_mod_cast cast
      have wide : (Binary.ofFloat x).gap = 1 / 2 := if_neg (by omega)
      rw [wide] at low odd
      have first : (Binary.ofFloat x).significand = 2 ^ 52 + 1 := by
        refine Nat.le_antisymm ?_ next
        have cast : ((Binary.ofFloat x).significand : ℚ) ≤ (2 ^ 52 + 1 : ℕ) := by
          push_cast
          linarith
        exact_mod_cast cast
      obtain ⟨strict, _⟩ := odd (by omega)
      rw [first, lt_div_iff₀ (by norm_num)] at strict
      push_cast at strict
      linarith
  · have above := le_number canonical (by omega) (n := 64) (by omega)
    refine iff_of_false (by linarith) fun bounded => ?_
    have cast : (s : ℚ) ≤ 2 ^ 63 + 1024 := by exact_mod_cast bounded
    have full : (2 ^ 52 : ℚ) ≤ (Binary.ofFloat x).significand := by exact_mod_cast canonical.normal (by omega)
    nlinarith

theorem IsNearest.le_value (near : IsNearest x s) (large : 2 ^ 63 ≤ s) : 2 ^ 63 ≤ value x := by
  have canonical : (Binary.ofFloat x).IsCanonical := Binary.isCanonical_ofBits x.toBits
  have scale : (0 : ℚ) < 2 ^ (Binary.ofFloat x).exponent := by positivity
  have cast : (2 ^ 63 : ℚ) ≤ s := by exact_mod_cast large
  have high := near.near.high
  rw [div_le_iff₀ scale, add_mul] at high
  rw [value_of_positive near.positive, Binary.number]
  rcases lt_or_ge (Binary.ofFloat x).exponent 11 with small | big
  · have below := number_le canonical (n := 63) (by omega)
    rw [add_one_mul] at below
    linarith
  · exact le_number canonical (by omega) (by omega)

theorem large_power (some : k ≠ 0) (small : k ≤ 308) :
    (ofScientific false 1 k).isFinite = true ∧ isNegative (ofScientific false 1 k) = false ∧
      10 ≤ value (ofScientific false 1 k) := by
  have all : ∀ k : ℕ, k < 309 → k ≠ 0 →
      (ofScientific false 1 k).isFinite = true ∧ isNegative (ofScientific false 1 k) = false ∧
      10 * (Binary.ofFloat (ofScientific false 1 k)).den ≤ (Binary.ofFloat (ofScientific false 1 k)).num := by
    decide +kernel
  obtain ⟨finite, positive, power⟩ := all k (by omega) some
  refine ⟨finite, positive, ?_⟩
  have den : (0 : ℚ) < (Binary.ofFloat (ofScientific false 1 k)).den := by exact_mod_cast Binary.den_pos _
  rw [value, positive, if_neg Bool.false_ne_true, one_mul, le_div_iff₀ den]
  exact_mod_cast power

/-- What is rounded of an integer with a digit more than 64 bits have stays out of range. -/
theorem lt_value_mul_power (fits : s < 2 ^ 64) (large : 2 ^ 64 ≤ s * 10 + 9) (some : k ≠ 0) (small : k ≤ 308) :
    (UInt64.ofNat s).toFloat * ofScientific false 1 k = infinity ∨
      ((UInt64.ofNat s).toFloat * ofScientific false 1 k).isFinite = true ∧
        2 ^ 63 < value ((UInt64.ofNat s).toFloat * ofScientific false 1 k) := by
  have start := ofNat_near fits
  obtain ⟨finite, positive, ten⟩ := large_power some small
  have size : (2 ^ 64 : ℚ) ≤ s * 10 + 9 := by exact_mod_cast large
  have first := (abs_le.mp (start.close (normal_of_one_le (by linarith)))).1
  have product : (2 ^ 64 - 9) * (1 - 1 / 2 ^ 53) ≤ value (UInt64.ofNat s).toFloat * value (ofScientific false 1 k) := by
    have least : ((2 ^ 64 - 9) * (1 - 1 / 2 ^ 53) / 10 : ℚ) ≤ value (UInt64.ofNat s).toFloat := by linarith
    calc ((2 ^ 64 - 9) * (1 - 1 / 2 ^ 53) : ℚ) = (2 ^ 64 - 9) * (1 - 1 / 2 ^ 53) / 10 * 10 := by ring
      _ ≤ value (UInt64.ofNat s).toFloat * value (ofScientific false 1 k) :=
        mul_le_mul least ten (by norm_num) (le_trans (by norm_num) least)
  rcases mul_near start.finite start.positive finite positive with near | ⟨infinite, _⟩
  · have second := (abs_le.mp (near.close (normal_of_one_le (by linarith)))).1
    exact .inr ⟨near.finite, by linarith⟩
  · exact .inl infinite

end ScriptTools.Decimal
