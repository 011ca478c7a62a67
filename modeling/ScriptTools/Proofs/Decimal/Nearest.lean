import ScriptTools.Decimal.Shortest
import ScriptTools.Proofs.Decimal.Sign

/-!
The double nearest to a number. Between the midpoints to the neighbours of a double it is that double, and on a
midpoint where its significand is even.
-/

namespace ScriptTools.Decimal

/-- A power with an exponent of either sign as a quotient of powers. -/
theorem zpow_eq_div (b : ℕ) (k : ℤ) : (b : ℚ) ^ k = (b ^ k.toNat : ℕ) / (b ^ (-k).toNat : ℕ) := by
  obtain ⟨n, rfl | rfl⟩ := k.eq_nat_or_neg
  · simp
  · simp

/-- What is half a unit from a whole number is rounded to it if that is even, and what is closer in any case. -/
theorem roundHalfEven_eq {num den n : ℕ} (positive : 0 < den) (close : |(num / den : ℚ) - n| ≤ 1 / 2)
    (odd : n % 2 = 1 → |(num / den : ℚ) - n| < 1 / 2) : roundHalfEven num den = n := by
  have denominator : (0 : ℚ) < den := by exact_mod_cast positive
  have product : (num / den : ℚ) * den = num := div_mul_cancel₀ _ denominator.ne'
  generalize (num / den : ℚ) = q at close odd product
  obtain ⟨low, high⟩ := abs_le.mp close
  have lower : 2 * n * den ≤ 2 * num + den := by
    have scaled : (2 * n * den : ℚ) ≤ 2 * num + den := by nlinarith
    exact_mod_cast scaled
  have upper : 2 * num ≤ 2 * n * den + den := by
    have scaled : (2 * num : ℚ) ≤ 2 * n * den + den := by nlinarith
    exact_mod_cast scaled
  have strict : n % 2 = 1 → 2 * n * den < 2 * num + den ∧ 2 * num < 2 * n * den + den := by
    intro parity
    obtain ⟨low, high⟩ := abs_lt.mp (odd parity)
    constructor
    · have scaled : (2 * n * den : ℚ) < 2 * num + den := by nlinarith
      exact_mod_cast scaled
    · have scaled : (2 * num : ℚ) < 2 * n * den + den := by nlinarith
      exact_mod_cast scaled
  have parts := Nat.div_add_mod num den
  have rest := Nat.mod_lt num positive
  rw [roundHalfEven]
  generalize num / den = d at parts ⊢
  generalize num % den = r at parts rest ⊢
  subst parts
  have sides : n = d ∨ n = d + 1 := by
    have least : d < n + 1 := by
      by_contra other
      have := Nat.mul_le_mul_right den (Nat.not_lt.mp other)
      nlinarith
    have most : n < d + 2 := by
      by_contra other
      have := Nat.mul_le_mul_right den (Nat.not_lt.mp other)
      nlinarith
    omega
  rcases sides with rfl | rfl
  · have small : 2 * r ≤ den := by nlinarith
    have half : n % 2 = 1 → 2 * r < den := fun parity => by nlinarith [(strict parity).2]
    split
    · rfl
    · rw [if_neg (by omega), if_pos (by omega)]
  · have large : den ≤ 2 * r := by nlinarith
    have half : (d + 1) % 2 = 1 → den < 2 * r := fun parity => by nlinarith [(strict parity).1]
    rw [if_neg (by omega)]
    split
    · rfl
    · rw [if_neg (by omega)]

/-! The numbers around a double -/

namespace Binary

/-- How far down the midpoint to the double below is, in units of the last place. Below a power of two the doubles are
twice as dense. -/
def gap (b : Binary) : ℚ := if b.significand = 2 ^ 52 ∧ b.exponent ≠ -1074 then 1 / 4 else 1 / 2

/-- The numbers that a magnitude is the nearest double of. -/
structure Near (b : Binary) (q : ℚ) : Prop where
  low : b.significand - b.gap ≤ q / 2 ^ b.exponent
  high : q / 2 ^ b.exponent ≤ b.significand + 1 / 2
  odd : b.significand % 2 = 1 → b.significand - b.gap < q / 2 ^ b.exponent ∧ q / 2 ^ b.exponent < b.significand + 1 / 2

/-- The bits of a magnitude in canonical form. -/
def bits (b : Binary) : ℕ := (b.exponent + 1074).toNat * 2 ^ 52 + b.significand

variable {b : Binary} {q : ℚ}

theorem gap_le (b : Binary) : b.gap ≤ 1 / 2 := by
  rw [gap]
  split <;> norm_num

theorem bits_ofBits (bits : UInt64) : (ofBits bits).bits = bits.toNat % 2 ^ 63 := by
  have split : bits.toNat % 2 ^ 63 = biased bits * 2 ^ 52 + bits.toNat % 2 ^ 52 := by
    rw [biased]
    omega
  rw [split, Binary.bits, ofBits]
  simp only [biased_ofBits, Nat.pow_eq]
  split_ifs <;> dsimp only <;> omega

theorem Near.close (near : b.Near q) : |q / 2 ^ b.exponent - b.significand| ≤ 1 / 2 := by
  have low := near.low
  have high := near.high
  have gap := b.gap_le
  rw [abs_le]
  constructor <;> linarith

theorem Near.closer (near : b.Near q) (odd : b.significand % 2 = 1) : |q / 2 ^ b.exponent - b.significand| < 1 / 2 := by
  obtain ⟨low, high⟩ := near.odd odd
  have gap := b.gap_le
  rw [abs_lt]
  constructor <;> linarith

end Binary

/-! Rounding -/

/-- A quotient divided by a power, in naturals. -/
theorem scaled_div {b : ℕ} (base : 0 < b) (num den : ℕ) (e : ℤ) :
    ((num * b ^ (-e).toNat : ℕ) : ℚ) / (den * b ^ e.toNat : ℕ) = num / den / b ^ e := by
  rw [zpow_eq_div b e]
  push_cast
  field_simp

/-- The logarithm of a quotient lies at the difference of the lengths or just below. -/
theorem log_bounds {num den : ℕ} (some : num ≠ 0) (positive : 0 < den) :
    (num.log2 : ℤ) - den.log2 - 1 ≤ Int.log 2 (num / den : ℚ) ∧ Int.log 2 (num / den : ℚ) ≤ (num.log2 : ℤ) - den.log2 := by
  have nonzero : (2 : ℚ) ≠ 0 := two_ne_zero
  have quotient : (0 : ℚ) < num / den := by positivity
  constructor
  · have low : ((2 ^ num.log2 : ℕ) : ℚ) ≤ num := by exact_mod_cast Nat.log2_self_le some
    have high : (den : ℚ) ≤ (2 ^ (den.log2 + 1) : ℕ) := by exact_mod_cast Nat.lt_log2_self.le
    rw [← Int.zpow_le_iff_le_log Nat.one_lt_two quotient, Int.sub_sub, Nat.cast_ofNat, zpow_sub₀ nonzero]
    refine div_le_div₀ (by positivity) ?_ (by positivity) ?_
    · exact_mod_cast low
    · exact_mod_cast high
  · have low : ((2 ^ den.log2 : ℕ) : ℚ) ≤ den := by exact_mod_cast Nat.log2_self_le positive.ne'
    have high : (num : ℚ) < (2 ^ (num.log2 + 1) : ℕ) := by exact_mod_cast Nat.lt_log2_self
    rw [← Int.lt_add_one_iff, ← Int.lt_zpow_iff_log_lt Nat.one_lt_two quotient, sub_add_eq_add_sub, Nat.cast_ofNat, zpow_sub₀ nonzero]
    refine div_lt_div₀ ?_ ?_ (by positivity) (by positivity)
    · exact_mod_cast high
    · exact_mod_cast low

/-- The nearest double with its exponent as a logarithm. -/
theorem nearestBits_eq_log {num den : ℕ} (some : num ≠ 0) (positive : 0 < den) {e : ℤ}
    (exponent : e = max (Int.log 2 (num / den : ℚ) - 52) (-1074)) {bits : ℕ}
    (value : bits = (e + 1074).toNat * 2 ^ 52 + roundHalfEven (num * 2 ^ (-e).toNat) (den * 2 ^ e.toNat)) :
    nearestBits num den = if bits < 0x7FF0000000000000 then UInt64.ofNat bits else 0x7FF0000000000000 := by
  have quotient : (0 : ℚ) < num / den := by positivity
  obtain ⟨low, high⟩ := log_bounds some positive
  let guess : ℤ := (num.log2 : ℤ) - den.log2 - 53
  have fits : num * 2 ^ (-guess).toNat / (den * 2 ^ guess.toNat) < 2 ^ 53 ↔ Int.log 2 (num / den : ℚ) - 52 ≤ guess := by
    have divisor : 0 < den * 2 ^ guess.toNat := by positivity
    have scale : (0 : ℚ) < 2 ^ guess := by positivity
    have power : (2 : ℚ) ^ (53 + guess) = 2 ^ 53 * 2 ^ guess := by
      rw [zpow_add₀ two_ne_zero]
      rfl
    have cast : num * 2 ^ (-guess).toNat < 2 ^ 53 * (den * 2 ^ guess.toNat) ↔ (num / den : ℚ) / 2 ^ guess < 2 ^ 53 := by
      have ratio := scaled_div Nat.two_pos num den guess
      rw [Nat.cast_ofNat] at ratio
      rw [← ratio, div_lt_iff₀ (by exact_mod_cast divisor)]
      exact_mod_cast Iff.rfl
    rw [Nat.div_lt_iff_lt_mul divisor, cast, div_lt_iff₀ scale, ← power, ← Nat.cast_ofNat (R := ℚ),
      Int.lt_zpow_iff_log_lt Nat.one_lt_two quotient]
    omega
  have fitted : (if num * 2 ^ (-guess).toNat / (den * 2 ^ guess.toNat) < 2 ^ 53 then guess else guess + 1) =
      Int.log 2 (num / den : ℚ) - 52 := by
    split
    · rename_i small
      have := fits.mp small
      omega
    · rename_i large
      have := mt fits.mpr large
      omega
  rw [nearestBits, if_neg some]
  simp only [Nat.pow_eq]
  rw [fitted, ← exponent, ← value]

namespace Binary

variable {b : Binary} {q : ℚ}

theorem Near.half_le (near : b.Near q) (some : b.significand ≠ 0) : 1 / 2 ≤ q / 2 ^ b.exponent := by
  have low := near.low
  have gap := b.gap_le
  have least : (1 : ℚ) ≤ b.significand := by exact_mod_cast Nat.one_le_iff_ne_zero.mpr some
  linarith

theorem Near.lt_two_pow (near : b.Near q) (canonical : b.IsCanonical) : q / 2 ^ b.exponent < 2 ^ 53 := by
  have high := near.high
  have below : ((b.significand + 1 : ℕ) : ℚ) ≤ (2 ^ 53 : ℕ) := by exact_mod_cast canonical.below
  push_cast at below
  linarith

theorem Near.num_ne_zero {num den : ℕ} (near : b.Near (num / den)) (some : b.significand ≠ 0) : num ≠ 0 := by
  rintro rfl
  have half := near.half_le some
  rw [Nat.cast_zero, zero_div, zero_div] at half
  norm_num at half

/-- Around a magnitude the doubles have its exponent, except right below a power of two. -/
theorem Near.exponent_cases {num den : ℕ} (near : b.Near (num / den)) (canonical : b.IsCanonical) (some : b.significand ≠ 0)
    (positive : 0 < den) {e : ℤ} (exponent : e = max (Int.log 2 (num / den : ℚ) - 52) (-1074)) :
    e = b.exponent ∨ e = b.exponent - 1 ∧ b.significand = 2 ^ 52 ∧ b.exponent ≠ -1074 ∧
      (num / den : ℚ) / 2 ^ b.exponent < 2 ^ 52 := by
  have numerator := near.num_ne_zero some
  have quotient : (0 : ℚ) < num / den := by positivity
  have scale : (0 : ℚ) < 2 ^ b.exponent := by positivity
  have log (k : ℤ) : Int.log 2 (num / den : ℚ) < k + b.exponent ↔ (num / den : ℚ) / 2 ^ b.exponent < 2 ^ k := by
    rw [div_lt_iff₀ scale, ← zpow_add₀ two_ne_zero, ← Nat.cast_ofNat (R := ℚ), Int.lt_zpow_iff_log_lt Nat.one_lt_two quotient]
  have gap := b.gap_le
  have low := near.low
  have most : Int.log 2 (num / den : ℚ) < 53 + b.exponent := (log 53).mpr (near.lt_two_pow canonical)
  by_cases same : e = b.exponent
  · exact .inl same
  · right
    have least := canonical.least
    have lower : Int.log 2 (num / den : ℚ) < 52 + b.exponent := by omega
    have inner : b.exponent ≠ -1074 := by omega
    have full := canonical.normal (by omega)
    have below := (log 52).mp lower
    have power : (2 : ℚ) ^ (52 : ℤ) = 2 ^ 52 := rfl
    rw [power] at below
    have first : b.significand = 2 ^ 52 := by
      refine Nat.le_antisymm ?_ full
      have : (b.significand : ℚ) < (2 ^ 52 + 1 : ℕ) := by
        push_cast
        linarith
      exact Nat.lt_succ_iff.mp (by exact_mod_cast this)
    refine ⟨?_, first, inner, below⟩
    have close : ¬ Int.log 2 (num / den : ℚ) < 51 + b.exponent := by
      rw [log, not_lt]
      rw [first] at low
      push_cast at low
      have : (2 : ℚ) ^ (51 : ℤ) = 2 ^ 51 := rfl
      linarith
    omega

/-- A quotient near a magnitude has its bits as the nearest ones. -/
theorem Near.nearestBits_eq {num den : ℕ} (near : b.Near (num / den)) (canonical : b.IsCanonical) (some : b.significand ≠ 0)
    (positive : 0 < den) (finite : b.bits < 0x7FF0000000000000) : nearestBits num den = UInt64.ofNat b.bits := by
  have numerator := near.num_ne_zero some
  obtain ⟨e, exponent⟩ : ∃ e, e = max (Int.log 2 (num / den : ℚ) - 52) (-1074) := ⟨_, rfl⟩
  have divisor : 0 < den * 2 ^ e.toNat := by positivity
  have value : b.bits = (e + 1074).toNat * 2 ^ 52 + roundHalfEven (num * 2 ^ (-e).toNat) (den * 2 ^ e.toNat) := by
    rcases near.exponent_cases canonical some positive exponent with rfl | ⟨rfl, first, inner, below⟩
    · rw [bits, roundHalfEven_eq divisor (n := b.significand)]
      · rw [scaled_div Nat.two_pos, Nat.cast_ofNat]
        exact near.close
      · rw [scaled_div Nat.two_pos, Nat.cast_ofNat]
        exact near.closer
    · -- One exponent lower, the significand is rounded up to the power of two.
      have least := canonical.least
      have low := near.low
      have gap : b.gap = 1 / 4 := if_pos ⟨first, inner⟩
      have power : (2 : ℚ) ^ b.exponent = 2 ^ (b.exponent - 1) * 2 := by
        rw [← zpow_add_one₀ two_ne_zero, sub_add_cancel]
      have half : (num / den : ℚ) / 2 ^ (b.exponent - 1) = (num / den : ℚ) / 2 ^ b.exponent * 2 := by
        rw [power]
        field_simp
      rw [bits, roundHalfEven_eq divisor (n := 2 ^ 53), first]
      · omega
      · rw [scaled_div Nat.two_pos, Nat.cast_ofNat, half, abs_le]
        rw [gap, first] at low
        push_cast at low ⊢
        constructor <;> linarith
      · exact fun odd => absurd odd (by decide)
  rw [nearestBits_eq_log numerator positive exponent value, if_pos finite]

/-- Numbers near a finite double are not too small and not too large. -/
theorem Near.bounds (near : b.Near q) (canonical : b.IsCanonical) (some : b.significand ≠ 0)
    (finite : b.bits < 0x7FF0000000000000) : (2 ^ 1075 : ℚ)⁻¹ ≤ q ∧ q < 2 ^ 1024 := by
  have scale : (0 : ℚ) < 2 ^ b.exponent := by positivity
  have low := near.half_le some
  have high := near.lt_two_pow canonical
  have least := canonical.least
  have most : b.exponent ≤ 971 := by
    by_contra large
    have full := canonical.normal (by omega)
    rw [bits] at finite
    omega
  rw [le_div_iff₀ scale] at low
  rw [div_lt_iff₀ scale] at high
  constructor
  · have power : (2 : ℚ) ^ (-1074 : ℤ) ≤ 2 ^ b.exponent := zpow_le_zpow_right₀ one_le_two least
    have first : (2 ^ 1075 : ℚ)⁻¹ = 1 / 2 * 2 ^ (-1074 : ℤ) := by
      rw [zpow_neg, one_div, ← mul_inv, zpow_ofNat, ← pow_succ']
    rw [first]
    linarith
  · have power : (2 : ℚ) ^ b.exponent ≤ 2 ^ (971 : ℤ) := zpow_le_zpow_right₀ one_le_two most
    have last : (2 : ℚ) ^ 1024 = 2 ^ 53 * 2 ^ (971 : ℤ) := by rw [zpow_ofNat, ← pow_add]
    rw [last]
    linarith

end Binary

/-! Doubles -/

variable {x : Float}

theorem bits_ofFloat (finite : x.isFinite = true) (positive : isNegative x = false) :
    (Binary.ofFloat x).bits = x.toBits.toNat ∧ x.toBits.toNat < 0x7FF0000000000000 := by
  have small : x.toBits.toNat < 2 ^ 63 := by
    rw [← Nat.not_le, ← isNegative_iff, positive]
    exact Bool.false_ne_true
  have exponent := biased_of_isFinite finite
  rw [biased] at exponent
  rw [Binary.ofFloat, Binary.bits_ofBits]
  omega

/-- The double nearest to what is near a double is that double. -/
theorem nearest_eq_of_near (finite : x.isFinite = true) (positive : isNegative x = false)
    (some : (Binary.ofFloat x).significand ≠ 0) {num den : ℕ} (divisor : 0 < den)
    (near : (Binary.ofFloat x).Near (num / den)) : nearest false num den = x := by
  obtain ⟨bits, below⟩ := bits_ofFloat finite positive
  rw [nearest_positive, near.nearestBits_eq (Binary.isCanonical_ofBits _) some divisor (bits ▸ below), bits, UInt64.ofNat_toNat,
    Float.ofBits_toBits]

/-- A number has fewer digits than a third of its bits and one. -/
theorem lt_pow_size (digits : ℕ) : digits < 10 ^ (digits.log2 / 3 + 1) :=
  calc
    digits < 2 ^ (digits.log2 + 1) := Nat.lt_log2_self
    _ ≤ 2 ^ (3 * (digits.log2 / 3 + 1)) := Nat.pow_le_pow_right Nat.two_pos (by omega)
    _ = 8 ^ (digits.log2 / 3 + 1) := Nat.pow_mul 2 3 _
    _ ≤ 10 ^ (digits.log2 / 3 + 1) := Nat.pow_le_pow_left (by decide) _

/-- No finite double is settled by the number of digits. -/
theorem ofScientific_eq_of_near (finite : x.isFinite = true) (positive : isNegative x = false)
    (some : (Binary.ofFloat x).significand ≠ 0) {digits : ℕ} {k : ℤ}
    (near : (Binary.ofFloat x).Near (digits * 10 ^ k)) : ofScientific false digits k = x := by
  have canonical := Binary.isCanonical_ofBits x.toBits
  obtain ⟨bits, below⟩ := bits_ofFloat finite positive
  obtain ⟨low, high⟩ := near.bounds canonical some (bits ▸ below)
  have limit : (2 ^ 1075 : ℚ) < 10 ^ 401 := by
    calc (2 : ℚ) ^ 1075 ≤ 2 ^ (3 * 401) := pow_le_pow_right₀ one_le_two (by decide)
      _ = 8 ^ 401 := by rw [pow_mul]; norm_num
      _ < 10 ^ 401 := pow_lt_pow_left₀ (by norm_num) (by norm_num) (by decide)
  have nonzero : digits ≠ 0 := by
    rintro rfl
    rw [Nat.cast_zero, zero_mul] at low
    exact absurd low (not_le.mpr (by positivity))
  have notSmall : ¬ k + ((digits.log2 / 3 : ℕ) + 1) < -400 := by
    intro small
    have size : (digits : ℚ) < 10 ^ ((digits.log2 / 3 : ℕ) + 1 : ℤ) := by exact_mod_cast lt_pow_size digits
    have power : (10 : ℚ) ^ (((digits.log2 / 3 : ℕ) + 1 : ℤ) + k) ≤ 10 ^ (-401 : ℤ) :=
      zpow_le_zpow_right₀ (by norm_num) (by omega)
    have tiny : (digits : ℚ) * 10 ^ k < 10 ^ (-401 : ℤ) := by
      refine lt_of_lt_of_le ?_ power
      rw [zpow_add₀ (by norm_num)]
      exact mul_lt_mul_of_pos_right size (by positivity)
    have inverse : (10 : ℚ) ^ (-401 : ℤ) < (2 ^ 1075)⁻¹ := by
      rw [zpow_neg]
      exact inv_strictAnti₀ (by positivity) limit
    exact absurd (low.trans_lt (tiny.trans inverse)) (lt_irrefl _)
  have notLarge : ¬ 400 < k := by
    intro large
    have power : (10 : ℚ) ^ (401 : ℤ) ≤ 10 ^ k := zpow_le_zpow_right₀ (by norm_num) large
    have least : (1 : ℚ) ≤ digits := by exact_mod_cast Nat.one_le_iff_ne_zero.mpr nonzero
    have huge : (10 : ℚ) ^ (401 : ℤ) ≤ digits * 10 ^ k := power.trans (le_mul_of_one_le_left (by positivity) least)
    have above : (2 : ℚ) ^ 1024 ≤ 2 ^ 1075 := pow_le_pow_right₀ one_le_two (by decide)
    rw [zpow_ofNat] at huge
    exact absurd (((high.trans_le above).trans limit).trans_le huge) (lt_irrefl _)
  have quotient : (digits : ℚ) * 10 ^ k = (digits * 10 ^ k.toNat : ℕ) / (10 ^ (-k).toNat : ℕ) := by
    have power := zpow_eq_div 10 k
    push_cast at power ⊢
    rw [power, mul_div_assoc]
  rw [quotient] at near
  rw [ofScientific, if_neg (by simpa [nonzero] using notSmall), if_neg notLarge]
  exact nearest_eq_of_near finite positive some (Nat.pow_pos (by decide)) near

end ScriptTools.Decimal
