import ScriptTools.Proofs.Decimal.Nearest
import ScriptTools.Proofs.Decimal.Shortest

/-!
The shortest decimal of a double reads back. With seventeen digits one of the neighbours of a double on the decimal
grid always lies between its midpoints.
-/

namespace ScriptTools.Decimal

/-! The interval of a double -/

namespace Binary

variable {b : Binary}

/-- A decimal that is tested for lying in the interval of a magnitude lies near it. -/
theorem contains_iff_near (some : b.significand ≠ 0) (d : ℕ) (k : ℤ) :
    (Interval.ofBinary b).contains d k = true ↔ b.Near (d * 10 ^ k) := by
  obtain ⟨P, point⟩ : ∃ P, P = d * 10 ^ k.toNat * (4 * b.den) := ⟨_, rfl⟩
  obtain ⟨Q, unit⟩ : ∃ Q, Q = 2 ^ b.exponent.toNat * 10 ^ (-k).toNat := ⟨_, rfl⟩
  have positive : (0 : ℚ) < Q := by
    rw [unit]
    positivity
  have ratio : (d * 10 ^ k : ℚ) / 2 ^ b.exponent = P / Q / 4 := by
    have ten := zpow_eq_div 10 k
    have two := zpow_eq_div 2 b.exponent
    have den : b.den = 2 ^ (-b.exponent).toNat := rfl
    push_cast at ten two
    rw [ten, two, point, unit, den]
    push_cast
    field_simp
  have le (n : ℕ) : (n : ℚ) / 4 ≤ (d * 10 ^ k : ℚ) / 2 ^ b.exponent ↔ n * Q ≤ P := by
    rw [ratio, div_le_div_iff_of_pos_right (by norm_num), le_div_iff₀ positive]
    exact_mod_cast Iff.rfl
  have ge (n : ℕ) : (d * 10 ^ k : ℚ) / 2 ^ b.exponent ≤ (n : ℚ) / 4 ↔ P ≤ n * Q := by
    rw [ratio, div_le_div_iff_of_pos_right (by norm_num), div_le_iff₀ positive]
    exact_mod_cast Iff.rfl
  obtain ⟨n, lowest⟩ : ∃ n, n = if b.significand = Nat.pow 2 52 && b.exponent != -1074 then 4 * b.significand - 1
      else 4 * b.significand - 2 := ⟨_, rfl⟩
  have low : (b.significand : ℚ) - b.gap = n / 4 := by
    simp only [lowest, gap, Nat.pow_eq, Bool.and_eq_true, decide_eq_true_eq, bne_iff_ne]
    split
    · rw [Nat.cast_sub (by omega)]
      push_cast
      ring
    · rw [Nat.cast_sub (by omega)]
      push_cast
      ring
  have high : (b.significand : ℚ) + 1 / 2 = (4 * b.significand + 2 : ℕ) / 4 := by
    push_cast
    ring
  have tested : (Interval.ofBinary b).contains d k = true ↔
      if b.significand % 2 = 0 then n * Q ≤ P ∧ P ≤ (4 * b.significand + 2) * Q
      else n * Q < P ∧ P < (4 * b.significand + 2) * Q := by
    rw [Interval.contains, Interval.ofBinary, point, unit]
    simp only [decide_eq_true_eq, ← lowest, Nat.pow_eq, Nat.mul_assoc]
    split
    · simp
    · simp
  rw [tested]
  constructor
  · intro inside
    split at inside
    · rename_i even
      refine ⟨?_, ?_, fun odd => absurd even (by omega)⟩
      · rw [low, le]
        exact inside.1
      · rw [high, ge]
        exact inside.2
    · refine ⟨?_, ?_, fun _ => ⟨?_, ?_⟩⟩
      · rw [low, le]
        exact inside.1.le
      · rw [high, ge]
        exact inside.2.le
      · rw [low, lt_iff_lt_of_le_iff_le (ge n)]
        exact inside.1
      · rw [high, lt_iff_lt_of_le_iff_le (le _)]
        exact inside.2
  · intro near
    split
    · refine ⟨?_, ?_⟩
      · rw [← le, ← low]
        exact near.low
      · rw [← ge, ← high]
        exact near.high
    · obtain ⟨above, below⟩ := near.odd (by omega)
      refine ⟨?_, ?_⟩
      · rw [← lt_iff_lt_of_le_iff_le (ge n), ← low]
        exact above
      · rw [← lt_iff_lt_of_le_iff_le (le _), ← high]
        exact below

theorem gap_pos (b : Binary) : 0 < b.gap := by
  rw [gap]
  split <;> norm_num

/-- A magnitude lies near itself. -/
theorem near_self (b : Binary) : b.Near (b.significand * 2 ^ b.exponent) := by
  have gap := b.gap_pos
  have scale : (2 : ℚ) ^ b.exponent ≠ 0 := by positivity
  refine ⟨?_, ?_, fun _ => ⟨?_, ?_⟩⟩
  all_goals
    rw [mul_div_cancel_right₀ _ scale]
    linarith

/-- On a grid with steps of at most `1 / 10 ^ 16` of a magnitude, one of its neighbours lies near it. -/
theorem near_grid {b : Binary} (canonical : b.IsCanonical) {d : ℕ} {k : ℤ}
    (fine : (10 : ℚ) ^ k * 10 ^ 16 ≤ b.significand * 2 ^ b.exponent) (low : d * 10 ^ k ≤ (b.significand * 2 ^ b.exponent : ℚ))
    (high : (b.significand * 2 ^ b.exponent : ℚ) < (d + 1 : ℕ) * 10 ^ k) :
    b.Near (d * 10 ^ k) ∨ b.Near ((d + 1 : ℕ) * 10 ^ k) := by
  have scale : (0 : ℚ) < 2 ^ b.exponent := by positivity
  have below : ((b.significand + 1 : ℕ) : ℚ) ≤ (2 ^ 53 : ℕ) := by exact_mod_cast canonical.below
  have gap := b.gap_pos
  obtain ⟨s, step⟩ : ∃ s : ℚ, s = 10 ^ k / 2 ^ b.exponent := ⟨_, rfl⟩
  have down : (d * 10 ^ k : ℚ) / 2 ^ b.exponent = d * s := by rw [step, mul_div_assoc]
  have up : ((d + 1 : ℕ) * 10 ^ k : ℚ) / 2 ^ b.exponent = d * s + s := by
    rw [step, mul_div_assoc]
    push_cast
    ring
  rw [← div_le_iff₀ scale, mul_div_right_comm, ← step] at fine
  rw [← div_le_iff₀ scale, down] at low
  rw [← lt_div_iff₀ scale, up] at high
  push_cast at below
  rcases lt_or_ge (d * s + s - b.significand) (1 / 2) with closer | farther
  · right
    refine ⟨?_, ?_, fun _ => ⟨?_, ?_⟩⟩
    all_goals
      rw [up]
      linarith
  · -- Below a power of two the steps are less than half a unit, and the other neighbour were closer.
    have wide : b.gap = 1 / 2 := by
      refine if_neg fun first => ?_
      have size : (b.significand : ℚ) = 2 ^ 52 := by exact_mod_cast first.1
      linarith
    left
    refine ⟨?_, ?_, fun _ => ⟨?_, ?_⟩⟩
    all_goals
      rw [down]
      linarith

end Binary

/-! The digits of a double -/

/-- The power of ten of a guess is not far above the power of two: sixty digits have no more than 196 bits. -/
theorem ten_pow_le {k n : ℕ} (guess : 100000 * k ≤ 30103 * n) (small : n ≤ 1100) : 10 ^ k ≤ 5 * 2 ^ n := by
  refine le_of_pow_le_pow_left₀ (by decide : 59 ≠ 0) (Nat.zero_le _) ?_
  calc (10 ^ k) ^ 59 = (10 ^ 59) ^ k := Nat.pow_right_comm 10 k 59
    _ ≤ (2 ^ 196) ^ k := Nat.pow_le_pow_left (by norm_num) k
    _ = 2 ^ (196 * k) := (Nat.pow_mul 2 196 k).symm
    _ ≤ 2 ^ (136 + 59 * n) := Nat.pow_le_pow_right Nat.two_pos (by omega)
    _ = 2 ^ 136 * (2 ^ n) ^ 59 := by rw [Nat.pow_add, Nat.mul_comm 59, Nat.pow_mul]
    _ ≤ 5 ^ 59 * (2 ^ n) ^ 59 := Nat.mul_le_mul_right _ (by norm_num)
    _ = (5 * 2 ^ n) ^ 59 := (Nat.mul_pow 5 (2 ^ n) 59).symm

/-- The power of two is not far above the power of ten: 93 bits have no more than 28 digits. -/
theorem two_pow_le {k n : ℕ} (guess : 30103 * n ≤ 100000 * k) (small : n ≤ 1100) : 2 ^ n ≤ 5 * 10 ^ k := by
  refine le_of_pow_le_pow_left₀ (by decide : 93 ≠ 0) (Nat.zero_le _) ?_
  calc (2 ^ n) ^ 93 = (2 ^ 93) ^ n := Nat.pow_right_comm 2 n 93
    _ ≤ (10 ^ 28) ^ n := Nat.pow_le_pow_left (by norm_num) n
    _ = 10 ^ (28 * n) := (Nat.pow_mul 10 28 n).symm
    _ ≤ 10 ^ (65 + 93 * k) := Nat.pow_le_pow_right (by decide) (by omega)
    _ = 10 ^ 65 * (10 ^ k) ^ 93 := by rw [Nat.pow_add, Nat.mul_comm 93, Nat.pow_mul]
    _ ≤ 5 ^ 93 * (10 ^ k) ^ 93 := Nat.mul_le_mul_right _ (by norm_num)
    _ = (5 * 10 ^ k) ^ 93 := (Nat.mul_pow 5 (10 ^ k) 93).symm

/-- The first guess at the decimal magnitude is not too large: the factor is just above the logarithm of two. -/
theorem zpow_guess_le {b : ℤ} (low : -1100 ≤ b) (high : b ≤ 1100) : (10 : ℚ) ^ (b * 30103 / 100000 - 1) ≤ 2 ^ (b - 1) := by
  rw [zpow_sub_one₀ (by norm_num), zpow_sub_one₀ (by norm_num)]
  obtain ⟨n, rfl | rfl⟩ := b.eq_nat_or_neg
  · obtain ⟨k, guess⟩ : ∃ k : ℕ, (n * 30103 / 100000 : ℤ) = k := ⟨n * 30103 / 100000, by omega⟩
    have power : (10 : ℚ) ^ k ≤ 5 * 2 ^ n := by exact_mod_cast ten_pow_le (k := k) (n := n) (by omega) (by omega)
    rw [guess, zpow_natCast, zpow_natCast]
    linarith
  · obtain ⟨k, guess⟩ : ∃ k : ℕ, (-n * 30103 / 100000 : ℤ) = -k := ⟨(n * 30103 + 99999) / 100000, by omega⟩
    have power : (2 : ℚ) ^ n ≤ 5 * 10 ^ k := by exact_mod_cast two_pow_le (k := k) (n := n) (by omega) (by omega)
    have inverse : (5 * (10 : ℚ) ^ k)⁻¹ ≤ (2 ^ n)⁻¹ := inv_anti₀ (by positivity) power
    rw [mul_inv] at inverse
    rw [guess, zpow_neg, zpow_neg, zpow_natCast, zpow_natCast]
    linarith

theorem zpow_magnitude_le {num den : ℕ} (some : num ≠ 0) (positive : 0 < den) (low : -1100 ≤ (num.log2 : ℤ) - den.log2)
    (high : (num.log2 : ℤ) - den.log2 ≤ 1100) : (10 : ℚ) ^ magnitude num den ≤ num / den := by
  have quotient : (0 : ℚ) < num / den := by positivity
  have reached {k : ℤ} (reaches : decide (den * Nat.pow 10 k.toNat ≤ num * Nat.pow 10 (-k).toNat) = true) :
      (10 : ℚ) ^ k ≤ num / den := by
    have power := zpow_eq_div 10 k
    push_cast at power
    rw [power, div_le_div_iff₀ (by positivity) (by positivity), mul_comm]
    exact_mod_cast of_decide_eq_true reaches
  have least : (2 : ℚ) ^ ((num.log2 : ℤ) - den.log2 - 1) ≤ num / den := by
    rw [← Nat.cast_ofNat (R := ℚ), Int.zpow_le_iff_le_log Nat.one_lt_two quotient]
    exact (log_bounds some positive).1
  rw [magnitude]
  split_ifs with three two one
  · exact reached three
  · exact reached two
  · exact reached one
  · exact (zpow_guess_le low high).trans least

theorem onGrid_eq_none {i : Interval} {tie : Tie} {k : ℤ} (none : i.onGrid tie k = none) {d : ℕ}
    (below : d = i.value * 10 ^ (-k).toNat / (i.den * 10 ^ k.toNat)) :
    i.contains d k = false ∧ i.contains (d + 1) k = false := by
  rw [Interval.onGrid] at none
  simp only [Nat.pow_eq, ← below] at none
  split at none
  · exact ⟨‹_›, ‹_›⟩
  all_goals cases none

/-- The neighbours of a quotient on a decimal grid. -/
theorem grid_bounds {num den : ℕ} {k : ℤ} {d : ℕ} (below : d = num * 10 ^ (-k).toNat / (den * 10 ^ k.toNat)) :
    (d * 10 ^ k : ℚ) ≤ num / den ∧ (num / den : ℚ) < (d + 1 : ℕ) * 10 ^ k := by
  have step : (0 : ℚ) < 10 ^ k := by positivity
  have ratio := scaled_div (Nat.succ_pos 9) num den k
  have whole : d = ⌊(num / den / 10 ^ k : ℚ)⌋₊ := by
    rw [below, ← Nat.floor_div_eq_div (K := ℚ), ratio]
    rfl
  have positive : (0 : ℚ) ≤ num / den / 10 ^ k := by positivity
  constructor
  · rw [← le_div_iff₀ step, whole]
    exact Nat.floor_le positive
  · rw [← div_lt_iff₀ step, whole]
    push_cast
    exact Nat.lt_floor_add_one _

theorem ofBinary_ratio (b : Binary) :
    ((Interval.ofBinary b).value : ℚ) / (Interval.ofBinary b).den = b.significand * 2 ^ b.exponent := by
  have power := zpow_eq_div 2 b.exponent
  have den : b.den = 2 ^ (-b.exponent).toNat := rfl
  rw [Interval.ofBinary, den]
  push_cast [Nat.pow_eq] at power ⊢
  rw [power]
  field_simp

/-- The magnitude that the digits start at is not above a double. -/
theorem zpow_magnitude_ofBinary_le {b : Binary} (canonical : b.IsCanonical) (some : b.significand ≠ 0)
    (finite : b.bits < 0x7FF0000000000000) :
    (10 : ℚ) ^ magnitude (Interval.ofBinary b).value (Interval.ofBinary b).den ≤ b.significand * 2 ^ b.exponent := by
  have numerator : (Interval.ofBinary b).value ≠ 0 :=
    Nat.mul_ne_zero (Nat.mul_ne_zero (by decide) some) (Nat.two_pow_pos _).ne'
  have divisor : 0 < (Interval.ofBinary b).den := Nat.mul_pos (by decide) b.den_pos
  obtain ⟨low, high⟩ := log_bounds numerator divisor
  rw [ofBinary_ratio] at low high
  have positive : (0 : ℚ) < b.significand * 2 ^ b.exponent := by positivity
  obtain ⟨least, most⟩ := b.near_self.bounds canonical some finite
  have first : -1075 ≤ Int.log 2 (b.significand * 2 ^ b.exponent : ℚ) := by
    rw [← Int.zpow_le_iff_le_log Nat.one_lt_two positive, Nat.cast_ofNat, zpow_neg, zpow_ofNat]
    exact least
  have last : Int.log 2 (b.significand * 2 ^ b.exponent : ℚ) < 1024 := by
    rw [← Int.lt_zpow_iff_log_lt Nat.one_lt_two positive, Nat.cast_ofNat, zpow_ofNat]
    exact most
  rw [← ofBinary_ratio]
  exact zpow_magnitude_le numerator divisor (by omega) (by omega)

/-- The shortest decimal of a double lies near it. -/
theorem shortest_near {b : Binary} (canonical : b.IsCanonical) (some : b.significand ≠ 0) (finite : b.bits < 0x7FF0000000000000)
    (tie : Tie) : b.Near ((shortest tie b).digits * 10 ^ (shortest tie b).exponent) := by
  rw [shortest]
  split
  · rename_i s found
    obtain ⟨n, _, hit⟩ := List.exists_of_findSome?_eq_some found
    exact (Binary.contains_iff_near some _ _).mp (Interval.contains_of_onGrid hit)
  · rename_i none
    exfalso
    -- The grid of seventeen digits is fine enough for one of the two neighbours.
    have fine := zpow_magnitude_ofBinary_le canonical some finite
    generalize top : magnitude (Interval.ofBinary b).value (Interval.ofBinary b).den = k at none fine
    have last : (Interval.ofBinary b).onGrid tie (k - 16) = Option.none := List.findSome?_eq_none_iff.mp none 16 (by simp)
    have step : (10 : ℚ) ^ (k - 16) * 10 ^ 16 = 10 ^ k := by
      rw [← zpow_natCast, ← zpow_add₀ (by norm_num)]
      congr 1
      omega
    obtain ⟨d, below⟩ : ∃ d, d = (Interval.ofBinary b).value * 10 ^ (-(k - 16)).toNat /
        ((Interval.ofBinary b).den * 10 ^ (k - 16).toNat) := ⟨_, rfl⟩
    obtain ⟨down, up⟩ := onGrid_eq_none last below
    obtain ⟨lower, upper⟩ := grid_bounds below
    rw [ofBinary_ratio] at lower upper
    rcases Binary.near_grid canonical (step.trans_le fine) lower upper with near | near
    · rw [(Binary.contains_iff_near some _ _).mpr near] at down
      cases down
    · rw [(Binary.contains_iff_near some _ _).mpr near] at up
      cases up

/-- The double nearest to the shortest decimal of a double is that double. -/
theorem ofScientific_shortest {x : Float} (finite : x.isFinite = true) (positive : isNegative x = false)
    (some : (Binary.ofFloat x).significand ≠ 0) (tie : Tie) {digits : ℕ} {k : ℤ}
    (same : (digits * 10 ^ k : ℚ) = (shortest tie (Binary.ofFloat x)).digits * 10 ^ (shortest tie (Binary.ofFloat x)).exponent) :
    ofScientific false digits k = x := by
  obtain ⟨bits, below⟩ := bits_ofFloat finite positive
  refine ofScientific_eq_of_near finite positive some ?_
  rw [same]
  exact shortest_near (Binary.isCanonical_ofBits _) some (bits ▸ below) tie

end ScriptTools.Decimal
