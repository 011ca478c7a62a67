import ScriptTools.Decimal.Fixed
import ScriptTools.Proofs.Decimal.ReadBack
import ScriptTools.Proofs.Decimal.Scaled

/-!
Decimals of fourteen digits. A double is near to at most one of them, and where it is near to one, that is the shortest
decimal that reads back as well as what the double is rounded to.
-/

namespace ScriptTools.Decimal

variable {y : Float} {b : Binary} {num den : ℕ} {q : ℚ}

/-! The decimal logarithm -/

/-- The last guess at the decimal magnitude is not too small. -/
theorem le_zpow_guess {b : ℤ} (low : -1100 ≤ b) (high : b ≤ 1100) :
    (2 : ℚ) ^ (b + 1) ≤ 10 ^ (b * 30103 / 100000 + 3) := by
  rw [zpow_add_one₀ two_ne_zero, zpow_add₀ (by norm_num)]
  obtain ⟨n, rfl | rfl⟩ := b.eq_nat_or_neg
  · obtain ⟨k, guess⟩ : ∃ k : ℕ, (n * 30103 / 100000 : ℤ) = k := ⟨n * 30103 / 100000, by omega⟩
    have power : (2 : ℚ) ^ n ≤ 5 * 10 ^ (k + 1) := by exact_mod_cast two_pow_le (k := k + 1) (n := n) (by omega) (by omega)
    have size : (0 : ℚ) < 10 ^ k := by positivity
    rw [pow_succ] at power
    rw [guess, zpow_natCast, zpow_natCast]
    norm_num
    linarith
  · obtain ⟨k, guess⟩ : ∃ k : ℕ, (-n * 30103 / 100000 : ℤ) = -k := ⟨(n * 30103 + 99999) / 100000, by omega⟩
    have power : (10 : ℚ) ^ k ≤ 50 * 2 ^ n := by
      cases k with
      | zero =>
        have least : (1 : ℚ) ≤ 2 ^ n := one_le_pow₀ one_le_two
        rw [pow_zero]
        linarith
      | succ k =>
        have power : (10 : ℚ) ^ k ≤ 5 * 2 ^ n := by exact_mod_cast ten_pow_le (k := k) (n := n) (by omega) (by omega)
        rw [pow_succ]
        linarith
    have inverse : (50 * (2 : ℚ) ^ n)⁻¹ ≤ (10 ^ k)⁻¹ := inv_anti₀ (by positivity) power
    have size : (0 : ℚ) < (10 ^ k)⁻¹ := by positivity
    rw [mul_inv] at inverse
    rw [guess, zpow_neg, zpow_neg, zpow_natCast, zpow_natCast]
    norm_num at inverse ⊢
    linarith

theorem lt_zpow_magnitude (some : num ≠ 0) (positive : 0 < den) (low : -1100 ≤ (num.log2 : ℤ) - den.log2)
    (high : (num.log2 : ℤ) - den.log2 ≤ 1100) : (num / den : ℚ) < 10 ^ (magnitude num den + 1) := by
  have quotient : (0 : ℚ) < num / den := by positivity
  have missed {k : ℤ} (misses : ¬ decide (den * Nat.pow 10 k.toNat ≤ num * Nat.pow 10 (-k).toNat) = true) :
      (num / den : ℚ) < 10 ^ k := by
    have power := zpow_eq_div 10 k
    push_cast at power
    rw [power, div_lt_div_iff₀ (by positivity) (by positivity), mul_comm (_ ^ _)]
    rw [decide_eq_true_iff, Nat.not_le] at misses
    exact_mod_cast misses
  have most : (num / den : ℚ) < 2 ^ ((num.log2 : ℤ) - den.log2 + 1) := by
    rw [← Nat.cast_ofNat (R := ℚ), Int.lt_zpow_iff_log_lt Nat.one_lt_two quotient]
    exact Int.lt_add_one_of_le (log_bounds some positive).2
  rw [magnitude]
  split_ifs with three two one
  · exact most.trans_le ((le_zpow_guess low high).trans_eq (congrArg _ (by ring)))
  · exact missed (by rwa [add_assoc])
  · exact missed (by rwa [add_assoc])
  · exact missed one

theorem number_pos (some : b.significand ≠ 0) : 0 < b.number := by
  rw [Binary.number]
  positivity

/-- The decimal magnitude of a double is its logarithm. -/
theorem magnitude_eq_log (canonical : b.IsCanonical) (some : b.significand ≠ 0) (finite : b.bits < 0x7FF0000000000000)
    (positive : 0 < den) (ratio : (num / den : ℚ) = b.number) : magnitude num den = Int.log 10 b.number := by
  have size := number_pos some
  have nonzero : num ≠ 0 := by
    rintro rfl
    rw [Nat.cast_zero, zero_div] at ratio
    exact size.ne ratio
  obtain ⟨low, high⟩ := log_bounds nonzero positive
  rw [ratio] at low high
  obtain ⟨least, most⟩ := b.near_self.bounds canonical some finite
  have first : -1075 ≤ Int.log 2 b.number := by
    rw [← Int.zpow_le_iff_le_log Nat.one_lt_two size, Nat.cast_ofNat, zpow_neg, zpow_ofNat]
    exact least
  have last : Int.log 2 b.number < 1024 := by
    rw [← Int.lt_zpow_iff_log_lt Nat.one_lt_two size, Nat.cast_ofNat, zpow_ofNat]
    exact most
  have below := zpow_magnitude_le nonzero positive (by omega) (by omega)
  have above := lt_zpow_magnitude nonzero positive (by omega) (by omega)
  rw [ratio] at below above
  refine le_antisymm ?_ (Int.lt_add_one_iff.mp ?_)
  · rwa [← Int.zpow_le_iff_le_log (by decide) size]
  · rwa [← Int.lt_zpow_iff_log_lt (by decide) size]

theorem num_div_den (b : Binary) : (b.num / b.den : ℚ) = b.number := by
  have power := zpow_eq_div 2 b.exponent
  rw [Binary.number, Binary.num, Binary.den]
  push_cast [Nat.pow_eq] at power ⊢
  rw [power]
  ring

/-! The grid of fourteen digits -/

/-- The step between decimals of fourteen digits around a number. -/
def step (q : ℚ) : ℚ := 10 ^ (Int.log 10 q - 13)

theorem step_pos (q : ℚ) : 0 < step q := by
  rw [step]
  positivity

theorem step_bounds (positive : 0 < q) : 10 ^ 13 * step q ≤ q ∧ q < 10 ^ 14 * step q := by
  have low := Int.zpow_log_le_self (b := 10) (by decide) positive
  have high := Int.lt_zpow_succ_log_self (b := 10) (by decide) q
  have scale (n : ℕ) : (10 : ℚ) ^ n * step q = 10 ^ (Int.log 10 q - 13 + n) := by
    rw [step, zpow_add₀ (by norm_num), zpow_natCast, mul_comm]
  rw [scale, scale]
  push_cast at low high ⊢
  constructor
  · rwa [sub_add_cancel]
  · have exponent : Int.log 10 q - 13 + 14 = Int.log 10 q + 1 := by omega
    rwa [exponent]

/-- A double is at most twice as large as what it is the nearest one to. -/
theorem IsNearest.half_le (near : IsNearest y q) (some : (Binary.ofFloat y).significand ≠ 0) : value y / 2 ≤ q := by
  have low := near.near.low
  have gap := (Binary.ofFloat y).gap_le
  have least : (1 : ℚ) ≤ (Binary.ofFloat y).significand := by exact_mod_cast Nat.one_le_iff_ne_zero.mpr some
  rw [value_of_positive near.positive, Binary.number, mul_div_right_comm, ← le_div_iff₀ (by positivity)]
  linarith

/-- A decimal of the grid around a double that is rounded to it is much closer to it than the others there. -/
theorem IsNearest.close_on_grid {n : ℕ} (near : IsNearest y (n * step (value y))) (positive : 0 < value y)
    (normal : (1 : ℚ) / 2 ^ 1021 ≤ n * step (value y)) : |value y / step (value y) - n| < 1 / 2 := by
  obtain ⟨low, high⟩ := abs_le.mp (near.close normal)
  have size := step_pos (value y)
  have top := (step_bounds positive).2
  rw [div_sub' size.ne', abs_div, abs_of_pos size, div_lt_iff₀ size, mul_comm, abs_lt]
  constructor <;> linarith

theorem normal_of_least (least : (1 : ℚ) / (2 * 10 ^ 5) ≤ q) : 1 / 2 ^ 1021 ≤ q := by
  have small : (2 * 10 ^ 5 : ℚ) ≤ 2 ^ 18 := by norm_num
  have power : (2 : ℚ) ^ 18 ≤ 2 ^ 1021 := pow_le_pow_right₀ one_le_two (by decide)
  exact (one_div_le_one_div_of_le (by positivity) (small.trans power)).trans least

theorem least_quotient {d k : ℕ} (least : 10 ^ k ≤ 10 ^ 4 * d) : (1 : ℚ) / 10 ^ 4 ≤ d / 10 ^ k := by
  rw [div_le_div_iff₀ (by positivity) (by positivity), one_mul, mul_comm]
  exact_mod_cast least

theorem least_value {d k : ℕ} (near : IsNearest y (d / 10 ^ k)) (least : 10 ^ k ≤ 10 ^ 4 * d) :
    (1 : ℚ) / 10 ^ 5 ≤ value y := by
  have large := least_quotient least
  have low := (abs_le.mp (near.close (normal_of_least (by linarith)))).1
  linarith

/-- A decimal of fourteen digits that a double is the nearest one to stands on the grid around the double. -/
theorem exists_on_grid {d k : ℕ} (near : IsNearest y (d / 10 ^ k)) (few : d < 10 ^ 14) (least : 10 ^ k ≤ 10 ^ 4 * d) :
    ∃ n : ℕ, (d / 10 ^ k : ℚ) = n * step (value y) := by
  obtain ⟨u, unit⟩ : ∃ u : ℚ, u = 10 ^ (-k : ℤ) := ⟨_, rfl⟩
  have small : 0 < u := unit ▸ by positivity
  have quotient : (d / 10 ^ k : ℚ) = d * u := by rw [unit, zpow_neg, zpow_natCast, div_eq_mul_inv]
  have large := least_quotient least
  have positive : 0 < value y := lt_of_lt_of_le (by positivity) (least_value near least)
  obtain ⟨low, high⟩ := abs_le.mp (near.close (normal_of_least (by linarith)))
  rw [quotient] at low high large ⊢
  obtain ⟨bottom, _⟩ := step_bounds positive
  have coarse : Int.log 10 (value y) - 13 ≤ -k := by
    by_contra finer
    have digits : (d + 1 : ℚ) ≤ 10 ^ 14 := by exact_mod_cast few
    have wide : 10 * u ≤ step (value y) := by
      rw [unit, ← zpow_one_add₀ (by norm_num), step]
      exact zpow_le_zpow_right₀ (by norm_num) (by omega)
    have more : (d + 1) * u ≤ 10 ^ 14 * u := mul_le_mul_of_nonneg_right digits small.le
    linarith
  obtain ⟨t, shift⟩ := Int.le.dest coarse
  refine ⟨d * 10 ^ t, ?_⟩
  rw [unit, ← shift, step, zpow_add₀ (by norm_num), zpow_natCast]
  push_cast
  ring

/-! Rounding to fourteen digits -/

/-- A power of ten as a factor is as many zeros behind the digits. -/
theorem digitChars_mul_pow {n : ℕ} (some : n ≠ 0) (k : ℕ) :
    digitChars (n * 10 ^ k) = digitChars n ++ List.replicate k '0' := by
  induction k with
  | zero => simp
  | succ k ih =>
    have positive : 0 < n * 10 ^ k := Nat.mul_pos (Nat.pos_of_ne_zero some) (by positivity)
    have next : n * 10 ^ (k + 1) = 10 * (n * 10 ^ k) + 0 := by ring
    rw [next, digitChars, ← Nat.toDigits_append_toDigits (by decide) positive (by decide), List.replicate_succ',
      ← List.append_assoc]
    exact congrArg (· ++ ['0']) ih

theorem length_digitChars {n k : ℕ} (low : 10 ^ k ≤ n) (high : n < 10 ^ (k + 1)) : (digitChars n).length = k + 1 := by
  refine Nat.le_antisymm ((Nat.length_toDigits_le_iff (by decide) (Nat.succ_pos k)).mpr high) ?_
  cases k with
  | zero => exact Nat.length_toDigits_pos
  | succ k => exact Nat.lt_of_not_le fun short => low.not_gt ((Nat.length_toDigits_le_iff (by decide) (Nat.succ_pos k)).mp short)

/-- What a double is rounded to has fourteen digits, and it is the decimal of the grid that is closest. -/
theorem exists_roundedDigits (canonical : b.IsCanonical) (some : b.significand ≠ 0) (finite : b.bits < 0x7FF0000000000000) :
    ∃ n e, roundedDigits 13 b = (digitChars n, e) ∧ 10 ^ 13 ≤ n ∧ n < 10 ^ 14 ∧
      ∀ m : ℕ, |b.number / step b.number - m| < 1 / 2 → (n * 10 ^ (e - 13) : ℚ) = m * step b.number := by
  have log := magnitude_eq_log canonical some finite b.den_pos (num_div_den b)
  have positive := number_pos some
  have size := step_pos b.number
  obtain ⟨bottom, top⟩ := step_bounds positive
  obtain ⟨e, exponent⟩ : ∃ e, e = Int.log 10 b.number := ⟨_, rfl⟩
  obtain ⟨N, scaled⟩ : ∃ N, N = b.num * 10 ^ (13 - e).toNat := ⟨_, rfl⟩
  obtain ⟨D, divisor⟩ : ∃ D, D = b.den * 10 ^ (-(13 - e)).toNat := ⟨_, rfl⟩
  have ratio : (N / D : ℚ) = b.number / step b.number := by
    have ratio := scaled_div (Nat.succ_pos 9) b.num b.den (e - 13)
    rw [neg_sub, num_div_den] at ratio
    rw [scaled, divisor, neg_sub, step, ← exponent]
    exact_mod_cast ratio
  have denominator : 0 < D := divisor ▸ Nat.mul_pos b.den_pos (by positivity)
  have denominator' : (0 : ℚ) < D := by exact_mod_cast denominator
  rw [← le_div_iff₀ size, ← ratio, le_div_iff₀ denominator'] at bottom
  rw [← div_lt_iff₀ size, ← ratio, div_lt_iff₀ denominator'] at top
  obtain ⟨r, rounded⟩ : ∃ r, r = roundHalfEven N D := ⟨_, rfl⟩
  have low : 10 ^ 13 ≤ r := by
    rw [rounded]
    exact ((Nat.le_div_iff_mul_le denominator).mpr (by exact_mod_cast bottom)).trans (le_roundHalfEven N D)
  have high : r ≤ 10 ^ 14 := by
    rw [rounded]
    exact (roundHalfEven_le N D).trans ((Nat.div_lt_iff_lt_mul denominator).mpr (by exact_mod_cast top))
  have closest (m : ℕ) (close : |b.number / step b.number - m| < 1 / 2) : r = m := by
    rw [← ratio] at close
    exact rounded.trans (roundHalfEven_eq denominator close.le fun _ => close)
  have digits : roundedDigits 13 b =
      if (digitChars r).length = 15 then ((digitChars r).take 14, e + 1) else (digitChars r, e) := by
    rw [roundedDigits, if_neg some, log, ← exponent, rounded, scaled, divisor]
    rfl
  rcases Nat.lt_or_eq_of_le high with less | carry
  · refine ⟨r, e, ?_, low, less, fun m close => ?_⟩
    · rw [digits, length_digitChars low less, if_neg (by decide)]
    · rw [closest m close, step, exponent]
  · refine ⟨10 ^ 13, e + 1, ?_, Nat.le_refl _, by decide, fun m close => ?_⟩
    · have power (k : ℕ) : digitChars (10 ^ k) = '1' :: List.replicate k '0' := by
        rw [← one_mul (10 ^ k), digitChars_mul_pow one_ne_zero]
        rfl
      rw [digits, carry, power, power]
      rfl
    · rw [← closest m close, carry, step, ← exponent, add_sub_right_comm, zpow_add_one₀ (by norm_num)]
      push_cast
      ring

/-! The shortest decimal -/

/-- The grid of fourteen digits is tried where one of its decimals is rounded to the double. -/
theorem onGrid_ne_none (some : b.significand ≠ 0) {m : ℕ} (near : b.Near (m * step b.number))
    (close : |b.number / step b.number - m| < 1 / 2) (tie : Tie) :
    (Interval.ofBinary b).onGrid tie (Int.log 10 b.number - 13) ≠ none := by
  intro none
  obtain ⟨d, below⟩ : ∃ d, d = (Interval.ofBinary b).value * 10 ^ (-(Int.log 10 b.number - 13)).toNat /
      ((Interval.ofBinary b).den * 10 ^ (Int.log 10 b.number - 13).toNat) := ⟨_, rfl⟩
  obtain ⟨down, up⟩ := onGrid_eq_none none below
  obtain ⟨lower, upper⟩ := grid_bounds below
  have size := step_pos b.number
  rw [ofBinary_ratio] at lower upper
  change d * step b.number ≤ b.number at lower
  change b.number < (d + 1 : ℕ) * step b.number at upper
  rw [← le_div_iff₀ size] at lower
  rw [← div_lt_iff₀ size] at upper
  obtain ⟨left, right⟩ := abs_lt.mp close
  push_cast at upper
  have neighbour : m = d ∨ m = d + 1 := by
    have least : d < m + 1 := by
      have : (d : ℚ) < m + 1 := by linarith
      exact_mod_cast this
    have most : m < d + 2 := by
      have : (m : ℚ) < d + 2 := by linarith
      exact_mod_cast this
    omega
  rcases neighbour with rfl | rfl
  · exact absurd ((Binary.contains_iff_near some _ _).mpr near) (by simp [down])
  · exact absurd ((Binary.contains_iff_near some _ _).mpr near) (by simp [up])

theorem onGrid_exponent {i : Interval} {tie : Tie} {k : ℤ} {s : Scientific} (hit : i.onGrid tie k = some s) :
    s.exponent = k := by
  unfold Interval.onGrid at hit
  dsimp only at hit
  split at hit
  · cases hit
  · cases hit
    rfl
  · cases hit
    rfl
  · cases hit
    split <;> rfl

/-- The shortest decimal stands on the first grid that has one. -/
theorem exists_shortest_onGrid {n : ℕ} (few : n < 17) (tie : Tie)
    (hit : (Interval.ofBinary b).onGrid tie (magnitude (Interval.ofBinary b).value (Interval.ofBinary b).den - n) ≠ none) :
    ∃ m ≤ n, (shortest tie b).exponent = magnitude (Interval.ofBinary b).value (Interval.ofBinary b).den - m := by
  rw [shortest]
  split
  · rename_i s found
    obtain ⟨before, m, after, split, here, earlier⟩ := List.findSome?_eq_some_iff.mp found
    refine ⟨m, ?_, onGrid_exponent here⟩
    have sorted := List.pairwise_lt_range (n := 17)
    have member := List.mem_range.mpr few
    rw [split, List.pairwise_append, List.pairwise_cons] at sorted
    rw [split, List.mem_append, List.mem_cons] at member
    rcases member with first | rfl | later
    · exact absurd (earlier n first) hit
    · exact Nat.le_refl n
    · exact (sorted.2.1.1 n later).le
  · rename_i none
    exact absurd (List.findSome?_eq_none_iff.mp none n (List.mem_range.mpr few)) hit

theorem significand_ne_zero (positive : isNegative y = false) (some : 0 < value y) : (Binary.ofFloat y).significand ≠ 0 := by
  intro zero
  rw [value_of_positive positive, Binary.number, zero, Nat.cast_zero, zero_mul] at some
  exact lt_irrefl _ some

/-- What a double is rounded to of the decimals on the grid, it is the nearest one to. -/
theorem close_of_least {n : ℕ} (near : IsNearest y (n * step (value y))) (least : (1 : ℚ) / 10 ^ 5 ≤ value y) :
    |value y / step (value y) - n| < 1 / 2 := by
  have positive : 0 < value y := lt_of_lt_of_le (by positivity) least
  have half := near.half_le (significand_ne_zero near.positive positive)
  exact near.close_on_grid positive (normal_of_least (by linarith))

/-- What a double is the nearest one to of the decimals of fourteen digits is its shortest decimal. -/
theorem shortest_eq {m : ℕ} (near : IsNearest y (m * step (value y))) (least : (1 : ℚ) / 10 ^ 5 ≤ value y) (tie : Tie) :
    ((shortest tie (Binary.ofFloat y)).digits * 10 ^ (shortest tie (Binary.ofFloat y)).exponent : ℚ) = m * step (value y) := by
  have canonical : (Binary.ofFloat y).IsCanonical := Binary.isCanonical_ofBits y.toBits
  obtain ⟨bits, finite⟩ := bits_ofFloat near.finite near.positive
  rw [← bits] at finite
  have number := value_of_positive near.positive
  have some := significand_ne_zero near.positive (lt_of_lt_of_le (by positivity) least)
  have divisor : 0 < (Interval.ofBinary (Binary.ofFloat y)).den := Nat.mul_pos (by decide) (Binary.ofFloat y).den_pos
  have log := magnitude_eq_log canonical some finite divisor (ofBinary_ratio (Binary.ofFloat y))
  have close := close_of_least near least
  have hit := onGrid_ne_none some (number ▸ near.near) (number ▸ close) tie
  obtain ⟨n, few, exponent⟩ := exists_shortest_onGrid (n := 13) (by decide) tie (log ▸ hit)
  have found := shortest_near canonical some finite tie
  generalize shortest tie (Binary.ofFloat y) = s at exponent found
  obtain ⟨t, shift⟩ := Nat.exists_eq_add_of_le few
  have grid : (s.digits * 10 ^ s.exponent : ℚ) = (s.digits * 10 ^ t : ℕ) * step (value y) := by
    have places : s.exponent = Int.log 10 (value y) - 13 + t := by
      rw [exponent, log, number]
      omega
    rw [places, step, zpow_add₀ (by norm_num), zpow_natCast]
    push_cast
    ring
  rw [grid] at found ⊢
  have first := abs_lt.mp close
  have second := abs_lt.mp (close_of_least ⟨near.finite, near.positive, found⟩ least)
  generalize s.digits * 10 ^ t = l at second ⊢
  obtain rfl : l = m := by
    have low : (l : ℚ) < m + 1 := by linarith
    have high : (m : ℚ) < l + 1 := by linarith
    have low : l < m + 1 := by exact_mod_cast low
    have high : m < l + 1 := by exact_mod_cast high
    omega
  rfl

/-- Where the first of fourteen digits stands, for a decimal that is not below a ten-thousandth and has few digits. -/
theorem exponent_bounds {n d k : ℕ} {e : ℤ} (low : 10 ^ 13 ≤ n) (high : n < 10 ^ 14) (few : d < 10 ^ 14)
    (least : 10 ^ k ≤ 10 ^ 4 * d) (same : (n * 10 ^ (e - 13) : ℚ) = d / 10 ^ k) : -4 ≤ e ∧ e < 14 := by
  have low : (10 ^ 13 : ℚ) ≤ n := by exact_mod_cast low
  have high : (n : ℚ) < 10 ^ 14 := by exact_mod_cast high
  have positive : (0 : ℚ) < 10 ^ (e - 13) := by positivity
  constructor
  · by_contra small
    have power : (10 : ℚ) ^ (e - 13) ≤ 10 ^ (-18 : ℤ) := zpow_le_zpow_right₀ (by norm_num) (by omega)
    have product : (n * 10 ^ (e - 13) : ℚ) < 10 ^ 14 * 10 ^ (-18 : ℤ) :=
      mul_lt_mul high power positive (by norm_num)
    have quotient := least_quotient least
    rw [← same] at quotient
    norm_num at product quotient
    linarith
  · by_contra large
    have power : (10 : ℚ) ^ (1 : ℤ) ≤ 10 ^ (e - 13) := zpow_le_zpow_right₀ (by norm_num) (by omega)
    have product : (10 ^ 13 * 10 ^ (1 : ℤ) : ℚ) ≤ n * 10 ^ (e - 13) := mul_le_mul low power (by norm_num) (by linarith)
    have below : (d / 10 ^ k : ℚ) ≤ d := div_le_self (Nat.cast_nonneg d) (one_le_pow₀ (by norm_num))
    have few : (d : ℚ) < 10 ^ 14 := by exact_mod_cast few
    norm_num at product
    linarith

/-- A double that is the nearest one to a decimal of fourteen digits is rounded to it, and it is its shortest decimal. -/
theorem fourteen_digits {d k : ℕ} (near : IsNearest y (d / 10 ^ k)) (few : d < 10 ^ 14) (least : 10 ^ k ≤ 10 ^ 4 * d)
    (tie : Tie) :
    ((shortest tie (Binary.ofFloat y)).digits * 10 ^ (shortest tie (Binary.ofFloat y)).exponent : ℚ) = d / 10 ^ k ∧
      ∃ n e, roundedDigits 13 (Binary.ofFloat y) = (digitChars n, e) ∧ 10 ^ 13 ≤ n ∧ n < 10 ^ 14 ∧
        (n * 10 ^ (e - 13) : ℚ) = d / 10 ^ k := by
  have large := least_value near least
  obtain ⟨m, grid⟩ := exists_on_grid near few least
  rw [grid] at near ⊢
  have positive : 0 < value y := lt_of_lt_of_le (by positivity) large
  obtain ⟨bits, finite⟩ := bits_ofFloat near.finite near.positive
  have canonical : (Binary.ofFloat y).IsCanonical := Binary.isCanonical_ofBits y.toBits
  obtain ⟨n, e, rounded, low, high, closest⟩ := exists_roundedDigits canonical
    (significand_ne_zero near.positive positive) (bits ▸ finite)
  rw [← value_of_positive near.positive] at closest
  exact ⟨shortest_eq near large tie, n, e, rounded, low, high, closest m (close_of_least near large)⟩

end ScriptTools.Decimal
