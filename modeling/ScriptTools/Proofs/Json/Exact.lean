import ScriptTools.Proofs.Decimal.Scaled
import ScriptTools.Proofs.Json.Number
import ScriptTools.Proofs.Json.Values

/-!
The number that a JSON number writes, and the integer that it is read as. A number that is written as an integer of 64 bits
is that integer, and one with few digits and a small power of ten is an integer just when it is read as one. Other numbers
pass through a double and may come out as an integer that they are not.
-/

namespace ScriptTools.Json.NumberToken

open Decimal (IsNearest value whole? isNegative)

variable {n : NumberToken}

/-- The digits without the point, as one number. -/
def significand (n : NumberToken) : ℕ := Decimal.natOfDigits (n.whole ++ n.fraction)

/-- The exponent that is written. -/
def power (n : NumberToken) : ℤ :=
  match n.exponent with
  | none => 0
  | some (down, ds) => if down then -(Decimal.natOfDigits ds : ℤ) else Decimal.natOfDigits ds

/-- The power of ten that the significand is multiplied with. -/
def shift (n : NumberToken) : ℤ := n.power - n.fraction.length

/-- The number that is written. -/
def exact (n : NumberToken) : ℚ := (if n.negative then -1 else 1) * (n.significand * 10 ^ n.shift)

/-- Whether a number is read as a double that is another number, and that number an integer of 64 bits. -/
def Misread (n : NumberToken) : Prop :=
  ∃ x i, n.value? = some (.float x) ∧ whole? x = some i ∧ n.exact ≠ i.toInt

/-- Whether doubles hold the digits of a number, its power of ten and the number if it is an integer. -/
structure Short (n : NumberToken) : Prop where
  digits : n.significand < 2 ^ 53
  shift : n.shift.natAbs ≤ 22
  size : |n.exact| ≤ 2 ^ 53

theorem exact_of_whole (fraction : n.fraction = []) (exponent : n.exponent = none) : n.exact = n.integer := by
  have shift : n.shift = 0 := by rw [NumberToken.shift, power, fraction, exponent]; rfl
  rw [exact, significand, shift, fraction, List.append_nil, integer]
  cases n.negative <;> simp

/-! Short numbers -/

/-- A small integer is scaled by a small power of ten to a double that is an integer just when the product is that
integer. -/
theorem scale_short {s : ℕ} {e : ℤ} (small : s < 2 ^ 53) (near : e.natAbs ≤ 22) (size : (s * 10 ^ e : ℚ) ≤ 2 ^ 53) :
    ∃ y, scale 4 (UInt64.ofNat s).toFloat e = some y ∧ y.isFinite = true ∧ ∀ i : ℤ, value y = i ↔ (s * 10 ^ e : ℚ) = i := by
  have steps : e.natAbs ≤ 308 := near.trans (by decide)
  rw [scale, if_pos steps]
  rcases lt_or_ge e 0 with below | above
  · obtain ⟨k, rfl⟩ : ∃ k : ℕ, e = -k := ⟨(-e).toNat, by omega⟩
    obtain ⟨finite, integers⟩ := Decimal.value_div_power_iff small (k := k) (by omega)
    rw [if_neg (not_le.mpr below), neg_neg, zpow_neg, zpow_natCast, ← div_eq_mul_inv]
    exact ⟨_, rfl, finite, integers⟩
  · obtain ⟨k, rfl⟩ := Int.eq_ofNat_of_zero_le above
    rw [zpow_natCast] at size ⊢
    obtain ⟨finite, product⟩ := Decimal.value_mul_power (s := s) (k := k) (by exact_mod_cast size) (by omega)
    rw [if_pos above]
    dsimp only
    rw [Decimal.isInf_of_isFinite finite]
    refine ⟨_, rfl, finite, fun i => ?_⟩
    rw [product]
    push_cast
    rfl

theorem value?_of_lt (small : n.significand < bound) (other : n.fraction ≠ [] ∨ n.exponent ≠ none) :
    n.value? = (finish n.negative n.significand (-n.fraction.length) n.exponent).map .float := by
  have split : n.significand = continued (Decimal.natOfDigits n.whole) n.fraction := by
    rw [significand, Decimal.natOfDigits, List.foldl_append]
    rfl
  rw [split] at small
  have first : takeDigits 0 0 n.whole = (Decimal.natOfDigits n.whole, 0 + n.whole.length, []) :=
    takeDigits_of_lt ((le_continued _ n.fraction).trans_lt small)
  have second : takeDigits (Decimal.natOfDigits n.whole) 0 n.fraction = (_, 0 + n.fraction.length, []) := takeDigits_of_lt small
  have written : (n.fraction.isEmpty && n.exponent.isNone) = false := by
    rw [Bool.and_eq_false_iff, List.isEmpty_eq_false_iff, Option.isNone_eq_false_iff, Option.isSome_iff_ne_none]
    exact other
  simp only [value?, first, second, written, split, Bool.and_assoc, Bool.and_false, Bool.false_eq_true, if_false]
  simp

/-- A double that is an integer just when a number is that integer stays so with a sign. -/
theorem value_signed {y : Float} {q : ℚ} (negative : Bool) (finite : y.isFinite = true)
    (integers : ∀ i : ℤ, value y = i ↔ q = i) :
    (if negative then -y else y).isFinite = true ∧
      ∀ i : ℤ, value (if negative then -y else y) = i ↔ (if negative then -1 else 1) * q = i := by
  cases negative with
  | false => simpa using ⟨finite, integers⟩
  | true =>
    refine ⟨Decimal.isFinite_neg finite, fun i => ?_⟩
    have turned := integers (-i)
    rw [Int.cast_neg] at turned
    rw [if_pos rfl, if_pos rfl, Decimal.value_neg finite, neg_one_mul, neg_eq_iff_eq_neg, neg_eq_iff_eq_neg]
    exact turned

theorem value_zero : (0 : Float).isFinite = true ∧ value 0 = 0 := by
  have whole : whole? 0 = some 0 := by decide +kernel
  obtain ⟨finite, zero⟩ := Decimal.whole?_eq_some_iff.mp whole
  exact ⟨finite, by simpa using zero⟩

theorem abs_exact (n : NumberToken) : |n.exact| = n.significand * 10 ^ n.shift := by
  have magnitude : (0 : ℚ) ≤ n.significand * 10 ^ n.shift := by positivity
  rw [exact, abs_mul, abs_of_nonneg magnitude]
  cases n.negative <;> simp

/-- An integer is read as a double only if it is a zero with a sign. -/
theorem value_of_whole {x : Float} (fraction : n.fraction = []) (exponent : n.exponent = none)
    (small : n.significand < 2 ^ 53) (read : n.value? = some (.float x)) : x.isFinite = true ∧ value x = 0 ∧ n.exact = 0 := by
  have digits : n.significand = Decimal.natOfDigits n.whole := by rw [significand, fraction, List.append_nil]
  rw [value?_of_integer fraction exponent (by rw [← digits]; exact small.trans (by decide))] at read
  split at read
  · cases read
  · split at read
    · rename_i zero
      cases read
      obtain ⟨finite, none⟩ := Decimal.whole?_eq_some_iff.mp Decimal.whole?_negativeZero
      refine ⟨finite, by simpa using none, ?_⟩
      rw [exact_of_whole fraction exponent, integer, zero]
      simp
    · rw [if_pos (by rw [← digits, Nat.pow_eq]; omega)] at read
      cases read

/-- What the digits of a short number are scaled to is an integer just when the number is that integer. -/
theorem value_of_finish {x : Float} (short : n.Short)
    (run : finish n.negative n.significand (-n.fraction.length) n.exponent = some x) :
    x.isFinite = true ∧ ∀ i : ℤ, value x = i ↔ n.exact = i := by
  obtain ⟨small, near, size⟩ := short
  rw [abs_exact] at size
  have scaled {e : ℤ} (power : n.shift = e)
      (read : (scale 4 (UInt64.ofNat n.significand).toFloat e).map (fun x => if n.negative then -x else x) = some x) :
      x.isFinite = true ∧ ∀ i : ℤ, value x = i ↔ n.exact = i := by
    subst power
    obtain ⟨y, run, finite, integers⟩ := scale_short small near size
    rw [run] at read
    cases read
    exact value_signed n.negative finite integers
  rw [finish.eq_def] at run
  dsimp only at run
  split at run
  · rename_i none
    refine scaled ?_ run
    rw [shift, power, none]
    simp
  · rename_i down ds exponent
    have power : n.power = if down then -(Decimal.natOfDigits ds : ℤ) else Decimal.natOfDigits ds := by
      rw [power, exponent]
    split at run
    · rename_i large
      rw [exponentBound, Nat.pow_eq] at large
      split at run
      · cases run
      · rename_i other
        cases run
        -- So large an exponent is not short, and so the digits are zeros.
        have zero : n.significand = 0 := by
          by_contra some
          have negative : down = true := by simpa [some] using other
          rw [shift, power, if_pos negative] at near
          omega
        obtain ⟨finite, none⟩ := value_zero
        have signed := value_signed n.negative (q := 0) finite fun i => by rw [none]
        rwa [exact, zero, Nat.cast_zero, zero_mul]
    · refine scaled ?_ run
      rw [shift, power]
      split <;> ring

/-- A short number is read as a double that is an integer just when the number is that integer. -/
theorem value_of_short {x : Float} (short : n.Short) (read : n.value? = some (.float x)) :
    x.isFinite = true ∧ ∀ i : ℤ, value x = i ↔ n.exact = i := by
  by_cases written : n.fraction = [] ∧ n.exponent = none
  · obtain ⟨finite, none, zero⟩ := value_of_whole written.1 written.2 short.digits read
    exact ⟨finite, fun i => by rw [none, zero]⟩
  · rw [value?_of_lt (short.digits.trans (by decide)) (by tauto), Option.map_eq_some_iff] at read
    obtain ⟨_, run, same⟩ := read
    cases same
    exact value_of_finish short run

/-! Integers -/

theorem digitValue_le {c : Char} (digit : c.isDigit = true) : Decimal.digitValue c ≤ 9 :=
  of_decide_eq_true (Decimal.of_isDigit (p := fun c => decide (Decimal.digitValue c ≤ 9)) (by decide) digit)

/-- The digits that are taken in fit, and with one more they do not. -/
theorem takeDigits_bounds (start taken : ℕ) {ds : List Char} (fits : start < bound)
    (digits : ∀ d ∈ ds, d.isDigit = true) :
    (takeDigits start taken ds).1 < bound ∧
      ((takeDigits start taken ds).2.2 ≠ [] → bound ≤ (takeDigits start taken ds).1 * 10 + 9) := by
  induction ds generalizing start taken with
  | nil => exact ⟨fits, fun some => absurd rfl some⟩
  | cons d ds ih =>
    rw [takeDigits]
    split
    · rename_i next
      exact ih _ _ next fun c member => digits c (List.mem_cons_of_mem _ member)
    · rename_i full
      have unit := digitValue_le (digits d (List.mem_cons_self ..))
      exact ⟨fits, fun _ => by dsimp only; omega⟩

/-- An integer with too many digits is read as a double out of range, if as anything. -/
theorem scale_large {s k : ℕ} {y : Float} (fits : s < bound) (large : bound ≤ s * 10 + 9) (some : k ≠ 0)
    (run : scale 4 (UInt64.ofNat s).toFloat k = .some y) : y.isFinite = true ∧ 2 ^ 63 < value y := by
  rw [bound, Nat.pow_eq] at fits large
  rw [scale] at run
  by_cases small : k ≤ 308
  · rw [if_pos (by omega), if_pos (Int.natCast_nonneg k)] at run
    dsimp only at run
    rcases Decimal.lt_value_mul_power fits large some small with infinite | ⟨finite, above⟩
    · rw [infinite, show Decimal.infinity.isInf = true by decide] at run
      cases run
    · rw [Decimal.isInf_of_isFinite finite] at run
      cases run
      exact ⟨finite, above⟩
  · have one : (1 : ℚ) ≤ s := by exact_mod_cast (by omega : 1 ≤ s)
    rw [if_neg (by omega), Decimal.beq_zero (Decimal.ofNat_near fits) one, if_neg Bool.false_ne_true,
      if_pos (Int.natCast_nonneg k)] at run
    cases run

theorem whole?_of_large {x : Float} (number : Token.IsNumber n) (fraction : n.fraction = []) (exponent : n.exponent = none)
    (large : bound ≤ Decimal.natOfDigits n.whole) (read : n.value? = some (.float x)) : whole? x = none := by
  obtain ⟨⟨s, count, left⟩, taken⟩ : ∃ taken, takeDigits 0 0 n.whole = taken := ⟨_, rfl⟩
  have bounds := takeDigits_bounds 0 0 (by decide) number.whole
  have some : left ≠ [] := by
    intro all
    have last : (takeDigits 0 0 n.whole).2.2 = [] := by rw [taken, all]
    exact absurd (lt_of_takeDigits (by decide) last) (Nat.not_lt.mpr large)
  rw [taken] at bounds
  obtain ⟨fits, rest⟩ := bounds
  have scaled : (scale 4 (UInt64.ofNat s).toFloat left.length).map (fun x => if n.negative then -x else x) = .some x := by
    simpa [value?, taken, fraction, exponent, some, takeDigits, finish.eq_def] using read
  obtain ⟨y, run, rfl⟩ := Option.map_eq_some_iff.mp scaled
  obtain ⟨finite, above⟩ := scale_large fits (rest some) (mt List.length_eq_zero_iff.mp some) run
  rw [Option.eq_none_iff_forall_ne_some]
  intro i whole
  have number := (Decimal.whole?_eq_some_iff.mp whole).2
  have least : (-2 ^ 63 : ℚ) ≤ i.toInt := by exact_mod_cast i.le_toInt
  have most : (i.toInt : ℚ) < 2 ^ 63 := by exact_mod_cast i.toInt_lt
  split at number
  · rw [Decimal.value_neg finite] at number
    linarith
  · linarith

/-- A negative integer with digits of 64 bits is read as the least one of the range when it is closer to it than to the next
double. -/
theorem misread_of_negative (negative : n.negative = true) (fraction : n.fraction = []) (exponent : n.exponent = none)
    (above : 2 ^ 63 < Decimal.natOfDigits n.whole) (fits : Decimal.natOfDigits n.whole < 2 ^ 64) :
    n.Misread ↔ Decimal.natOfDigits n.whole ≤ 2 ^ 63 + 1024 := by
  have near := Decimal.ofNat_near fits
  have written : n.exact = -(Decimal.natOfDigits n.whole : ℚ) := by
    rw [exact_of_whole fraction exponent, integer, negative]
    simp
  have read : n.value? = some (.float (-(UInt64.ofNat (Decimal.natOfDigits n.whole)).toFloat)) := by
    rw [value?_of_integer fraction exponent fits, if_neg (by simp [negative]), if_neg (by omega),
      if_neg (by rw [Nat.pow_eq]; omega)]
  have turned := Decimal.value_neg near.finite
  rw [← near.value_le_iff]
  constructor
  · rintro ⟨x, i, same, whole, _⟩
    cases read.symm.trans same
    have number := (Decimal.whole?_eq_some_iff.mp whole).2
    have least : (-2 ^ 63 : ℚ) ≤ i.toInt := by exact_mod_cast i.le_toInt
    rw [turned] at number
    linarith
  · intro most
    refine ⟨_, Int64.minValue, read, Decimal.whole?_eq_some_iff.mpr ⟨Decimal.isFinite_neg near.finite, ?_⟩, ?_⟩
    · rw [turned, le_antisymm most (near.le_value above.le)]
      rfl
    · have cast : (2 ^ 63 : ℚ) < Decimal.natOfDigits n.whole := by exact_mod_cast above
      have least : (Int64.minValue.toInt : ℚ) = -2 ^ 63 := rfl
      rw [written, least]
      exact (neg_lt_neg cast).ne

/-- An integer that becomes one of the range through a double is that one, unless it is negative and its digits make up an
integer of 64 bits out of the range. -/
theorem exact_of_double {x : Float} {i : Int64} (number : Token.IsNumber n) (fraction : n.fraction = [])
    (exponent : n.exponent = none) (read : n.value? = some (.float x)) (whole : whole? x = some i)
    (outside : n.negative = true → 2 ^ 63 < Decimal.natOfDigits n.whole → 2 ^ 64 ≤ Decimal.natOfDigits n.whole) :
    n.exact = i.toInt := by
  rcases lt_or_ge (Decimal.natOfDigits n.whole) bound with fits | large
  · rw [value?_of_integer fraction exponent fits] at read
    split at read
    · cases read
    · rename_i negative
      split at read
      · rename_i zero
        cases read
        cases Decimal.whole?_negativeZero.symm.trans whole
        rw [exact_of_whole fraction exponent, integer, zero]
        simp
      · split at read
        · cases read
        · rename_i above
          exact absurd fits (Nat.not_lt.mpr (outside (by simpa using negative) (not_le.mp above)))
  · cases (whole?_of_large number fraction exponent large read).symm.trans whole

/-- An integer is misread when it is just below the range. -/
theorem misread_iff_of_whole (number : Token.IsNumber n) (fraction : n.fraction = []) (exponent : n.exponent = none) :
    n.Misread ↔ -(2 ^ 63 + 1024) ≤ n.exact ∧ n.exact < -2 ^ 63 := by
  obtain ⟨s, digits⟩ : ∃ s, s = Decimal.natOfDigits n.whole := ⟨_, rfl⟩
  have written : n.exact = if n.negative then -(s : ℚ) else s := by
    rw [exact_of_whole fraction exponent, integer, ← digits]
    split <;> push_cast <;> rfl
  by_cases middle : n.negative = true ∧ 2 ^ 63 < s ∧ s < 2 ^ 64
  · obtain ⟨negative, above, fits⟩ := middle
    rw [misread_of_negative negative fraction exponent (digits ▸ above) (digits ▸ fits), written, if_pos negative, ← digits,
      neg_le_neg_iff, neg_lt_neg_iff]
    have cast : (2 ^ 63 : ℚ) < s := by exact_mod_cast above
    rw [and_iff_left cast]
    exact_mod_cast Iff.rfl
  · refine iff_of_false ?_ ?_
    · rintro ⟨x, i, read, whole, other⟩
      refine other (exact_of_double number fraction exponent read whole fun negative above => ?_)
      rw [← digits] at above ⊢
      exact not_lt.mp fun fits => middle ⟨negative, above, fits⟩
    · rintro ⟨low, high⟩
      rw [written] at low high
      split at low
      · rename_i negative
        rw [if_pos negative, neg_lt_neg_iff] at high
        have above : 2 ^ 63 < s := by exact_mod_cast high
        have below : s ≤ 2 ^ 63 + 1024 := by exact_mod_cast neg_le_neg_iff.mp low
        exact middle ⟨negative, above, by omega⟩
      · rename_i positive
        rw [if_neg positive] at high
        have size : (0 : ℚ) ≤ s := Nat.cast_nonneg s
        linarith

end ScriptTools.Json.NumberToken
