import ScriptTools.Proofs.Decimal.Whole

/-!
The number that a finite double is. Two doubles that are the same number are equal, and the integer that
a double is read as is that number.
-/

namespace ScriptTools.Decimal

/-! Magnitudes -/

namespace Binary

variable {a b : Binary} {bits : UInt64}

/-- The significand uses all its bits unless the exponent is the smallest. -/
structure IsCanonical (b : Binary) : Prop where
  below : b.significand < 2 ^ 53
  least : -1074 ≤ b.exponent
  normal : -1074 < b.exponent → 2 ^ 52 ≤ b.significand

theorem isCanonical_ofBits (bits : UInt64) : (ofBits bits).IsCanonical := by
  unfold ofBits
  have fraction : bits.toNat % Nat.pow 2 52 < 2 ^ 52 := Nat.mod_lt _ (by decide)
  dsimp only
  split
  · exact ⟨by dsimp only; omega, by dsimp only; omega, fun more => absurd more (Int.lt_irrefl _)⟩
  · refine ⟨?_, ?_, fun _ => ?_⟩ <;> dsimp only [Nat.pow_eq] at fraction ⊢ <;> omega

theorem biased_ofBits (bits : UInt64) : (bits >>> 52).toNat % 2048 = biased bits := by
  rw [UInt64.toNat_shiftRight, Nat.shiftRight_eq_div_pow]
  rfl

/-- A magnitude shows the bits it was read from, but for the sign. -/
theorem ofBits_inj {bits other : UInt64} (same : ofBits bits = ofBits other) :
    bits.toNat % 2 ^ 63 = other.toNat % 2 ^ 63 := by
  have split (n : Nat) : n % 2 ^ 63 = n / 2 ^ 52 % 2048 * 2 ^ 52 + n % 2 ^ 52 := by omega
  have first : bits.toNat % 2 ^ 52 < 2 ^ 52 := Nat.mod_lt _ (by decide)
  have second : other.toNat % 2 ^ 52 < 2 ^ 52 := Nat.mod_lt _ (by decide)
  simp only [ofBits, biased_ofBits, Nat.pow_eq] at same
  rw [split, split]
  change biased bits * _ + _ = biased other * _ + _
  split at same <;> split at same <;> rw [Binary.mk.injEq] at same <;> omega

theorem IsCanonical.eq_of_le (canonical : a.IsCanonical) (canonical' : b.IsCanonical) (some : b.significand ≠ 0)
    (same : a.num * b.den = b.num * a.den) (le : a.exponent ≤ b.exponent) : a = b := by
  obtain ⟨gap, wider⟩ := Int.le.dest le
  have exponents : b.exponent.toNat + (-a.exponent).toNat = gap + (a.exponent.toNat + (-b.exponent).toNat) := by omega
  have shifted : a.significand = b.significand * 2 ^ gap := by
    simp only [num, den, Nat.pow_eq, Nat.mul_assoc, ← Nat.pow_add] at same
    rw [exponents, Nat.pow_add 2 gap, ← Nat.mul_assoc b.significand] at same
    exact Nat.eq_of_mul_eq_mul_right (Nat.two_pow_pos _) same
  cases gap with
  | zero =>
    obtain ⟨_, _⟩ := a
    obtain ⟨_, _⟩ := b
    simp_all
  | succ gap =>
    have full := canonical'.normal (by have := canonical.least; omega)
    have small := canonical.below
    have power := Nat.two_pow_pos gap
    rw [shifted, Nat.pow_succ, ← Nat.mul_assoc] at small
    have := Nat.le_mul_of_pos_right b.significand power
    omega

/-- A magnitude has one form. -/
theorem IsCanonical.ext (canonical : a.IsCanonical) (canonical' : b.IsCanonical) (some : a.num ≠ 0) (some' : b.num ≠ 0)
    (same : a.num * b.den = b.num * a.den) : a = b := by
  have nonzero {c : Binary} (some : c.num ≠ 0) : c.significand ≠ 0 := fun zero => some (by rw [num, zero, Nat.zero_mul])
  rcases Int.le_total a.exponent b.exponent with le | le
  · exact canonical.eq_of_le canonical' (nonzero some') same le
  · exact (canonical'.eq_of_le canonical (nonzero some) same.symm le).symm

end Binary

/-! Numbers -/

variable {x y : Float} {i : Int64}

/-- The number that a finite double is. -/
def value (x : Float) : ℚ :=
  let b := Binary.ofFloat x
  (if isNegative x then -1 else 1) * (b.num / b.den)

theorem toBits_inj (same : x.toBits = y.toBits) : x = y := by rw [← Float.ofBits_toBits x, same, Float.ofBits_toBits]

theorem isNegative_iff (x : Float) : isNegative x = true ↔ 2 ^ 63 ≤ x.toBits.toNat := by
  have bound := x.toBits.toNat_lt
  rw [isNegative, beq_iff_eq, ← UInt64.toNat_inj, UInt64.toNat_shiftRight, Nat.shiftRight_eq_div_pow]
  change _ / 2 ^ 63 = 1 ↔ _
  omega

theorem eq_of_ofFloat (same : Binary.ofFloat x = Binary.ofFloat y) (sign : isNegative x = isNegative y) : x = y := by
  have rest := Binary.ofBits_inj same
  have first := x.toBits.toNat_lt
  have second := y.toBits.toNat_lt
  rw [Bool.eq_iff_iff, isNegative_iff, isNegative_iff] at sign
  refine toBits_inj (UInt64.toNat_inj.mp ?_)
  omega

/-- The size of the number. -/
theorem value_eq (x : Float) : ∃ q : ℚ, 0 ≤ q ∧ q * (Binary.ofFloat x).den = (Binary.ofFloat x).num ∧
    value x = if isNegative x then -q else q := by
  have den : ((Binary.ofFloat x).den : ℚ) ≠ 0 := by exact_mod_cast (Binary.den_pos _).ne'
  refine ⟨(Binary.ofFloat x).num / (Binary.ofFloat x).den, by positivity, div_mul_cancel₀ _ den, ?_⟩
  rw [value]
  split <;> ring

/-- A number other than zero is one double. -/
theorem value_inj (some : value x ≠ 0) (same : value x = value y) : x = y := by
  obtain ⟨p, positive, num, whole⟩ := value_eq x
  obtain ⟨q, positive', num', whole'⟩ := value_eq y
  have sign : isNegative x = isNegative y := by
    by_contra other
    have zero : p = 0 := by
      rw [whole, whole'] at same
      cases first : isNegative x <;> cases second : isNegative y <;> rw [first, second] at same other
      · exact absurd rfl other
      · linarith [show p = -q from same]
      · linarith [show -p = q from same]
      · exact absurd rfl other
    rw [whole, zero] at some
    simp at some
  have size : p = q := by
    rw [whole, whole', sign] at same
    split at same <;> linarith
  subst size
  have nonzero : p ≠ 0 := by
    rintro rfl
    rw [whole] at some
    simp at some
  have cross : (Binary.ofFloat x).num * (Binary.ofFloat y).den = (Binary.ofFloat y).num * (Binary.ofFloat x).den := by
    have cross : ((Binary.ofFloat x).num * (Binary.ofFloat y).den : ℚ) =
        (Binary.ofFloat y).num * (Binary.ofFloat x).den := by
      rw [← num, ← num']
      ring
    exact_mod_cast cross
  have one (z : Float) (product : p * (Binary.ofFloat z).den = (Binary.ofFloat z).num) : (Binary.ofFloat z).num ≠ 0 := by
    have den : ((Binary.ofFloat z).den : ℚ) ≠ 0 := by exact_mod_cast (Binary.den_pos _).ne'
    intro zero
    rw [zero, Nat.cast_zero] at product
    exact (mul_ne_zero nonzero den) product
  exact eq_of_ofFloat ((Binary.isCanonical_ofBits _).ext (Binary.isCanonical_ofBits _) (one x num) (one y num') cross) sign

theorem fitsInt64_iff {n : Int} : fitsInt64 n = true ↔ (Int64.ofInt n).toInt = n := by
  rw [fitsInt64, Bool.and_eq_true, decide_eq_true_iff, decide_eq_true_iff]
  constructor
  · rintro ⟨low, high⟩
    exact Int64.toInt_ofInt_of_le (by omega) (by omega)
  · intro same
    have low := (Int64.ofInt n).le_toInt
    have high := (Int64.ofInt n).toInt_lt
    omega

/-- The integer that a double is read as is the number that it is. -/
theorem whole?_eq_some_iff : whole? x = some i ↔ x.isFinite = true ∧ value x = i.toInt := by
  obtain ⟨q, positive, num, whole⟩ := value_eq x
  have den := (Binary.ofFloat x).den_pos
  rw [whole, whole?]
  generalize (Binary.ofFloat x).num = m at num
  generalize (Binary.ofFloat x).den = d at num den
  have nonzero : (d : ℚ) ≠ 0 := by exact_mod_cast den.ne'
  rw [Option.ite_none_right_eq_some, Option.some_inj, Bool.and_eq_true, Bool.and_eq_true, beq_iff_eq, and_assoc, and_assoc,
    fitsInt64_iff, ← Int.natCast_div]
  refine and_congr_right fun _ => ?_
  constructor
  · rintro ⟨divides, fits, rfl⟩
    have size : q = (m / d : Nat) := by
      refine mul_right_cancel₀ nonzero (num.trans ?_)
      exact_mod_cast (Nat.div_mul_cancel (Nat.dvd_of_mod_eq_zero divides)).symm
    rw [fits, size]
    split <;> push_cast <;> rfl
  · intro same
    have size : q = (i.toInt.natAbs : Nat) := by
      rw [Nat.cast_natAbs, Int.cast_abs, ← same]
      split <;> simp [abs_of_nonneg positive]
    have product : m = i.toInt.natAbs * d := by
      rw [size] at num
      exact_mod_cast num.symm
    have quotient : m / d = i.toInt.natAbs := product ▸ Nat.mul_div_cancel _ den
    have integer : (if isNegative x then -(i.toInt.natAbs : Int) else i.toInt.natAbs) = i.toInt := by
      have cast : ((if isNegative x then -(i.toInt.natAbs : Int) else i.toInt.natAbs : Int) : ℚ) = i.toInt := by
        rw [← same, size]
        split <;> simp
      exact_mod_cast cast
    rw [quotient, integer, Int64.ofInt_toInt]
    exact ⟨product ▸ Nat.mul_mod_left _ d, rfl, rfl⟩

/-! Equality -/

theorem beq_self (number : x.isNaN = false) : (x == x) = true := by
  change (Float.Model.UnpackedFloat.compare (Float.Model.UnpackedFloat.unpack .binary64 x.toModel.toBits.toBitVec)
    (Float.Model.UnpackedFloat.unpack .binary64 x.toModel.toBits.toBitVec) == some .eq) = true
  change (Float.Model.UnpackedFloat.unpack .binary64 x.toModel.toBits.toBitVec).isNaN = false at number
  cases unpacked : Float.Model.UnpackedFloat.unpack .binary64 x.toModel.toBits.toBitVec with
  | notANumber => simp [unpacked, Float.Model.UnpackedFloat.isNaN] at number
  | infinity s => cases s <;> rfl
  | zero => rfl
  | finite s m e => cases s <;> simp [Float.Model.UnpackedFloat.compare]

theorem isNaN_of_isFinite (finite : x.isFinite = true) : x.isNaN = false := by
  change (Float.Model.UnpackedFloat.unpack .binary64 x.toModel.toBits.toBitVec).isFinite = true at finite
  change (Float.Model.UnpackedFloat.unpack .binary64 x.toModel.toBits.toBitVec).isNaN = false
  cases unpacked : Float.Model.UnpackedFloat.unpack .binary64 x.toModel.toBits.toBitVec with
  | notANumber => simp [unpacked, Float.Model.UnpackedFloat.isFinite] at finite
  | _ => rfl

/-- Zero is two doubles. -/
theorem eq_zero_of_value (zero : value x = 0) : x = Float.ofBits 0 ∨ x = Float.ofBits 0x8000000000000000 := by
  obtain ⟨q, positive, num, whole⟩ := value_eq x
  have none : q = 0 := by
    rw [whole] at zero
    split at zero <;> linarith
  have significand : (Binary.ofFloat x).significand = 0 := by
    rw [none, zero_mul, eq_comm, Nat.cast_eq_zero, Binary.num] at num
    exact (Nat.mul_eq_zero.mp num).resolve_right (Nat.two_pow_pos _).ne'
  have canonical : (Binary.ofFloat x).IsCanonical := Binary.isCanonical_ofBits x.toBits
  have exponent : (Binary.ofFloat x).exponent = -1074 := by
    have least := canonical.least
    by_contra other
    have full := canonical.normal (by omega)
    omega
  have magnitude : Binary.ofFloat x = ⟨0, -1074⟩ := by rw [← significand, ← exponent]
  cases sign : isNegative x with
  | false => exact .inl (eq_of_ofFloat (magnitude.trans rfl) (sign.trans rfl))
  | true => exact .inr (eq_of_ofFloat (magnitude.trans rfl) (sign.trans rfl))

/-- An integer that a double holds exactly gives back an equal number. -/
theorem ofInt_beq (whole : whole? x = some i) (exact : i.toInt.natAbs ≤ 2 ^ 53) : (ofInt i.toInt == x) = true := by
  obtain ⟨finite, number⟩ := whole?_eq_some_iff.mp whole
  by_cases zero : i.toInt = 0
  · rw [zero, Int.cast_zero] at number
    rw [zero]
    rcases eq_zero_of_value number with rfl | rfl <;> rfl
  · have back := whole?_ofInt exact
    rw [Int64.ofInt_toInt, whole?_eq_some_iff] at back
    have some : value x ≠ 0 := by
      rw [number]
      exact_mod_cast zero
    rw [← value_inj some (number.trans back.2.symm)]
    exact beq_self (isNaN_of_isFinite finite)

/-- The double of an integer that it holds exactly; zero has no sign. -/
theorem eq_ofInt_iff {n : Int} (exact : n.natAbs ≤ 2 ^ 53) :
    x = ofInt n ↔ x.isFinite = true ∧ value x = n ∧ isNegative x = decide (n < 0) := by
  have back := whole?_ofInt exact
  rw [whole?_eq_some_iff, Int64.toInt_ofInt_of_le (by omega) (by omega)] at back
  by_cases zero : n = 0
  · subst zero
    have sign : isNegative (ofInt 0) = false := rfl
    constructor
    · rintro rfl
      exact ⟨back.1, back.2, sign⟩
    · rintro ⟨_, number, positive⟩
      rcases eq_zero_of_value (number.trans Int.cast_zero) with rfl | rfl
      · rfl
      · exact absurd (positive.symm.trans (rfl : isNegative (Float.ofBits 0x8000000000000000) = true)) (by decide)
  · constructor
    · rintro rfl
      exact ⟨back.1, back.2, isNegative_ofInt zero exact⟩
    · rintro ⟨_, number, _⟩
      have some : value x ≠ 0 := by
        rw [number]
        exact_mod_cast zero
      exact value_inj some (number.trans back.2.symm)

end ScriptTools.Decimal
