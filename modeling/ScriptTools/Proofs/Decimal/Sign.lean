import ScriptTools.Proofs.Decimal.Value

/-!
The sign of a double. Negating a finite double turns its sign and leaves its magnitude.
-/

namespace ScriptTools.Decimal

section Bits

open Float.Model (Format UnpackedFloat)
open Float.Model.UnpackedFloat

variable {x : Float}

theorem biased_of_isFinite (finite : x.isFinite = true) : biased x.toBits ≠ 2047 := by
  intro same
  change (UnpackedFloat.unpack .binary64 x.toModel.toBits.toBitVec).isFinite = true at finite
  change x.toModel.toBits.toNat / 2 ^ 52 % 2048 = 2047 at same
  have exponent : @unpackExponent .binary64 x.toModel.toBits.toBitVec = -1#11 := by
    refine BitVec.eq_of_toNat_eq ?_
    simpa [unpackExponent, BitVec.extractLsb, BitVec.extractLsb'_toNat, Nat.shiftRight_eq_div_pow] using same
  rw [UnpackedFloat.unpack] at finite
  dsimp only at finite
  rw [if_pos exponent] at finite
  split at finite <;> cases finite

theorem append_toNat {n k : Nat} (a : BitVec n) (b : BitVec k) : (a ++ b).toNat = a.toNat * 2 ^ k + b.toNat := by
  rw [BitVec.toNat_append, ← Nat.shiftLeft_add_eq_or_of_lt b.isLt, Nat.shiftLeft_eq]

/-- The bits of a float with the other sign. -/
theorem pack_neg {u : UnpackedFloat} (number : u.isNaN = false) :
    (UnpackedFloat.pack .binary64 u.neg).toNat = ((UnpackedFloat.pack .binary64 u).toNat + 2 ^ 63) % 2 ^ 64 := by
  have parts (s : Sign) (e : BitVec 11) (m : BitVec 52) :
      (packComponents .binary64 (-s) e m).toNat = ((packComponents .binary64 s e m).toNat + 2 ^ 63) % 2 ^ 64 := by
    have bits : (e ++ m).toNat < 2 ^ 63 := (e ++ m).isLt
    have whole (s : Sign) : (packComponents .binary64 s e m).toNat = s.toBitVec.toNat * 2 ^ 63 + (e ++ m).toNat := by
      change (s.toBitVec ++ e ++ m).toNat = _
      rw [append_toNat, append_toNat, append_toNat]
      omega
    rw [whole, whole]
    cases s with
    | negative =>
      change (0 * _ + _) = (1 * _ + _ + _) % _
      omega
    | positive =>
      change (1 * _ + _) = (0 * _ + _ + _) % _
      omega
  cases u with
  | notANumber => cases number
  | infinity s => exact parts s _ _
  | zero s => exact parts s _ _
  | finite s m e some =>
    simp only [UnpackedFloat.neg, UnpackedFloat.pack]
    split
    · exact parts s _ _
    · split
      · exact parts s _ _
      · exact parts s _ _

theorem toBits_neg (finite : x.isFinite = true) : (-x).toBits.toNat = (x.toBits.toNat + 2 ^ 63) % 2 ^ 64 := by
  have turned := pack_neg (isNaN_of_isFinite finite)
  change (UnpackedFloat.pack .binary64 (UnpackedFloat.unpack .binary64 x.toBits.toBitVec).neg).toNat =
    ((UnpackedFloat.pack .binary64 (UnpackedFloat.unpack .binary64 x.toBits.toBitVec)).toNat + 2 ^ 63) % 2 ^ 64 at turned
  rw [pack_unpack (unpackExponent_ne (biased_of_isFinite finite))] at turned
  exact turned

end Bits

variable {x : Float}

theorem isNegative_neg (finite : x.isFinite = true) : isNegative (-x) = !isNegative x := by
  have bound := x.toBits.toNat_lt
  rw [Bool.eq_not_iff, ne_eq, Bool.eq_iff_iff, isNegative_iff, isNegative_iff, toBits_neg finite]
  omega

theorem biased_neg (finite : x.isFinite = true) : biased (-x).toBits = biased x.toBits := by
  have bound := x.toBits.toNat_lt
  rw [biased, biased, toBits_neg finite]
  omega

theorem isFinite_neg (finite : x.isFinite = true) : (-x).isFinite = true := by
  rw [← Float.ofBits_toBits (-x)]
  exact isFinite_ofBits (biased_neg finite ▸ biased_of_isFinite finite)

theorem neg_neg_of_isFinite (finite : x.isFinite = true) : - -x = x := by
  have bound := x.toBits.toNat_lt
  refine toBits_inj (UInt64.toNat_inj.mp ?_)
  rw [toBits_neg (isFinite_neg finite), toBits_neg finite]
  omega

theorem ofFloat_neg (finite : x.isFinite = true) : Binary.ofFloat (-x) = Binary.ofFloat x := by
  have fraction : (x.toBits.toNat + 2 ^ 63) % 2 ^ 64 % 2 ^ 52 = x.toBits.toNat % 2 ^ 52 := by omega
  simp only [Binary.ofFloat, Binary.ofBits, Binary.biased_ofBits, biased_neg finite, Nat.pow_eq]
  rw [toBits_neg finite, fraction]

/-- The bits of what is nearest to a quotient have no sign, and are those of infinity or of a finite double. -/
theorem nearestBits_le (num den : Nat) :
    (nearestBits num den).toNat < 0x7FF0000000000000 ∨ nearestBits num den = 0x7FF0000000000000 := by
  have clipped (bits : Nat) :
      (if bits < 0x7FF0000000000000 then UInt64.ofNat bits else 0x7FF0000000000000).toNat < 0x7FF0000000000000 ∨
        (if bits < 0x7FF0000000000000 then UInt64.ofNat bits else 0x7FF0000000000000) = 0x7FF0000000000000 := by
    split
    · rename_i below
      rw [UInt64.toNat_ofNat', Nat.mod_eq_of_lt (by omega)]
      exact .inl below
    · exact .inr rfl
  rw [nearestBits]
  split
  · exact .inl (by decide)
  · exact clipped _

theorem nearest_positive (num den : Nat) : nearest false num den = Float.ofBits (nearestBits num den) := by
  simp only [nearest, Bool.false_eq_true, if_false]

theorem toBits_nearest {num den : Nat} (finite : (nearest false num den).isFinite = true) :
    (nearest false num den).toBits = nearestBits num den ∧ (nearestBits num den).toNat < 0x7FF0000000000000 := by
  rw [nearest_positive] at finite ⊢
  rcases nearestBits_le num den with below | infinite
  · refine ⟨toBits_ofBits ?_, below⟩
    rw [biased]
    omega
  · rw [infinite] at finite
    exact absurd finite (by decide)

theorem nearest_eq_infinity_or (num den : Nat) :
    nearest false num den = Float.ofBits 0x7FF0000000000000 ∨
      (nearest false num den).isFinite = true ∧ isNegative (nearest false num den) = false := by
  rcases nearestBits_le num den with below | infinite
  · have finite : (nearest false num den).isFinite = true := by
      rw [nearest_positive]
      refine isFinite_ofBits ?_
      rw [biased]
      omega
    refine .inr ⟨finite, ?_⟩
    rw [← Bool.not_eq_true, isNegative_iff, (toBits_nearest finite).1]
    omega
  · rw [nearest_positive, infinite]
    exact .inl rfl

theorem ofScientific_eq_nearest (negative : Bool) (digits : Nat) (e : Int) :
    ∃ num den, ofScientific negative digits e = nearest negative num den := by
  rw [ofScientific]
  split
  · exact ⟨_, _, rfl⟩
  · split
    · exact ⟨_, _, rfl⟩
    · exact ⟨_, _, rfl⟩

end ScriptTools.Decimal
