import Mathlib
import ScriptTools.Proofs.Decimal.Notation
import ScriptTools.Proofs.Guest.Numeral

/-!
The written form of a double is a decimal text with a point or an exponent, after its sign. The places that its digits stand
at keep their value.
-/

namespace ScriptTools.Decimal

open Guest.Number (FloatText Mantissa)

theorem natOfDigits_append (ds es : List Char) :
    natOfDigits (ds ++ es) = 10 ^ es.length * natOfDigits ds + natOfDigits es := by
  rw [natOfDigits_eq, natOfDigits_eq, natOfDigits_eq, Nat.ofDigitChars_append, Nat.ofDigitChars_eq_ofDigitChars_zero]

theorem natOfDigits_append_zeros (ds : List Char) (n : Nat) :
    natOfDigits (ds ++ List.replicate n '0') = 10 ^ n * natOfDigits ds := by
  rw [natOfDigits_append, natOfDigits_zeros, List.length_replicate, Nat.add_zero]

/-- Digits with a point among them: what stands before it and what stands behind. -/
theorem placePoint_parts {ds : List Char} {e : ℤ} (digits : ∀ d ∈ ds, d.isDigit = true) (some : e ≠ 0 → ds ≠ []) :
    ∃ whole fraction, (∀ d ∈ whole, d.isDigit = true) ∧ (∀ d ∈ fraction, d.isDigit = true) ∧ whole ≠ [] ∧
      (natOfDigits (whole ++ fraction) * 10 ^ (-fraction.length : ℤ) : ℚ) = natOfDigits ds * 10 ^ (e + 1 - ds.length) ∧
      ∀ pointZero, placePoint ds e pointZero =
        if fraction = [] then (if pointZero then whole ++ ['.', '0'] else whole) else whole ++ '.' :: fraction := by
  by_cases negative : e < 0
  · have fraction : ∀ d ∈ List.replicate ((-e).toNat - 1) '0' ++ ds, d.isDigit = true := by
      intro d member
      rcases List.mem_append.mp member with zero | digit
      · exact isDigit_of_mem_zeros d zero
      · exact digits d digit
    have value : natOfDigits (['0'] ++ (List.replicate ((-e).toNat - 1) '0' ++ ds)) = natOfDigits ds := by
      rw [natOfDigits_append, natOfDigits_append, natOfDigits_zeros]
      simp [natOfDigits, digitValue]
    refine ⟨['0'], _, by simp, fraction, by simp, ?_, fun pointZero => ?_⟩
    · rw [value, List.length_append, List.length_replicate]
      congr 2
      omega
    · rw [placePoint, if_pos negative, if_neg (by simp [some negative.ne])]
      rfl
  · obtain ⟨n, rfl⟩ : ∃ n : ℕ, e = n := ⟨e.toNat, by omega⟩
    by_cases length : ds.length ≤ n + 1
    · refine ⟨ds ++ List.replicate (n + 1 - ds.length) '0', [], ?_, by simp, ?_, ?_, fun pointZero => ?_⟩
      · intro d member
        rcases List.mem_append.mp member with digit | zero
        · exact digits d digit
        · exact isDigit_of_mem_zeros d zero
      · rw [← List.length_pos_iff, List.length_append, List.length_replicate]
        omega
      · have shift : (n + 1 - ds.length : ℤ) = (n + 1 - ds.length : ℕ) := by omega
        rw [List.append_nil, natOfDigits_append_zeros, shift, zpow_natCast, List.length_nil, Nat.cast_zero, neg_zero, zpow_zero]
        push_cast
        ring
      · rw [placePoint, if_neg negative, if_pos rfl, Int.toNat_natCast]
        dsimp only
        rw [List.take_of_length_le length, List.drop_eq_nil_of_le length]
        rfl
    · have long : n + 1 < ds.length := by omega
      refine ⟨ds.take (n + 1), ds.drop (n + 1), fun d member => digits d (List.mem_of_mem_take member),
        fun d member => digits d (List.mem_of_mem_drop member), ?_, ?_, fun pointZero => ?_⟩
      · rw [← List.length_pos_iff, List.length_take]
        omega
      · rw [List.take_append_drop, List.length_drop]
        congr 2
        omega
      · have none : n + 1 - (ds.take (n + 1)).length = 0 := by
          rw [List.length_take]
          omega
        have more : ds.drop (n + 1) ≠ [] := by simpa using long
        rw [placePoint, if_neg negative, if_neg more, Int.toNat_natCast]
        dsimp only
        rw [none, List.replicate_zero, List.append_nil, if_neg (by simpa using more)]

theorem placePoint_floatText {ds : List Char} {e : ℤ} (digits : ∀ d ∈ ds, d.isDigit = true) (some : e ≠ 0 → ds ≠ []) :
    FloatText (placePoint ds e true) := by
  obtain ⟨whole, fraction, before, after, nonempty, _, text⟩ := placePoint_parts digits some
  rw [text]
  split
  · exact .point nonempty before (by simp : ['0'] ≠ []) (by simp)
  · rename_i more
    exact .point nonempty before more after

theorem placeExponent_floatText {ds : List Char} {e : Int} (some : ds ≠ []) (digits : ∀ d ∈ ds, d.isDigit = true) :
    FloatText (placeExponent ds e false) := by
  have sign : (if e < 0 then ['-'] else []) = [] ∨ (if e < 0 then ['-'] else []) = ['-'] := by
    split
    · exact .inr rfl
    · exact .inl rfl
  have exponent : ∀ d ∈ digitChars e.natAbs, d.isDigit = true := fun d => isDigit_of_mem_digitChars
  match ds with
  | [] => exact absurd rfl some
  | [d] => exact .exponent (.whole some digits) sign (digitChars_ne_nil _) exponent
  | d :: c :: more =>
    have first : ∀ e ∈ [d], e.isDigit = true := by
      intro e member
      rw [List.mem_singleton.mp member]
      exact digits d (by simp)
    have mantissa : Mantissa ([d] ++ '.' :: c :: more) :=
      .point (by simp) first (by simp) fun e member => digits e (List.mem_cons_of_mem _ member)
    exact .exponent mantissa sign (digitChars_ne_nil _) exponent

theorem placed_floatText {ds : List Char} {e : Int} (digits : ∀ d ∈ ds, d.isDigit = true) (some : e ≠ 0 → ds ≠ []) :
    FloatText (if -4 ≤ e ∧ e ≤ 15 then placePoint ds e true else placeExponent ds e false) := by
  split
  · exact placePoint_floatText digits some
  · exact placeExponent_floatText (some (by omega)) digits

theorem magnitudeText_floatText {b : Binary} (positive : b.significand ≠ 0) :
    FloatText (Layout.result.magnitudeText b) :=
  placed_floatText (dropTrailingZeros_digits fun _ => isDigit_of_mem_digitChars) (digits_ne_nil_of_exponent positive)

end ScriptTools.Decimal
