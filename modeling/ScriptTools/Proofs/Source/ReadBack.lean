import ScriptTools.Proofs.Decimal.ReadBack
import ScriptTools.Proofs.Source.Returned

/-!
The written form of a double is read back as that double, for its digits are the shortest ones.
-/

namespace ScriptTools.Decimal

open Guest.Number (readDecimalFloat? readDecimalFloat?_point readDecimalFloat?_of_parts readPoint_point readPoint_mark)

/-- A text is read as the double nearest to a number. -/
def IsRead (cs : List Char) (q : ℚ) : Prop :=
  ∃ digits k, readDecimalFloat? false cs = some (ofScientific false digits k) ∧ (digits * 10 ^ k : ℚ) = q

/-- Digits with a point among them are read as what they stand for. -/
theorem placePoint_isRead {ds : List Char} {e : ℤ} (digits : ∀ d ∈ ds, d.isDigit = true) (some : e ≠ 0 → ds ≠ []) :
    IsRead (placePoint ds e true) (natOfDigits ds * 10 ^ (e + 1 - ds.length)) := by
  obtain ⟨whole, fraction, before, after, nonempty, value, text⟩ := placePoint_parts digits some
  rw [text]
  split
  · rename_i none
    refine ⟨_, _, readDecimalFloat?_point nonempty before (by simp : ∀ d ∈ ['0'], d.isDigit = true), ?_⟩
    have zero : natOfDigits (whole ++ ['0']) = 10 ^ 1 * natOfDigits whole := natOfDigits_append_zeros whole 1
    rw [← value, none, zero, List.append_nil]
    push_cast
    simp
    ring
  · refine ⟨_, _, readDecimalFloat?_point nonempty before after, ?_⟩
    rw [zero_sub]
    exact value

/-- The first digit, the others after the point, and the exponent. -/
theorem placeExponent_isRead {ds : List Char} {e : ℤ} (some : ds ≠ []) (digits : ∀ d ∈ ds, d.isDigit = true) :
    IsRead (placeExponent ds e false) (natOfDigits ds * 10 ^ (e + 1 - ds.length)) := by
  have exponent : ∀ d ∈ digitChars e.natAbs, d.isDigit = true := fun d => isDigit_of_mem_digitChars
  have mark : Guest.Number.readExponent? 'e' ('e' :: ((if e < 0 then ['-'] else []) ++ digitChars e.natAbs)) = .some e := by
    change readInt? ((if e < 0 then ['-'] else []) ++ digitChars e.natAbs) = .some e
    split
    · refine (readInt?_minus exponent (digitChars_ne_nil _)).trans (congrArg Option.some ?_)
      rw [natOfDigits_digitChars]
      omega
    · refine (readInt?_digits exponent (digitChars_ne_nil _)).trans (congrArg Option.some ?_)
      rw [natOfDigits_digitChars]
      omega
  match ds with
  | [] => exact absurd rfl some
  | [d] =>
    refine ⟨_, _, readDecimalFloat?_of_parts some (readPoint_mark digits) mark, ?_⟩
    simp
  | d :: c :: more =>
    have first : ∀ e ∈ [d], e.isDigit = true := by
      intro e member
      rw [List.mem_singleton.mp member]
      exact digits d (by simp)
    have rest : ∀ e ∈ c :: more, e.isDigit = true := fun e member => digits e (List.mem_cons_of_mem _ member)
    have parts : Guest.Number.readPoint spanDigits (placeExponent (d :: c :: more) e false) =
        ([d], c :: more, 'e' :: ((if e < 0 then ['-'] else []) ++ digitChars e.natAbs)) := by
      have written : placeExponent (d :: c :: more) e false =
        [d] ++ '.' :: ((c :: more) ++ 'e' :: ((if e < 0 then ['-'] else []) ++ digitChars e.natAbs)) := rfl
      rw [written, readPoint_point first, spanDigits_append rest rfl]
    refine ⟨_, _, readDecimalFloat?_of_parts (by simp) parts mark, ?_⟩
    rw [List.singleton_append]
    congr 2
    simp

theorem placed_isRead {ds : List Char} {e : ℤ} (digits : ∀ d ∈ ds, d.isDigit = true) (some : e ≠ 0 → ds ≠ []) :
    IsRead (if -4 ≤ e ∧ e ≤ 15 then placePoint ds e true else placeExponent ds e false)
      (natOfDigits ds * 10 ^ (e + 1 - ds.length)) := by
  split
  · exact placePoint_isRead digits some
  · exact placeExponent_isRead (some (by omega)) digits

/-- The zeros that are dropped are made up for by the exponent. -/
theorem natOfDigits_dropTrailingZeros (ds : List Char) (k : ℤ) :
    (natOfDigits (dropTrailingZeros ds) * 10 ^ ((ds.length : ℤ) - 1 + k + 1 - (dropTrailingZeros ds).length) : ℚ) =
      natOfDigits ds * 10 ^ k := by
  obtain ⟨n, kept⟩ := exists_eq_dropTrailingZeros_append ds
  have length := congrArg List.length kept
  rw [List.length_append, List.length_replicate] at length
  have value := congrArg natOfDigits kept
  rw [natOfDigits_append_zeros] at value
  have exponent : (ds.length : ℤ) - 1 + k + 1 - (dropTrailingZeros ds).length = n + k := by omega
  rw [exponent, value, zpow_add₀ (by norm_num), zpow_natCast]
  push_cast
  ring

/-- The text of a magnitude is read as the decimal that its digits were taken from. -/
theorem magnitudeText_isRead {b : Binary} (some : b.significand ≠ 0) :
    IsRead (Layout.result.magnitudeText b) ((shortest .up b).digits * 10 ^ (shortest .up b).exponent) := by
  have placed := placed_isRead (dropTrailingZeros_digits fun _ => isDigit_of_mem_digitChars)
    (@digits_ne_nil_of_exponent .up _ some)
  rw [natOfDigits_dropTrailingZeros, natOfDigits_digitChars] at placed
  exact placed

end ScriptTools.Decimal

namespace ScriptTools.Source

open Decimal

/-- A finite double without a sign is read back from its text. -/
theorem readBack_eq {x : Float} (finite : x.isFinite = true) (positive : isNegative x = false) : readBack x = x := by
  by_cases some : (Binary.ofFloat x).significand = 0
  · have zero : value x = 0 := by simp [value, Binary.num, some]
    have text : readBack x = Float.ofBits 0 := by
      rw [readBack, magnitudeText, if_pos some]
      rfl
    rcases eq_zero_of_value zero with same | same
    · exact text.trans same.symm
    · rw [same] at positive
      exact absurd positive (by decide +kernel)
  · obtain ⟨digits, k, read, value⟩ := magnitudeText_isRead some
    have text := Decimal.magnitudeText_floatText some
    rw [readBack, magnitudeText, if_neg some, text.readFloat?_eq, read, ofScientific_shortest finite positive some .up value]
    rfl

theorem readBack_neg {x : Float} (finite : x.isFinite = true) : readBack (-x) = readBack x := by
  rw [readBack, readBack, magnitudeText, magnitudeText, ofFloat_neg finite]

/-- A script has a finite double as it is. -/
theorem scriptValue_float {x : Float} (finite : x.isFinite = true) : scriptValue (.float x) = .number (.float x) := by
  rw [scriptValue]
  cases negative : isNegative x with
  | false => rw [if_neg Bool.false_ne_true, readBack_eq finite negative]
  | true =>
    have positive : isNegative (-x) = false := by rw [isNegative_neg finite, negative, Bool.not_true]
    have back := readBack_eq (isFinite_neg finite) positive
    rw [readBack_neg finite] at back
    rw [if_pos rfl, back, neg_neg_of_isFinite finite]

end ScriptTools.Source
