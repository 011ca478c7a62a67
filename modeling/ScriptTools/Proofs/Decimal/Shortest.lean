import Mathlib.Init
import ScriptTools.Decimal.Shortest

/-!
The shortest decimal of a positive number is positive, unless it is a whole number below one.
-/

namespace ScriptTools.Decimal

namespace Interval

theorem contains_of_onGrid {i : Interval} {tie : Tie} {k : Int} {s : Scientific} (hit : i.onGrid tie k = some s) :
    i.contains s.digits s.exponent = true := by
  unfold onGrid at hit
  dsimp only at hit
  generalize i.value * Nat.pow 10 (-k).toNat = num at hit
  generalize i.den * Nat.pow 10 k.toNat = den at hit
  cases low : i.contains (num / den) k with
  | false =>
    cases high : i.contains (num / den + 1) k with
    | false =>
      rw [low, high] at hit
      cases hit
    | true =>
      rw [low, high] at hit
      cases hit
      exact high
  | true =>
    cases high : i.contains (num / den + 1) k with
    | false =>
      rw [low, high] at hit
      cases hit
      exact low
    | true =>
      rw [low, high] at hit
      dsimp only at hit
      split at hit
      · cases hit
        exact high
      · cases hit
        exact low

theorem not_contains_zero {i : Interval} {k : Int} (positive : 0 < i.low) : i.contains 0 k = false := by
  have unit : 0 < i.low * Nat.pow 10 (-k).toNat := Nat.mul_pos positive (Nat.pow_pos (by decide))
  rw [contains]
  simp only [Nat.zero_mul]
  split
  · rw [Bool.and_eq_false_iff, decide_eq_false_iff_not]
    exact .inl (by omega)
  · rw [Bool.and_eq_false_iff, decide_eq_false_iff_not]
    exact .inl (by omega)

theorem ofBinary_low_pos {b : Binary} (positive : b.significand ≠ 0) : 0 < (ofBinary b).low := by
  rw [ofBinary]
  refine Nat.mul_pos ?_ (Nat.pow_pos (by decide))
  split <;> omega

end Interval

/-- The digits of the shortest decimal are zero only where it has no exponent. -/
theorem shortest_digits {tie : Tie} {b : Binary} (positive : b.significand ≠ 0) :
    (shortest tie b).digits ≠ 0 ∨ (shortest tie b).exponent = 0 := by
  rw [shortest]
  split
  · rename_i s found
    obtain ⟨n, _, hit⟩ := List.exists_of_findSome?_eq_some found
    refine .inl fun zero => ?_
    have inside := Interval.contains_of_onGrid hit
    rw [zero, Interval.not_contains_zero (Interval.ofBinary_low_pos positive)] at inside
    cases inside
  · exact .inr rfl

end ScriptTools.Decimal
