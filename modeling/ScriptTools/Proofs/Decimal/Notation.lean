import Mathlib.Data.List.TakeWhile
import ScriptTools.Proofs.Decimal.Digits
import ScriptTools.Proofs.Decimal.Shortest

/-!
The digits of written doubles: none of them is lost or led by a zero, and every layout writes a finite double
as its sign and a magnitude.
-/

namespace ScriptTools.Decimal

/-- Only zero begins with a zero. -/
theorem eq_zero_of_head? {n : Nat} (lead : (digitChars n).head? = some '0') : n = 0 := by
  induction n using Nat.strongRecOn with
  | ind n ih =>
    rcases Nat.lt_or_ge n 10 with small | large
    · rw [digitChars, Nat.toDigits_of_lt_base small] at lead
      have digit : ∀ k < 10, Nat.digitChar k = '0' → k = 0 := by decide
      exact digit n small (Option.some.inj lead)
    · rw [digitChars, Nat.toDigits_of_base_le (by decide) large, List.head?_append,
        Option.or_of_isSome (by simp [List.isSome_head?])] at lead
      have zero := ih (n / 10) (by omega) lead
      omega

theorem dropTrailingZeros_digits {ds : List Char} (digits : ∀ d ∈ ds, d.isDigit = true) :
    ∀ d ∈ dropTrailingZeros ds, d.isDigit = true := by
  intro d member
  rw [dropTrailingZeros, List.mem_reverse] at member
  exact digits d (List.mem_reverse.mp ((List.dropWhile_sublist _).mem member))

theorem dropTrailingZeros_ne_nil {n : Nat} (positive : n ≠ 0) : dropTrailingZeros (digitChars n) ≠ [] := by
  intro none
  rw [dropTrailingZeros, List.reverse_eq_nil_iff, List.dropWhile_eq_nil_iff] at none
  have zeros : digitChars n = List.replicate (digitChars n).length '0' := by
    refine List.eq_replicate_iff.mpr ⟨rfl, fun c member => ?_⟩
    simpa using none c (List.mem_reverse.mpr member)
  refine positive ?_
  rw [← natOfDigits_digitChars n, zeros, natOfDigits_zeros]

theorem dropTrailingZeros_prefix (ds : List Char) : dropTrailingZeros ds <+: ds := by
  rw [dropTrailingZeros, ← List.reverse_suffix, List.reverse_reverse]
  exact List.dropWhile_suffix _

/-- Only zeros are dropped. -/
theorem exists_eq_dropTrailingZeros_append (ds : List Char) : ∃ n, ds = dropTrailingZeros ds ++ List.replicate n '0' := by
  refine ⟨(ds.reverse.takeWhile (· == '0')).length, ?_⟩
  have zeros : ds.reverse.takeWhile (· == '0') = List.replicate (ds.reverse.takeWhile (· == '0')).length '0' :=
    List.eq_replicate_iff.mpr ⟨rfl, fun c member => by simpa using List.mem_takeWhile_imp member⟩
  have parts := congrArg List.reverse (List.takeWhile_append_dropWhile (p := (· == '0')) (l := ds.reverse))
  rw [List.reverse_append, zeros, List.reverse_replicate, List.reverse_reverse] at parts
  exact parts.symm

/-- The digits that are written of a number do not begin with a zero. -/
theorem dropTrailingZeros_lead (n : Nat) : (dropTrailingZeros (digitChars n)).head? ≠ some '0' := by
  intro lead
  obtain ⟨rest, whole⟩ := dropTrailingZeros_prefix (digitChars n)
  obtain rfl : n = 0 := by
    refine eq_zero_of_head? ?_
    rw [← whole, List.head?_append, lead]
    rfl
  exact absurd lead (by decide)

/-- Where no digits are written of a magnitude, it has no exponent. -/
theorem digits_ne_nil_of_exponent {tie : Tie} {b : Binary} (positive : b.significand ≠ 0)
    (exponent : ((digitChars (shortest tie b).digits).length : Int) - 1 + (shortest tie b).exponent ≠ 0) :
    dropTrailingZeros (digitChars (shortest tie b).digits) ≠ [] := by
  refine dropTrailingZeros_ne_nil fun none => exponent ?_
  rw [(shortest_digits positive).resolve_left fun some => some none, none]
  rfl

/-- A finite double is written as its sign and its magnitude. -/
theorem Layout.text_toList (l : Layout) {x : Float} (finite : x.isFinite = true) :
    (l.text x).toList = (if isNegative x then ['-'] else []) ++
      (if (Binary.ofFloat x).significand = 0 then (if l.pointZero then ['0', '.', '0'] else ['0'])
       else l.magnitudeText (Binary.ofFloat x)) := by
  have whole : x.isNaN = false ∧ x.isInf = false := by
    rw [Float.isFinite, Float.Model.isFinite] at finite
    rw [Float.isNaN, Float.Model.isNaN, Float.isInf, Float.Model.isInf]
    generalize x.toModel.unpack = u at finite
    cases u <;> first | exact ⟨rfl, rfl⟩ | cases finite
  rw [Layout.text, whole.1, if_neg nofun, whole.2]
  dsimp only
  rw [if_neg nofun]
  split
  · rw [String.toList_ofList]
  · rw [String.toList_ofList]

end ScriptTools.Decimal
