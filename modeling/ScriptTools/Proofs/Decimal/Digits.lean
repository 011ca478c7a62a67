import Mathlib.Data.List.TakeDrop
import Mathlib.Data.List.TakeWhile
import ScriptTools.Decimal.Notation
import ScriptTools.Decimal.Read

/-!
The digits of a number write it.
-/

namespace ScriptTools.Decimal

theorem natOfDigits_eq (ds : List Char) : natOfDigits ds = Nat.ofDigitChars 10 ds 0 := by
  have same (n : Nat) : ds.foldl (fun n c => n * 10 + digitValue c) n = Nat.ofDigitChars 10 ds n := by
    rw [Nat.ofDigitChars]
    congr 1
    funext n c
    rw [Nat.mul_comm]
    rfl
  exact same 0

theorem natOfDigits_digitChars (n : Nat) : natOfDigits (digitChars n) = n := by
  rw [natOfDigits_eq, digitChars, Nat.ofDigitChars_ten_toDigits]

theorem isDigit_of_mem_zeros {n : Nat} : ∀ d ∈ List.replicate n '0', d.isDigit = true := by
  intro d member
  rw [(List.mem_replicate.mp member).2]
  rfl

theorem natOfDigits_zeros (n : Nat) : natOfDigits (List.replicate n '0') = 0 := by
  rw [natOfDigits_eq, Nat.ofDigitChars_replicate_zero, Nat.mul_zero]

theorem isDigit_of_mem_digitChars {n : Nat} {c : Char} (member : c ∈ digitChars n) : c.isDigit = true :=
  Nat.isDigit_of_mem_toDigits (by decide) (by decide) member

theorem digitChars_ne_nil (n : Nat) : digitChars n ≠ [] := Nat.toDigits_ne_nil

theorem toString_toList (n : Nat) : (toString n).toList = digitChars n := by
  rw [Nat.toString_eq_ofList_toDigits, String.toList_ofList]
  rfl

theorem toString_int_toList (i : Int) :
    (toString i).toList = (if i < 0 then ['-'] else []) ++ digitChars i.natAbs := by
  cases i with
  | ofNat n => exact toString_toList n
  | negSucc n =>
    rw [if_pos (Int.negSucc_lt_zero n)]
    change ("-" ++ toString (n + 1)).toList = _
    rw [String.toList_append, toString_toList]
    rfl

/-- What holds of each of the ten digits. -/
theorem of_isDigit {p : Char → Bool} (all : ['0', '1', '2', '3', '4', '5', '6', '7', '8', '9'].all p = true) {c : Char}
    (digit : c.isDigit = true) : p c = true := by
  refine List.all_eq_true.mp all c ?_
  have bounds : 48 ≤ c.toNat ∧ c.toNat ≤ 57 := by
    simpa [Char.isDigit, UInt32.le_iff_toNat_le] using digit
  obtain ⟨low, high⟩ := bounds
  generalize size : c.toNat = n at low high
  obtain rfl : c = Char.ofNat n := by rw [← size, Char.ofNat_toNat]
  have : n = 48 ∨ n = 49 ∨ n = 50 ∨ n = 51 ∨ n = 52 ∨ n = 53 ∨ n = 54 ∨ n = 55 ∨ n = 56 ∨ n = 57 := by omega
  rcases this with rfl | rfl | rfl | rfl | rfl | rfl | rfl | rfl | rfl | rfl <;> decide

theorem spanDigits_append {ds : List Char} {c : Char} {rest : List Char} (digits : ∀ d ∈ ds, d.isDigit = true)
    (stop : c.isDigit = false) : spanDigits (ds ++ c :: rest) = (ds, c :: rest) := by
  rw [spanDigits, List.span_eq_takeWhile_dropWhile, List.takeWhile_append_of_pos digits,
    List.dropWhile_append_of_pos digits, List.takeWhile_cons, List.dropWhile_cons, stop]
  simp

theorem spanDigits_all {ds : List Char} (digits : ∀ d ∈ ds, d.isDigit = true) : spanDigits ds = (ds, []) := by
  rw [spanDigits, List.span_eq_takeWhile_dropWhile, ← List.append_nil ds, List.takeWhile_append_of_pos digits,
    List.dropWhile_append_of_pos digits, List.append_nil]
  simp

theorem isDigit_of_mem_spanDigits {cs : List Char} {d : Char} (member : d ∈ (spanDigits cs).1) : d.isDigit = true := by
  rw [spanDigits, List.span_eq_takeWhile_dropWhile] at member
  exact List.mem_takeWhile_imp member

theorem all_isDigit {ds : List Char} (digits : ∀ d ∈ ds, d.isDigit = true) : ds.all Char.isDigit = true :=
  List.all_eq_true.mpr digits

theorem readInt?_minus {ds : List Char} (digits : ∀ d ∈ ds, d.isDigit = true) (nonempty : ds ≠ []) :
    readInt? ('-' :: ds) = some (-(natOfDigits ds : Int)) := by
  rw [readInt?, readSign]
  simp [all_isDigit digits, nonempty]

theorem readSign_of_isDigit {c : Char} {cs : List Char} (digit : c.isDigit = true) :
    readSign (c :: cs) = (false, c :: cs) := by
  unfold readSign
  split
  · rename_i same
    cases same
    cases digit
  · rename_i same
    cases same
    cases digit
  · rfl

theorem readInt?_digits {ds : List Char} (digits : ∀ d ∈ ds, d.isDigit = true) (nonempty : ds ≠ []) :
    readInt? ds = some (natOfDigits ds : Int) := by
  cases ds with
  | nil => exact absurd rfl nonempty
  | cons d ds =>
    rw [readInt?, readSign_of_isDigit (digits d (by simp))]
    simp [all_isDigit digits]

end ScriptTools.Decimal
