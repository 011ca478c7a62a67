import Mathlib.Tactic.Ring
import ScriptTools.Text.Basic

/-!
Texts that are written piece by piece, and hexadecimal digits, which are read back as the number that they write.
-/

namespace ScriptTools.Text

theorem foldl_push_toList (cs : List Char) (s : String) : (cs.foldl String.push s).toList = s.toList ++ cs := by
  induction cs generalizing s with
  | nil => simp
  | cons c cs ih => rw [List.foldl_cons, ih]; simp

/-- A text whose characters are written one after another, each as some characters. -/
theorem foldl_written_toList (form : Char → List Char) (s done : String) :
    (s.foldl (fun (done : String) c => (form c).foldl String.push done) done).toList =
      done.toList ++ s.toList.flatMap form := by
  rw [String.foldl_eq_foldl_toList]
  generalize s.toList = cs
  induction cs generalizing done with
  | nil => simp
  | cons c cs ih => rw [List.foldl_cons, ih, foldl_push_toList, List.flatMap_cons, List.append_assoc]

/-- The lines of texts that are written with a line end after each. -/
theorem splitOn_lines {texts : List String} (single : ∀ t ∈ texts, '\n' ∉ t.toList) :
    (String.join (texts.map (· ++ "\n"))).toList.splitOn '\n' = texts.map String.toList ++ [[]] := by
  induction texts with
  | nil => rfl
  | cons t texts ih =>
    have whole : (String.join ((t :: texts).map (· ++ "\n"))).toList
        = t.toList ++ '\n' :: (String.join (texts.map (· ++ "\n"))).toList := by
      simp
    have alone : t.toList.splitOn '\n' = [t.toList] := List.splitOn_eq_singleton (single t (by simp))
    rw [whole, List.splitOn_append_cons_self, alone, ih fun u member => single u (by simp [member])]
    rfl

theorem hexValue?_hexDigit {n : Nat} (small : n < 16) : hexValue? (hexDigit n) = some n := by
  have all : ∀ n < 16, hexValue? (hexDigit n) = some n := by decide
  exact all n small

theorem le_hexDigit {n : Nat} (small : n < 16) : 48 ≤ (hexDigit n).toNat := by
  have all : ∀ n < 16, 48 ≤ (hexDigit n).toNat := by decide
  exact all n small

theorem hexDigits_length (count n : Nat) : (hexDigits count n).length = count := by simp [hexDigits]

/-- One digit more stands before the others. -/
theorem hexDigits_succ (count n : Nat) :
    hexDigits (count + 1) n = hexDigit (n / 16 ^ count % 16) :: hexDigits count n := by
  rw [hexDigits, List.range_succ_eq_map, List.map_cons, List.map_map]
  congr 1
  refine List.map_congr_left fun i member => ?_
  have : count + 1 - 1 - (i + 1) = count - 1 - i := by omega
  simp only [Function.comp_apply, Nat.succ_eq_add_one, this]

theorem foldlM_hexDigits (count n start : Nat) :
    (hexDigits count n).foldlM (fun n c => (hexValue? c).map (n * 16 + ·)) start
      = some (start * 16 ^ count + n % 16 ^ count) := by
  induction count generalizing start with
  | zero => simp [hexDigits, Nat.mod_one]
  | succ count ih =>
    rw [hexDigits_succ, List.foldlM_cons, hexValue?_hexDigit (Nat.mod_lt _ (by decide))]
    refine (ih _).trans (congrArg some ?_)
    have split : n % 16 ^ (count + 1) = n % 16 ^ count + 16 ^ count * (n / 16 ^ count % 16) := by
      rw [Nat.pow_succ, Nat.mod_mul]
    rw [split, Nat.pow_succ]
    ring

theorem natOfHex?_hexDigits {count n : Nat} (fits : n < 16 ^ count) : natOfHex? (hexDigits count n) = some n := by
  rw [natOfHex?, foldlM_hexDigits, Nat.mod_eq_of_lt fits, Nat.zero_mul, Nat.zero_add]

end ScriptTools.Text
