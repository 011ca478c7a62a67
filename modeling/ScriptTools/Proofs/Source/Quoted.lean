import Mathlib.Tactic.IntervalCases
import ScriptTools.Proofs.Guest.LexerBelow
import ScriptTools.Proofs.Text.Basic
import ScriptTools.Proofs.Text.Bytes
import ScriptTools.Source

/-!
A text in quotes is read as exactly its bytes: what is escaped comes back as it was, and nothing else ends the
string.
-/

namespace ScriptTools.Source

open Guest.Lexer Text

theorem quote_toList (s : String) : (quote s).toList = '"' :: s.toList.flatMap escapeChar ++ ['"'] := by
  rw [quote, String.toList_push, foldl_written_toList]
  rfl

/-- Whether a character stands for itself between quotes. -/
def standsAlone (c : Char) : Prop := 32 ≤ c.toNat ∧ c.toNat ≠ 127 ∧ c.toNat ≠ 34 ∧ c.toNat ≠ 92

instance (c : Char) : Decidable (standsAlone c) := inferInstanceAs (Decidable (_ ∧ _))

theorem escapeChar_alone {c : Char} (alone : standsAlone c) : escapeChar c = [c] := by
  obtain ⟨low, delete, quote, backslash⟩ := alone
  unfold escapeChar
  split
  · exact absurd rfl backslash
  · exact absurd rfl quote
  · exact absurd low (by decide)
  · exact absurd low (by decide)
  · exact absurd low (by decide)
  · rw [if_neg]
    simp only [Bool.or_eq_true, decide_eq_true_eq, not_or]
    omega

/-- Every other character is a backslash and an escape that is read as the character. -/
theorem escapeChar_escaped {c : Char} (escaped : ¬ standsAlone c) :
    c.toNat < 128 ∧ ∃ bytes, utf8 (escapeChar c) = 92 :: bytes ∧
      ∀ line rest, readEscape line (bytes ++ rest) = .ok ([byte c], line, rest) := by
  have few : c.toNat < 32 ∨ c.toNat = 127 ∨ c.toNat = 34 ∨ c.toNat = 92 := by
    unfold standsAlone at escaped
    omega
  have small : c.toNat < 128 := by omega
  refine ⟨small, ?_⟩
  generalize size : c.toNat = n at few small
  obtain rfl : c = Char.ofNat n := by rw [← size, Char.ofNat_toNat]
  clear size escaped
  rcases few with low | rfl | rfl | rfl
  · interval_cases n <;> exact ⟨_, rfl, fun _ _ => rfl⟩
  · exact ⟨_, rfl, fun _ _ => rfl⟩
  · exact ⟨_, rfl, fun _ _ => rfl⟩
  · exact ⟨_, rfl, fun _ _ => rfl⟩

/-- Bytes that end no string and start no escape. -/
structure Inner (b : UInt8) : Prop where
  quote : b ≠ 34
  backslash : b ≠ 92
  newline : isNewline b = false

theorem readQuoted_inner {bytes rest : List UInt8} {line : Nat} {out : ByteArray} (inner : ∀ b ∈ bytes, Inner b) :
    readQuoted 34 line out (bytes ++ rest) = readQuoted 34 line (appendBytes out bytes) rest := by
  induction bytes generalizing out with
  | nil => rfl
  | cons b bytes ih =>
    have here := inner b (by simp)
    rw [List.cons_append, readQuoted_plain (by simpa using here.quote) (by simp [here.newline])
      (by simpa using here.backslash), ih fun c member => inner c (by simp [member])]
    rfl

/-- Every character but controls, quotes and backslashes may stand in a string as it is. -/
theorem inner_of_utf8EncodeChar {c : Char} (low : 32 ≤ c.toNat) (quote : c.toNat ≠ 34) (backslash : c.toNat ≠ 92) :
    ∀ b ∈ String.utf8EncodeChar c, Inner b := by
  have inner {b : UInt8} (quote : b.toNat ≠ 34) (backslash : b.toNat ≠ 92) (low : 32 ≤ b.toNat) : Inner b := by
    refine ⟨by rintro rfl; exact quote rfl, by rintro rfl; exact backslash rfl, ?_⟩
    rw [isNewline, Bool.or_eq_false_iff, beq_eq_false_iff_ne, beq_eq_false_iff_ne]
    constructor <;> rintro rfl <;> exact absurd low (by decide)
  intro b member
  by_cases ascii : c.toNat < 128
  · rw [utf8EncodeChar_ascii ascii, List.mem_singleton] at member
    subst member
    have same := byte_toNat ascii
    exact inner (by omega) (by omega) (by omega)
  · have high : 128 ≤ b.toNat := UInt8.le_iff_toNat_le.mp (utf8EncodeChar_high (by omega) b member)
    exact inner (by omega) (by omega) (by omega)

theorem readQuoted_escapeChar (c : Char) {rest : List UInt8} {line : Nat} {out : ByteArray} :
    readQuoted 34 line out (utf8 (escapeChar c) ++ rest) =
      readQuoted 34 line (appendBytes out (String.utf8EncodeChar c)) rest := by
  by_cases alone : standsAlone c
  · rw [escapeChar_alone alone]
    have same : utf8 [c] = String.utf8EncodeChar c := List.append_nil _
    obtain ⟨low, _, quote, backslash⟩ := alone
    rw [same, readQuoted_inner (inner_of_utf8EncodeChar low quote backslash)]
  · obtain ⟨small, bytes, escape, read⟩ := escapeChar_escaped alone
    rw [escape, List.cons_append, readQuoted_escape (by decide), read, utf8EncodeChar_ascii small]

theorem readQuoted_escaped (cs : List Char) {rest : List UInt8} {line : Nat} {out : ByteArray} :
    readQuoted 34 line out (utf8 (cs.flatMap escapeChar) ++ 34 :: rest) =
      .ok (appendBytes out (utf8 cs), line, rest) := by
  induction cs generalizing out with
  | nil => exact readQuoted_quote
  | cons c cs ih =>
    rw [List.flatMap_cons, utf8_append, List.append_assoc, readQuoted_escapeChar, ih, appendBytes_append]
    rfl

theorem readToken_quoted {line l : Nat} {cs rest : List UInt8} {out : ByteArray}
    (read : readQuoted 34 line ByteArray.empty cs = .ok (out, l, rest)) :
    readToken line 34 cs = .ok (.string out (.quoted 34), l, rest) := by
  have letter : Guest.Lexer.isNameStart 34 = false := by decide
  have numeral (rest : List UInt8) : startsNumeral 34 rest = false := rfl
  unfold readToken
  rw [letter, if_neg nofun, numeral, if_neg nofun, if_pos (by decide), read]

/-- A text in quotes is one string with the bytes of the text. -/
theorem readToken_quote (s : String) {line : Nat} {rest : List UInt8} :
    ∃ bytes, (quote s).toUTF8.toList = 34 :: bytes ∧
      readToken line 34 (bytes ++ rest) = .ok (.string s.toUTF8 (.quoted 34), line, rest) := by
  refine ⟨utf8 (s.toList.flatMap escapeChar) ++ [34], ?_, ?_⟩
  · rw [toUTF8_toList, quote_toList, List.cons_append, utf8_cons, utf8_append]
    rfl
  · have read := @readQuoted_escaped s.toList rest line ByteArray.empty
    rw [appendBytes_utf8] at read
    rw [List.append_assoc, List.singleton_append]
    exact readToken_quoted read

end ScriptTools.Source
