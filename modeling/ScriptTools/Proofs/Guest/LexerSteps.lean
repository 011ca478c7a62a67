import ScriptTools.Proofs.Guest.LexerBelow
import ScriptTools.Proofs.Text.Bytes

/-!
The lexer token by token: blanks, words and marks in front of any text.
-/

namespace ScriptTools.Guest.Lexer

variable {line l : Nat} {b : UInt8} {rest rest' : List UInt8} {t : Token}

/-- A byte that starts a token where it stands. -/
structure StartsToken (b : UInt8) (rest : List UInt8) : Prop where
  newline : isNewline b = false
  gap : isGap b = false
  comment : b = 45 → rest.head? ≠ some 45

theorem tokensAfter_cons (starts : StartsToken b rest) (read : readToken line b rest = .ok (t, l, rest')) :
    tokensAfter [] line (b :: rest) = ⟨t, l⟩ :: tokensAfter [] l rest' := by
  have stop : skipBlanks line (b :: rest) = .ok ((), line, b :: rest) := by
    refine skipBlanks_stop (by simp [starts.newline]) (by simp [starts.gap]) fun body minus same => ?_
    exact starts.comment minus (by rw [same]; rfl)
  rw [tokensAfter_of_read stop read, tokensAfter_eq]
  rfl

/-- What the blanks in front of a text are does not matter beyond the line they end on. -/
theorem tokensAfter_congr {cs cs' : List UInt8} (same : skipBlanks line cs = skipBlanks l cs') :
    tokensAfter [] line cs = tokensAfter [] l cs' := by
  cases skip : skipBlanks line cs with
  | error e => rw [tokensAfter_of_brokenBlanks skip, tokensAfter_of_brokenBlanks (same.symm.trans skip)]
  | ok r =>
    obtain ⟨_, m, ds⟩ := r
    cases ds with
    | nil => rw [tokensAfter_of_end skip, tokensAfter_of_end (same.symm.trans skip)]
    | cons b rest =>
      cases read : readToken m b rest with
      | error e => rw [tokensAfter_of_brokenToken skip read, tokensAfter_of_brokenToken (same.symm.trans skip) read]
      | ok r => rw [tokensAfter_of_read skip read, tokensAfter_of_read (same.symm.trans skip) read]

/-- The first token of a text, unless the text ends or is broken there. -/
theorem readToken_of_tokensAfter {cs : List UInt8} {ts : List Lexeme} (some : t ≠ .eof) (whole : ¬ t.IsBroken)
    (text : tokensAfter [] line cs = ⟨t, l⟩ :: ts) :
    ∃ m b rest rest', skipBlanks line cs = .ok ((), m, b :: rest) ∧ readToken m b rest = .ok (t, l, rest') ∧
      ts = tokensAfter [] l rest' := by
  cases skip : skipBlanks line cs with
  | error e =>
    rw [tokensAfter_of_brokenBlanks skip] at text
    cases text
    exact absurd ⟨_, rfl⟩ whole
  | ok r =>
    obtain ⟨_, m, ds⟩ := r
    cases ds with
    | nil =>
      rw [tokensAfter_of_end skip] at text
      cases text
      exact absurd rfl some
    | cons b rest =>
      cases read : readToken m b rest with
      | error e =>
        rw [tokensAfter_of_brokenToken skip read] at text
        cases text
        exact absurd ⟨_, rfl⟩ whole
      | ok r =>
        rw [tokensAfter_of_read skip read, tokensAfter_eq] at text
        cases text
        exact ⟨m, b, rest, _, rfl, read, rfl⟩

theorem tokensAfter_nil : tokensAfter [] line [] = [⟨.eof, line⟩] :=
  tokensAfter_of_end (by rw [skipBlanks])

theorem tokensAfter_space : tokensAfter [] line (32 :: rest) = tokensAfter [] line rest :=
  tokensAfter_congr (skipBlanks_gap (by decide) (by decide))

theorem tokensAfter_newline : tokensAfter [] line (10 :: rest) = tokensAfter [] (line + 1) (dropPair 10 rest) :=
  tokensAfter_congr (skipBlanks_newline rfl)

/-! Words -/

theorem isNameStart_iff : isNameStart b = true ↔
    65 ≤ b.toNat ∧ b.toNat ≤ 90 ∨ 97 ≤ b.toNat ∧ b.toNat ≤ 122 ∨ b.toNat = 95 := by
  simp only [isNameStart, Bool.or_eq_true, Bool.and_eq_true, decide_eq_true_eq, beq_iff_eq, UInt8.le_iff_toNat_le,
    ← UInt8.toNat_inj, or_assoc]
  rfl

theorem isDigit_iff : isDigit b = true ↔ 48 ≤ b.toNat ∧ b.toNat ≤ 57 := by
  simp only [isDigit, Bool.and_eq_true, decide_eq_true_eq, UInt8.le_iff_toNat_le]
  rfl

theorem isNameStart_startsToken (start : isNameStart b = true) : StartsToken b rest := by
  have none {b : UInt8} (other : isNameStart b = false) (here : isNameStart b = true) : False := by
    rw [other] at here
    cases here
  refine ⟨?_, ?_, fun minus => ?_⟩
  · cases newline : isNewline b with
    | false => rfl
    | true =>
      rw [isNewline, Bool.or_eq_true, beq_iff_eq, beq_iff_eq] at newline
      rcases newline with rfl | rfl <;> exact (none (by decide) start).elim
  · cases gap : isGap b with
    | false => rfl
    | true =>
      simp only [isGap, Bool.or_eq_true, beq_iff_eq] at gap
      rcases gap with ((rfl | rfl) | rfl) | rfl <;> exact (none (by decide) start).elim
  · subst minus
    exact (none (by decide) start).elim

/-- No byte of a word is at the front of a text. -/
def EndsWord (rest : List UInt8) : Prop := ∀ c, rest.head? = some c → isNameByte c = false

theorem endsWord_nil : EndsWord [] := nofun

theorem endsWord_cons {c : UInt8} (stop : isNameByte c = false) : EndsWord (c :: rest) := by
  rintro d ⟨⟩
  exact stop

theorem readToken_word {bs : List UInt8} (start : isNameStart b = true) (inner : ∀ d ∈ bs, isNameByte d = true)
    (stop : EndsWord rest) : readToken line b (bs ++ rest) = .ok (wordToken (b :: bs), line, rest) := by
  unfold readToken
  rw [if_pos start, List.takeWhile_append_of_pos inner, List.dropWhile_append_of_pos inner]
  cases rest with
  | nil => simp
  | cons c rest =>
    rw [List.takeWhile_cons, List.dropWhile_cons, stop c rfl]
    simp

theorem tokensAfter_word {bs : List UInt8} (start : isNameStart b = true) (inner : ∀ d ∈ bs, isNameByte d = true)
    (stop : EndsWord rest) :
    tokensAfter [] line (b :: (bs ++ rest)) = ⟨wordToken (b :: bs), line⟩ :: tokensAfter [] line rest :=
  tokensAfter_cons (isNameStart_startsToken start) (readToken_word start inner stop)

/-! Marks -/

theorem tokensAfter_assign : tokensAfter [] line (61 :: 32 :: rest) =
    ⟨.mark .assign, line⟩ :: tokensAfter [] line (32 :: rest) :=
  tokensAfter_cons ⟨rfl, rfl, nofun⟩ rfl

theorem tokensAfter_minus (single : rest.head? ≠ some 45) :
    tokensAfter [] line (45 :: rest) = ⟨.mark .minus, line⟩ :: tokensAfter [] line rest := by
  refine tokensAfter_cons ⟨rfl, rfl, fun _ => single⟩ ?_
  rfl

theorem tokensAfter_openParen :
    tokensAfter [] line (40 :: rest) = ⟨.mark .openParen, line⟩ :: tokensAfter [] line rest :=
  tokensAfter_cons ⟨rfl, rfl, nofun⟩ rfl

theorem tokensAfter_closeParen :
    tokensAfter [] line (41 :: rest) = ⟨.mark .closeParen, line⟩ :: tokensAfter [] line rest :=
  tokensAfter_cons ⟨rfl, rfl, nofun⟩ rfl

end ScriptTools.Guest.Lexer
