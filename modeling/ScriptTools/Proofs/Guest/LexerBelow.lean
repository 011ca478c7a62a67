import ScriptTools.Guest.Lexer
import ScriptTools.Proofs.Guest.Mirror

/-!
The tokens of a text that starts some lines further down: the same, but for the lines.
-/

namespace ScriptTools.Guest.Lexer

/-- A reader further down finds the same and is as many lines further down afterwards. -/
inductive Below (k : Nat) {ε α : Type} : Reading ε α → Reading ε α → Prop
  | ok (a : α) (line : Nat) (rest : List UInt8) : Below k (.ok (a, line, rest)) (.ok (a, line + k, rest))
  | error (e e' : ε) : Below k (.error e) (.error e')

variable (k : Nat)

theorem readLong_below (level line : Nat) (out : ByteArray) (cs : List UInt8) :
    Below k (readLong level line out cs) (readLong level (line + k) out cs) := by
  fun_induction readLong level line out cs with
  | case1 line out =>
    rw [readLong]
    exact .error _ _
  | case2 line out b rest newline ih =>
    rw [readLong, if_pos newline, Nat.add_right_comm]
    exact ih
  | case3 line out b rest newline close rest' closed =>
    rw [readLong, if_neg newline, if_pos close, closed]
    exact .ok _ _ _
  | case4 line out b rest newline close other ih =>
    rw [readLong, if_neg newline, if_pos close, other]
    exact ih
  | case5 line out b rest newline close ih =>
    rw [readLong, if_neg newline, if_neg close]
    exact ih

theorem readLongText_below (level line : Nat) (cs : List UInt8) :
    Below k (readLongText level line cs) (readLongText level (line + k) cs) := by
  cases cs with
  | nil => exact .error _ _
  | cons b rest =>
    rw [readLongText, readLongText]
    split
    · rw [Nat.add_right_comm]
      exact readLong_below k level (line + 1) _ _
    · exact readLong_below k level line _ _

theorem skipComment_below (line : Nat) (cs : List UInt8) :
    Below k (skipComment line cs) (skipComment (line + k) cs) := by
  unfold skipComment
  split
  · rename_i rest
    cases openLevel? 0 rest with
    | none => exact .ok _ _ _
    | some opened =>
      obtain ⟨level, rest⟩ := opened
      dsimp only
      have below := readLongText_below k level line rest
      generalize readLongText level line rest = r at below
      generalize readLongText level (line + k) rest = r' at below
      cases below with
      | ok => exact .ok _ _ _
      | error => exact .error _ _
  · exact .ok _ _ _

theorem skipBlanks_newline {line : Nat} {b : UInt8} {rest : List UInt8} (newline : isNewline b = true) :
    skipBlanks line (b :: rest) = skipBlanks (line + 1) (dropPair b rest) := by
  rw [skipBlanks.eq_def]
  exact if_pos newline

theorem skipBlanks_gap {line : Nat} {b : UInt8} {rest : List UInt8} (newline : ¬ isNewline b = true)
    (gap : isGap b = true) : skipBlanks line (b :: rest) = skipBlanks line rest := by
  rw [skipBlanks.eq_def]
  exact (if_neg newline).trans (if_pos gap)

theorem skipBlanks_comment {line : Nat} {body : List UInt8} :
    skipBlanks line (45 :: 45 :: body) =
      match skipComment line body with
      | .ok (_, line, rest) => skipBlanks line rest
      | .error e => .error e := by
  rw [skipBlanks, if_neg (by decide), if_neg (by decide)]
  split <;> rename_i run <;> rw [run]

theorem skipBlanks_stop {line : Nat} {b : UInt8} {rest : List UInt8} (newline : ¬ isNewline b = true)
    (gap : ¬ isGap b = true) (comment : ∀ body, b = 45 → rest ≠ 45 :: body) :
    skipBlanks line (b :: rest) = .ok ((), line, b :: rest) := by
  rw [skipBlanks.eq_def]
  refine ((if_neg newline).trans (if_neg gap)).trans ?_
  split
  · exact absurd rfl (comment _ rfl)
  · rfl

theorem skipBlanks_below (line : Nat) (cs : List UInt8) :
    Below k (skipBlanks line cs) (skipBlanks (line + k) cs) := by
  fun_induction skipBlanks line cs with
  | case1 line =>
    rw [skipBlanks]
    exact .ok _ _ _
  | case2 line b rest newline ih =>
    rw [skipBlanks_newline newline, Nat.add_right_comm]
    exact ih
  | case3 line b rest newline gap ih =>
    rw [skipBlanks_gap newline gap]
    exact ih
  | case4 line body _ _ _ comment _ _ ih =>
    rw [skipBlanks_comment]
    have below := skipComment_below k line body
    rw [comment] at below
    generalize skipComment (line + k) body = r' at below
    cases below
    exact ih
  | case5 line body e comment =>
    rw [skipBlanks_comment]
    have below := skipComment_below k line body
    rw [comment] at below
    generalize skipComment (line + k) body = r' at below
    cases below
    exact .error _ _
  | case6 line b rest newline gap comment =>
    rw [skipBlanks_stop newline gap fun body minus same => comment body minus same]
    exact .ok _ _ _

theorem skipEscapedBlanks_below (line : Nat) (cs : List UInt8) :
    skipEscapedBlanks (line + k) cs = ((skipEscapedBlanks line cs).1 + k, (skipEscapedBlanks line cs).2) := by
  fun_induction skipEscapedBlanks line cs with
  | case1 line => rw [skipEscapedBlanks]
  | case2 line b rest newline ih =>
    rw [skipEscapedBlanks, if_pos newline, Nat.add_right_comm]
    exact ih
  | case3 line b rest newline gap ih =>
    rw [skipEscapedBlanks, if_neg newline, if_pos gap]
    exact ih
  | case4 line b rest newline gap => rw [skipEscapedBlanks, if_neg newline, if_neg gap]

theorem readEscape_below (line : Nat) (cs : List UInt8) :
    Below k (readEscape line cs) (readEscape (line + k) cs) := by
  cases cs with
  | nil => exact .error _ _
  | cons b rest =>
    unfold readEscape
    dsimp only
    cases shortEscape? b with
    | some c => exact .ok _ _ _
    | none =>
      dsimp only
      split
      · rw [Nat.add_right_comm]
        exact .ok _ _ _
      · split
        · rw [skipEscapedBlanks_below]
          exact .ok _ _ _
        · split
          · cases readHexEscape rest with
            | ok r => exact .ok _ _ _
            | error e => exact .error _ _
          · split
            · cases readCodePointEscape rest with
              | ok r => exact .ok _ _ _
              | error e => exact .error _ _
            · split
              · split
                · exact .ok _ _ _
                · exact .error _ _
              · exact .error _ _

theorem readQuoted_quote {quote : UInt8} {line : Nat} {out : ByteArray} {rest : List UInt8} :
    readQuoted quote line out (quote :: rest) = .ok (out, line, rest) := by
  rw [readQuoted, if_pos (beq_self_eq_true quote)]

theorem readQuoted_escape {quote : UInt8} {line : Nat} {out : ByteArray} {rest : List UInt8}
    (inner : ¬ (92 == quote) = true) :
    readQuoted quote line out (92 :: rest) =
      match readEscape line rest with
      | .ok (bytes, line, rest) => readQuoted quote line (appendBytes out bytes) rest
      | .error e => .error (escapeFault quote line out e) := by
  rw [readQuoted, if_neg inner, if_neg (by decide), if_pos (by decide)]
  split <;> rename_i run <;> rw [run]

theorem readQuoted_plain {quote b : UInt8} {line : Nat} {out : ByteArray} {rest : List UInt8}
    (inner : ¬ (b == quote) = true) (newline : ¬ isNewline b = true) (escape : ¬ (b == 92) = true) :
    readQuoted quote line out (b :: rest) = readQuoted quote line (out.push b) rest := by
  rw [readQuoted, if_neg inner, if_neg newline, if_neg escape]

theorem readQuoted_below (quote : UInt8) (line : Nat) (out : ByteArray) (cs : List UInt8) :
    Below k (readQuoted quote line out cs) (readQuoted quote (line + k) out cs) := by
  fun_induction readQuoted quote line out cs with
  | case1 line out =>
    rw [readQuoted]
    exact .error _ _
  | case2 line out b rest same =>
    rw [readQuoted, if_pos same]
    exact .ok _ _ _
  | case3 line out b rest inner newline =>
    rw [readQuoted, if_neg inner, if_pos newline]
    exact .error _ _
  | case4 line out b rest inner newline escape bytes line' rest' run ih =>
    obtain rfl : b = 92 := by simpa using escape
    rw [readQuoted_escape inner]
    have below := readEscape_below k line rest
    rw [run] at below
    generalize readEscape (line + k) rest = r' at below
    cases below
    exact ih
  | case5 line out b rest inner newline escape e run =>
    obtain rfl : b = 92 := by simpa using escape
    rw [readQuoted_escape inner]
    have below := readEscape_below k line rest
    rw [run] at below
    generalize readEscape (line + k) rest = r' at below
    cases below
    exact .error _ _
  | case6 line out b rest inner newline escape ih =>
    rw [readQuoted_plain inner newline escape]
    exact ih

theorem readNumeral_below (line : Nat) (b : UInt8) (rest : List UInt8) :
    Below k (readNumeral line b rest) (readNumeral (line + k) b rest) := by
  unfold readNumeral
  split
  split
  · exact .ok _ _ _
  · exact .error _ _

theorem readToken_below (line : Nat) (b : UInt8) (rest : List UInt8) :
    Below k (readToken line b rest) (readToken (line + k) b rest) := by
  unfold readToken
  split
  · exact .ok _ _ _
  · split
    · have below := readNumeral_below k line b rest
      generalize readNumeral line b rest = r at below
      generalize readNumeral (line + k) b rest = r' at below
      cases below with
      | ok => exact .ok _ _ _
      | error => exact .error _ _
    · split
      · have below := readQuoted_below k b line ByteArray.empty rest
        generalize readQuoted b line ByteArray.empty rest = r at below
        generalize readQuoted b (line + k) ByteArray.empty rest = r' at below
        cases below with
        | ok => exact .ok _ _ _
        | error => exact .error _ _
      · split
        · cases openLevel? 0 rest with
          | some opened =>
            obtain ⟨level, rest⟩ := opened
            dsimp only
            have below := readLongText_below k level line rest
            generalize readLongText level line rest = r at below
            generalize readLongText level (line + k) rest = r' at below
            cases below with
            | ok => exact .ok _ _ _
            | error => exact .error _ _
          | none =>
            dsimp only
            split
            · exact .error _ _
            · exact .ok _ _ _
        · exact .ok _ _ _

section

variable {done : List Lexeme} {line l : Nat} {cs : List UInt8}

theorem tokensAfter_of_read {b : UInt8} {rest rest' : List UInt8} {t : Token} {l' : Nat}
    (skip : skipBlanks line cs = .ok ((), l, b :: rest)) (read : readToken l b rest = .ok (t, l', rest')) :
    tokensAfter done line cs = tokensAfter (⟨t, l'⟩ :: done) l' rest' := by
  rw [tokensAfter.eq_def]
  split
  · rename_i run
    rw [skip] at run
    cases run
  · rename_i run
    rw [skip] at run
    cases run
  · rename_i run
    cases skip.symm.trans run
    split
    · rename_i run
      rw [read] at run
      cases run
    · rename_i run
      cases read.symm.trans run
      rfl

theorem tokensAfter_of_end (skip : skipBlanks line cs = .ok ((), l, [])) :
    tokensAfter done line cs = (⟨.eof, l⟩ :: done).reverse := by
  rw [tokensAfter.eq_def]
  split
  · rename_i run
    rw [skip] at run
    cases run
  · rename_i run
    cases skip.symm.trans run
    rfl
  · rename_i run
    cases skip.symm.trans run

theorem tokensAfter_of_brokenBlanks {e : Fault} (skip : skipBlanks line cs = .error e) :
    tokensAfter done line cs = (⟨.broken e.message, e.line⟩ :: done).reverse := by
  rw [tokensAfter.eq_def]
  split
  · rename_i run
    cases skip.symm.trans run
    rfl
  · rename_i run
    cases skip.symm.trans run
  · rename_i run
    cases skip.symm.trans run

theorem tokensAfter_of_brokenToken {b : UInt8} {rest : List UInt8} {e : Fault}
    (skip : skipBlanks line cs = .ok ((), l, b :: rest)) (read : readToken l b rest = .error e) :
    tokensAfter done line cs = (⟨.broken e.message, e.line⟩ :: done).reverse := by
  rw [tokensAfter.eq_def]
  split
  · rename_i run
    cases skip.symm.trans run
  · rename_i run
    cases skip.symm.trans run
  · rename_i run
    cases skip.symm.trans run
    split
    · rename_i run
      cases read.symm.trans run
      rfl
    · rename_i run
      cases read.symm.trans run

end

/-- The tokens before a place stay what they are. -/
theorem tokensAfter_append (done before : List Lexeme) (line : Nat) (cs : List UInt8) :
    tokensAfter (done ++ before) line cs = before.reverse ++ tokensAfter done line cs := by
  fun_induction tokensAfter done line cs with
  | case1 done line cs e skip => simp [tokensAfter_of_brokenBlanks skip]
  | case2 done line cs _ l skip => simp [tokensAfter_of_end skip]
  | case3 done line cs _ l b rest skip e read => simp [tokensAfter_of_brokenToken skip read]
  | case4 done line cs _ l b rest skip t l' rest' read ih =>
    rw [tokensAfter_of_read skip read]
    exact ih

theorem tokensAfter_eq (done : List Lexeme) (line : Nat) (cs : List UInt8) :
    tokensAfter done line cs = done.reverse ++ tokensAfter [] line cs :=
  tokensAfter_append [] done line cs

theorem tokensAfter_ne_nil (done : List Lexeme) (line : Nat) (cs : List UInt8) : tokensAfter done line cs ≠ [] := by
  fun_induction tokensAfter done line cs with
  | case4 done line cs _ l b rest skip t l' rest' read ih => exact ih
  | _ => simp

variable {k} in
/-- Texts whose first tokens correspond have the same tokens, but for the lines. -/
theorem tokensAfter_below {done done' : List Lexeme} {line line' : Nat} {cs cs' : List UInt8}
    (below : Below k (skipBlanks line cs) (skipBlanks line' cs'))
    (mirrors : List.Forall₂ (Lexeme.Mirrors k) done done') :
    List.Forall₂ (Lexeme.Mirrors k) (tokensAfter done line cs) (tokensAfter done' line' cs') := by
  generalize skip' : skipBlanks line' cs' = r' at below
  fun_induction tokensAfter done line cs generalizing done' line' cs' r' with
  | case1 done line cs e skip =>
    rw [skip] at below
    cases below
    rw [tokensAfter_of_brokenBlanks skip']
    exact List.rel_reverse (.cons (.inr ⟨⟨_, rfl⟩, _, rfl⟩) mirrors)
  | case2 done line cs _ l skip =>
    rw [skip] at below
    cases below
    rw [tokensAfter_of_end skip']
    exact List.rel_reverse (.cons (.inl rfl) mirrors)
  | case3 done line cs _ l b rest skip e read =>
    rw [skip] at below
    cases below
    have below := readToken_below k l b rest
    rw [read] at below
    generalize read' : readToken (l + k) b rest = r at below
    cases below
    rw [tokensAfter_of_brokenToken skip' read']
    exact List.rel_reverse (.cons (.inr ⟨⟨_, rfl⟩, _, rfl⟩) mirrors)
  | case4 done line cs _ l b rest skip t l' rest' read ih =>
    rw [skip] at below
    cases below
    have below := readToken_below k l b rest
    rw [read] at below
    generalize read' : readToken (l + k) b rest = r at below
    cases below
    rw [tokensAfter_of_read skip' read']
    exact ih (.cons (.inl rfl) mirrors) _ rfl (skipBlanks_below k l' rest')

/-! A line break before a text -/

theorem dropPair_eq {first b : UInt8} {rest : List UInt8} (single : ¬ (isNewline b && b != first) = true) :
    dropPair first (b :: rest) = b :: rest :=
  if_neg single

/-- A text behind a line break is some lines further down. Where it starts with the second half of a
line break the two are one. -/
theorem skipBlanks_newline_below {line l : Nat} (cs : List UInt8) (above : l ≤ line) :
    ∃ k, Below k (skipBlanks l cs) (skipBlanks line (10 :: cs)) := by
  have same {l line : Nat} (above : l ≤ line) (cs : List UInt8) :
      ∃ k, Below k (skipBlanks l cs) (skipBlanks line cs) := by
    obtain ⟨k, rfl⟩ := Nat.exists_eq_add_of_le above
    exact ⟨k, skipBlanks_below k l cs⟩
  rw [skipBlanks_newline (b := 10) rfl]
  match cs with
  | [] => exact same (by omega) []
  | b :: rest =>
    by_cases half : b = 13
    · subst b
      rw [skipBlanks_newline (b := 13) rfl]
      match rest with
      | [] => exact same (by omega) []
      | c :: rest =>
        by_cases whole : c = 10
        · subst c
          exact skipBlanks_newline_below rest (by omega)
        · have single : dropPair 13 (c :: rest) = c :: rest := dropPair_eq (by simp [isNewline, whole])
          rw [single]
          exact same (by omega) (c :: rest)
    · rw [dropPair_eq (by simp [isNewline, half])]
      exact same (by omega) (b :: rest)
termination_by cs.length

/-- The tokens of a text behind a line break. -/
theorem tokensAfter_newline_below {line l : Nat} (cs : List UInt8) (above : l ≤ line) :
    ∃ k, List.Forall₂ (Lexeme.Mirrors k) (tokensAfter [] l cs) (tokensAfter [] line (10 :: cs)) := by
  obtain ⟨k, below⟩ := skipBlanks_newline_below cs above
  exact ⟨k, tokensAfter_below below .nil⟩

end ScriptTools.Guest.Lexer
