import ScriptTools.Guest.Parser
import ScriptTools.Proofs.Guest.LexerSteps

/-!
Plain texts are read token by token in a counted number of steps, so that the syntax of a text that is known
can be computed. Plain texts have no comments and no blanks but spaces and line breaks.
-/

namespace ScriptTools.Guest

namespace Lexer

open Text

/-- The tokens of a plain text. -/
def scan : Nat → Nat → List UInt8 → Option (List Lexeme)
  | 0, _, _ => none
  | _ + 1, line, [] => some [⟨.eof, line⟩]
  | n + 1, line, b :: rest =>
    if b = 10 then scan n (line + 1) (dropPair 10 rest)
    else if b = 32 then scan n line rest
    else if isNewline b || isGap b || b == 45 then none
    else
      match readToken line b rest with
      | .ok (t, l, rest) => (scan n l rest).map (⟨t, l⟩ :: ·)
      | .error _ => none

theorem tokensAfter_of_scan {n line : Nat} {cs : List UInt8} {ts : List Lexeme} (run : scan n line cs = some ts) :
    tokensAfter [] line cs = ts := by
  induction n generalizing line cs ts with
  | zero => cases run
  | succ n ih =>
    cases cs with
    | nil =>
      cases run
      exact tokensAfter_nil
    | cons b rest =>
      rw [scan] at run
      split at run
      · rename_i newline
        subst newline
        rw [tokensAfter_newline]
        exact ih run
      · split at run
        · rename_i space
          subst space
          rw [tokensAfter_space]
          exact ih run
        · split at run
          · cases run
          · rename_i starts
            simp only [Bool.or_eq_true, not_or, Bool.not_eq_true, beq_eq_false_iff_ne] at starts
            split at run
            · rename_i t l rest' read
              obtain ⟨us, others, rfl⟩ := Option.map_eq_some_iff.mp run
              rw [tokensAfter_cons ⟨starts.1.1, starts.1.2, fun minus => absurd minus starts.2⟩ read, ih others]
            · cases run

end Lexer

/-- The statements of a plain text, if it is a script. -/
def scanned (cs : List Char) : Option Block :=
  match Lexer.scan (cs.length + 1) 1 (Text.utf8 cs) with
  | some ts => (parse ts).toOption
  | none => none

/-- What is computed from the characters of a text is what the text is read as. -/
theorem compile_of_scanned {source : String} {cs : List Char} {body : Block} (text : source = String.ofList cs)
    (run : scanned cs = some body) : compile source = .ok body := by
  rw [scanned] at run
  split at run
  · rename_i ts tokens
    have same : Lexer.tokens source = ts := by
      rw [Lexer.tokens, Text.toUTF8_toList, text, String.toList_ofList]
      exact Lexer.tokensAfter_of_scan tokens
    rw [compile, same]
    cases result : parse ts with
    | error e =>
      rw [result] at run
      cases run
    | ok body' =>
      rw [result] at run
      cases run
      rfl
  · cases run

end ScriptTools.Guest
