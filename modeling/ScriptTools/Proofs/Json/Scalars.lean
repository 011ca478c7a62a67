import ScriptTools.Proofs.Json.Number
import ScriptTools.Proofs.Json.Values

/-!
Texts of values that are no arrays and no objects: one token with blanks around it, which shows how the value was
written.
-/

namespace ScriptTools.Json

namespace Token

/-- Characters as tokens with blanks around them. -/
inductive Spaced : List Char → List Token → Prop
  | nil : Spaced [] []
  | blank {c : Char} {cs : List Char} {ts : List Token} : isSpace c = true → Spaced cs ts → Spaced (c :: cs) ts
  | token {c : Char} {cs rest : List Char} {t : Token} {ts : List Token} :
      scan c cs = some (t, rest) → Spaced rest ts → Spaced (c :: cs) (t :: ts)

theorem spaced_of_readFrom {n : Nat} {done ts : List Token} {cs : List Char} (run : readFrom n done cs = some ts) :
    ∃ us, ts = done.reverse ++ us ∧ Spaced cs us := by
  induction n generalizing done cs with
  | zero =>
    cases cs with
    | nil =>
      rw [readFrom] at run
      cases run
      exact ⟨[], (List.append_nil _).symm, .nil⟩
    | cons c cs => cases run
  | succ n ih =>
    cases cs with
    | nil =>
      rw [readFrom] at run
      cases run
      exact ⟨[], (List.append_nil _).symm, .nil⟩
    | cons c cs =>
      rw [readFrom] at run
      cases space : isSpace c with
      | true =>
        rw [space, if_pos rfl] at run
        obtain ⟨us, same, spaced⟩ := ih run
        exact ⟨us, same, .blank space spaced⟩
      | false =>
        rw [space, if_neg nofun] at run
        cases scanned : scan c cs with
        | none =>
          rw [scanned] at run
          cases run
        | some r =>
          obtain ⟨t, rest⟩ := r
          rw [scanned] at run
          obtain ⟨us, same, spaced⟩ := ih run
          exact ⟨t :: us, by rw [same, List.reverse_cons, List.append_assoc]; rfl, .token scanned spaced⟩

/-- Whether characters are blanks. -/
def Blank (cs : List Char) : Prop := ∀ c ∈ cs, isSpace c = true

theorem Spaced.blank_of_nil {cs : List Char} (spaced : Spaced cs []) : Blank cs := by
  generalize none : ([] : List Token) = ts at spaced
  induction spaced with
  | nil => exact nofun
  | blank space _ ih => exact List.forall_mem_cons.mpr ⟨space, ih none⟩
  | token => cases none

theorem Spaced.single {cs : List Char} {t : Token} (spaced : Spaced cs [t]) :
    ∃ left c inner right, cs = left ++ c :: inner ∧ Blank left ∧ scan c inner = some (t, right) ∧ Blank right := by
  generalize one : [t] = ts at spaced
  induction spaced with
  | nil => cases one
  | @blank c _ _ space _ ih =>
    obtain ⟨left, d, inner, right, rfl, blank, scanned, rest⟩ := ih one
    exact ⟨c :: left, d, inner, right, rfl, List.forall_mem_cons.mpr ⟨space, blank⟩, scanned, rest⟩
  | token scanned rest =>
    cases one
    exact ⟨[], _, _, _, rfl, nofun, scanned, rest.blank_of_nil⟩

/-! Words, numbers and strings -/

theorem scan_eq_boolean {c : Char} {cs rest : List Char} {b : Bool} (scanned : scan c cs = some (.boolean b, rest)) :
    c :: cs = (if b then ['t', 'r', 'u', 'e'] else ['f', 'a', 'l', 's', 'e']) ++ rest := by
  unfold scan at scanned
  split at scanned
  all_goals try split at scanned
  all_goals simp_all

theorem scan_eq_string {c : Char} {cs rest : List Char} {s : Option String} (scanned : scan c cs = some (.string s, rest)) :
    c = '"' ∧ scanString {} cs = some (s, rest) := by
  unfold scan at scanned
  split at scanned
  all_goals try split at scanned
  all_goals simp_all

theorem span_eq {cs ds rest : List Char} (run : cs.span Char.isDigit = (ds, rest)) :
    cs = ds ++ rest ∧ ∀ d ∈ ds, d.isDigit = true := by
  rw [List.span_eq_takeWhile_dropWhile, Prod.mk.injEq] at run
  obtain ⟨rfl, rfl⟩ := run
  exact ⟨(List.takeWhile_append_dropWhile ..).symm, fun d member => List.mem_takeWhile_imp member⟩

/-- How the exponent of a number may be written. -/
inductive ExponentText : Option (Bool × List Char) → List Char → Prop
  | none : ExponentText none []
  | minus {mark : Char} {ds : List Char} : mark = 'e' ∨ mark = 'E' → ExponentText (some (true, ds)) (mark :: '-' :: ds)
  | plus {mark : Char} {ds : List Char} : mark = 'e' ∨ mark = 'E' → ExponentText (some (false, ds)) (mark :: '+' :: ds)
  | unsigned {mark : Char} {ds : List Char} : mark = 'e' ∨ mark = 'E' → ExponentText (some (false, ds)) (mark :: ds)

theorem scanExponent_eq_some {cs rest : List Char} {e : Option (Bool × List Char)}
    (run : scanExponent cs = some (e, rest)) :
    (∃ text, ExponentText e text ∧ cs = text ++ rest) ∧
      ∀ negative ds, e = some (negative, ds) → ds ≠ [] ∧ ∀ d ∈ ds, d.isDigit = true := by
  cases cs with
  | nil =>
    cases run
    exact ⟨⟨[], .none, rfl⟩, nofun⟩
  | cons mark cs =>
    rw [scanExponent.eq_def] at run
    dsimp only at run
    by_cases marked : (mark == 'e' || mark == 'E') = true
    · rw [if_pos marked] at run
      have marked : mark = 'e' ∨ mark = 'E' := by simpa using marked
      have finish (sign : Bool × List Char)
          (signed : ∀ ds rest, sign.2 = ds ++ rest → ∃ text, ExponentText (some (sign.1, ds)) text ∧ mark :: cs = text ++ rest)
          (run : (if (sign.2.span Char.isDigit).1.isEmpty then Option.none
            else some (some (sign.1, (sign.2.span Char.isDigit).1), (sign.2.span Char.isDigit).2)) = some (e, rest)) :
          (∃ text, ExponentText e text ∧ mark :: cs = text ++ rest) ∧
            ∀ negative ds, e = some (negative, ds) → ds ≠ [] ∧ ∀ d ∈ ds, d.isDigit = true := by
        obtain ⟨same, digits⟩ := span_eq (Prod.eta (sign.2.span Char.isDigit)).symm
        split at run
        · cases run
        · rename_i more
          cases run
          exact ⟨signed _ _ same, by rintro _ _ ⟨⟩; exact ⟨by simpa using more, digits⟩⟩
      refine finish _ (fun ds rest same => ?_) run
      split at same
      · exact ⟨_, .minus marked, congrArg (mark :: '-' :: ·) same⟩
      · exact ⟨_, .plus marked, congrArg (mark :: '+' :: ·) same⟩
      · exact ⟨_, .unsigned marked, congrArg (mark :: ·) same⟩
    · rw [if_neg marked] at run
      cases run
      exact ⟨⟨[], .none, rfl⟩, nofun⟩

/-- How a number was written: its digits, and an exponent in one of the allowed spellings. -/
theorem scanNumber_eq_some {negative : Bool} {cs rest : List Char} {n : NumberToken}
    (run : scanNumber negative cs = some (n, rest)) :
    n.negative = negative ∧ IsNumber n ∧
      ∃ text, ExponentText n.exponent text ∧ cs = n.whole ++ (fractionChars n.fraction ++ (text ++ rest)) := by
  rw [scanNumber] at run
  cases spanned : cs.span Char.isDigit with
  | mk whole after =>
  obtain ⟨rfl, digits⟩ := span_eq spanned
  simp only [spanned] at run
  split at run
  · cases run
  rename_i fine
  simp only [Bool.or_eq_true, Bool.and_eq_true, List.isEmpty_iff, beq_iff_eq, bne_iff_ne, not_or, not_and,
    Decidable.not_not] at fine
  obtain ⟨some, lead⟩ := fine
  have done (fraction : List Char) {rest' : List Char} (digits' : ∀ d ∈ fraction, d.isDigit = true)
      (same : after = fractionChars fraction ++ rest')
      (run : (scanExponent rest' >>= fun r => pure (⟨negative, whole, fraction, r.1⟩, r.2)) = Option.some (n, rest)) :
      n.negative = negative ∧ IsNumber n ∧ ∃ text, ExponentText n.exponent text ∧
        whole ++ after = n.whole ++ (fractionChars n.fraction ++ (text ++ rest)) := by
    obtain ⟨⟨exponent, rest''⟩, scanned, run⟩ := Option.bind_eq_some_iff.mp run
    cases run
    obtain ⟨⟨text, written, rfl⟩, exponents⟩ := scanExponent_eq_some scanned
    exact ⟨rfl, ⟨digits, some, lead, digits', exponents⟩, text, written, by rw [same]⟩
  split at run
  · rename_i more
    split at run
    · cases run
    · rename_i point
      have spanned' : more.span Char.isDigit = ((more.span Char.isDigit).1, (more.span Char.isDigit).2) := rfl
      obtain ⟨same, digits'⟩ := span_eq spanned'
      refine done _ digits' ?_ run
      rw [fractionChars, if_neg point]
      exact congrArg ('.' :: ·) same
  · exact done [] (by simp) rfl run

theorem scan_eq_number {c : Char} {cs rest : List Char} {n : NumberToken} (scanned : scan c cs = some (.number n, rest)) :
    IsNumber n ∧ ∃ text, ExponentText n.exponent text ∧
      c :: cs = (if n.negative then ['-'] else []) ++ (n.whole ++ (fractionChars n.fraction ++ (text ++ rest))) := by
  unfold scan at scanned
  split at scanned
  all_goals try split at scanned
  all_goals try cases scanned
  · obtain ⟨_, _, same⟩ := Option.map_eq_some_iff.mp scanned
    cases same
  · obtain ⟨_, run, same⟩ := Option.map_eq_some_iff.mp scanned
    cases same
    obtain ⟨negative, number, text, written, rfl⟩ := scanNumber_eq_some run
    exact ⟨number, text, written, by rw [negative]; rfl⟩
  · obtain ⟨_, run, same⟩ := Option.map_eq_some_iff.mp scanned
    cases same
    obtain ⟨negative, number, text, written, same⟩ := scanNumber_eq_some run
    exact ⟨number, text, written, by rw [negative]; exact same⟩

end Token

namespace Document

/-- The token that a document of one token is. -/
def token? : Document → Option Token
  | .null => some .null
  | .boolean b => some (.boolean b)
  | .number n => some (.number n)
  | .string s => some (.string s)
  | .array _ | .object _ => none

/-- Whether what is being read stands between brackets. -/
def Nested : Expects → List Open → Prop
  | .value, stack => stack ≠ []
  | .afterValue d, stack => stack ≠ [] ∨ d.token? = none
  | _, _ => True

theorem token?_of_build {expects : Expects} {fields : List (Option String × Document)} {stack : List Open}
    {ts : List Token} {d : Document} (nested : Nested expects stack)
    (built : build expects fields stack ts = some d) : d.token? = none := by
  induction ts generalizing expects fields stack with
  | nil =>
    rw [build.eq_def] at built
    dsimp only at built
    split at built
    · cases built
      exact nested.resolve_left fun some => some rfl
    · cases built
  | cons t ts ih =>
    rw [build.eq_def] at built
    dsimp only at built
    repeat' split at built
    all_goals first
      | cases built
      | exact ih (by simp_all [Nested, token?]) built

theorem eq_of_build {ts : List Token} {d : Document} {t : Token} (built : build .value [] [] ts = some d)
    (token : d.token? = some t) : ts = [t] := by
  have after {d' : Document} {ts : List Token} (built : build (.afterValue d') [] [] ts = some d) : ts = [] ∧ d' = d := by
    cases ts with
    | nil =>
      cases built
      exact ⟨rfl, rfl⟩
    | cons => cases built
  have bracket {expects : Expects} {ts : List Token} (nested : Nested expects []) :
      build expects [] [] ts ≠ some d := by
    intro built
    cases (token?_of_build nested built).symm.trans token
  cases ts with
  | nil => cases built
  | cons u ts =>
    rw [build.eq_def] at built
    dsimp only at built
    split at built
    case h_5 => exact absurd built (bracket trivial)
    case h_6 => exact absurd built (bracket trivial)
    case h_7 => cases built
    all_goals
      obtain ⟨rfl, rfl⟩ := after built
      cases token
      rfl

end Document

/-- A text of one token, with blanks around it. -/
theorem exists_scan_of_read? {text : String} {d : Document} {t : Token} (read : Document.read? text = some d)
    (token : d.token? = some t) :
    ∃ left c inner right, text.toList = left ++ c :: inner ∧ Token.Blank left ∧ Token.scan c inner = some (t, right) ∧
      Token.Blank right := by
  obtain ⟨ts, tokens, built⟩ := Option.bind_eq_some_iff.mp read
  rw [Document.eq_of_build built token] at tokens
  obtain ⟨us, rfl, spaced⟩ := Token.spaced_of_readFrom tokens
  exact spaced.single

end ScriptTools.Json
