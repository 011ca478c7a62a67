import Mathlib.Tactic.IntervalCases
import ScriptTools.Json.Document
import ScriptTools.Proofs.Json.Number
import ScriptTools.Proofs.Json.Text

/-!
The text of a value is read as a document: token by token, and from the tokens bracket by bracket.
-/

namespace ScriptTools.Json

namespace Token

/-! Strings -/

/-- Whether a character stands for itself between quotes. -/
def standsAlone (c : Char) : Prop := 32 ≤ c.toNat ∧ c.toNat ≠ 34 ∧ c.toNat ≠ 92

instance (c : Char) : Decidable (standsAlone c) := inferInstanceAs (Decidable (_ ∧ _))

theorem escapeChar_alone {c : Char} (alone : standsAlone c) : escapeChar c = [c] := by
  obtain ⟨low, quote, backslash⟩ := alone
  unfold escapeChar
  split
  · exact absurd rfl quote
  · exact absurd rfl backslash
  · exact absurd low (by decide)
  · exact absurd low (by decide)
  · exact absurd low (by decide)
  · exact absurd low (by decide)
  · exact absurd low (by decide)
  · rw [if_neg (Nat.not_lt.mpr low)]

theorem scanString_alone {c : Char} (alone : standsAlone c) (s : Scan) (rest : List Char) :
    scanString s (c :: rest) = scanString (s.push c) rest := by
  obtain ⟨low, quote, backslash⟩ := alone
  rw [scanString]
  · simp [Nat.not_lt.mpr low, show c ≠ '\\' by rintro rfl; exact backslash rfl]
  · rintro rfl
    exact quote rfl
  · rintro _ _ _ _ _ rfl
    exact absurd rfl backslash
  · rintro _ _ rfl
    exact absurd rfl backslash

theorem scanString_escapeChar (c : Char) (s : Scan) (rest : List Char) :
    scanString s (escapeChar c ++ rest) = scanString (s.push c) rest := by
  by_cases alone : standsAlone c
  · rw [escapeChar_alone alone, List.singleton_append, scanString_alone alone]
  have few : c.toNat < 32 ∨ c.toNat = 34 ∨ c.toNat = 92 := by
    unfold standsAlone at alone
    omega
  generalize size : c.toNat = n at few
  obtain rfl : c = Char.ofNat n := by rw [← size, Char.ofNat_toNat]
  clear size alone
  rcases few with low | rfl | rfl
  · interval_cases n <;> rfl
  · rfl
  · rfl

theorem scanString_escaped (cs : List Char) {s : Scan} (whole : s.half = none) (rest : List Char) :
    scanString s (cs.flatMap escapeChar ++ '"' :: rest) =
      some ((({ s with text := s.text ++ String.ofList cs } : Scan)).finish, rest) := by
  induction cs generalizing s with
  | nil => simp [scanString]
  | cons c cs ih =>
    have pushed : s.text.push c ++ String.ofList cs = s.text ++ String.ofList (c :: cs) := by
      rw [← String.toList_inj]
      simp
    rw [List.flatMap_cons, List.append_assoc, scanString_escapeChar, ih rfl]
    simp [Scan.push, Scan.finish, whole, pushed]

theorem scan_quoted (s : String) (rest : List Char) :
    ∃ cs, quotedChars s ++ rest = '"' :: cs ∧ scan '"' cs = some (.string (some s), rest) := by
  refine ⟨s.toList.flatMap escapeChar ++ '"' :: rest, by simp [quotedChars], ?_⟩
  rw [scan, scanString_escaped _ rfl]
  simp [Scan.finish]

/-! Tokens in a row -/

/-- Whether the characters `cs` are read as the tokens `ts` and then as `rest`. -/
def Reads (cs : List Char) (ts : List Token) (rest : List Char) : Prop :=
  ∀ done n, cs.length ≤ n → ∃ m, rest.length ≤ m ∧ readFrom n done cs = readFrom m (ts.reverse ++ done) rest

theorem Reads.refl (cs : List Char) : Reads cs [] cs := fun _ n enough => ⟨n, enough, rfl⟩

theorem Reads.trans {cs mid rest : List Char} {ts us : List Token} (first : Reads cs ts mid) (next : Reads mid us rest) :
    Reads cs (ts ++ us) rest := by
  intro done n enough
  obtain ⟨m, bound, run⟩ := first done n enough
  obtain ⟨k, bound', run'⟩ := next (ts.reverse ++ done) m bound
  exact ⟨k, bound', by rw [run, run', List.reverse_append, List.append_assoc]⟩

theorem isSpace_of_scan {c : Char} {cs : List Char} {r : Token × List Char} (scanned : scan c cs = some r) :
    isSpace c = false := by
  by_contra space
  simp only [isSpace, Bool.not_eq_false, Bool.or_eq_true, beq_iff_eq] at space
  rcases space with ((rfl | rfl) | rfl) | rfl <;> cases scanned

theorem reads_of_scan {c : Char} {cs rest : List Char} {t : Token} (scanned : scan c cs = some (t, rest))
    (shorter : rest.length ≤ cs.length) : Reads (c :: cs) [t] rest := by
  have noSpace := isSpace_of_scan scanned
  intro done n enough
  cases n with
  | zero => cases enough
  | succ n =>
    refine ⟨n, Nat.le_trans shorter (Nat.le_of_succ_le_succ enough), ?_⟩
    rw [readFrom, noSpace, scanned]
    rfl

theorem readAll?_of_reads {cs : List Char} {ts : List Token} (reads : Reads cs ts []) :
    readAll? (String.ofList cs) = some ts := by
  obtain ⟨m, _, run⟩ := reads [] cs.length (Nat.le_refl _)
  rw [readAll?, String.toList_ofList, run, List.append_nil]
  cases m <;> simp [readFrom]

end Token

/-- The number that a text is. -/
def numberOf : List Char → NumberToken
  | [] => ⟨false, [], [], none⟩
  | c :: cs =>
    match Token.scan c cs with
    | some (.number n, _) => n
    | _ => ⟨false, [], [], none⟩

mutual

/-- The tokens of the text of a value. -/
def tokens : Json → List Token
  | .null => [.null]
  | .bool b => [.boolean b]
  | .int i => [.number (numberOf (toString i).toList)]
  | .float x => if x.isFinite then [.number (numberOf (floatText x).toList)] else [.null]
  | .str s => [.string (some s)]
  | .arr [] => [.beginArray, .endArray]
  | .arr (v :: rest) => .beginArray :: tokens v ++ itemsTokens rest ++ [.endArray]
  | .obj [] => [.beginObject, .endObject]
  | .obj ((name, v) :: rest) =>
    .beginObject :: .string (some name) :: .colon :: tokens v ++ fieldsTokens rest ++ [.endObject]

def itemsTokens : List Json → List Token
  | [] => []
  | v :: rest => .comma :: tokens v ++ itemsTokens rest

def fieldsTokens : List (String × Json) → List Token
  | [] => []
  | (name, v) :: rest => .comma :: .string (some name) :: .colon :: tokens v ++ fieldsTokens rest

end

mutual

/-- The document that the text of a value is. -/
def document : Json → Document
  | .null => .null
  | .bool b => .boolean b
  | .int i => .number (numberOf (toString i).toList)
  | .float x => if x.isFinite then .number (numberOf (floatText x).toList) else .null
  | .str s => .string (some s)
  | .arr items => .array (documents items)
  | .obj fields => .object (namedDocuments fields)

def documents : List Json → List Document
  | [] => []
  | v :: rest => document v :: documents rest

def namedDocuments : List (String × Json) → List (Option String × Document)
  | [] => []
  | (name, v) :: rest => (some name, document v) :: namedDocuments rest

end

namespace Token

theorem reads_number {cs rest : List Char} (number : IsNumberText cs) (stop : EndsNumber rest) :
    Reads (cs ++ rest) [.number (numberOf cs)] rest := by
  obtain ⟨n, number, rfl⟩ := number
  have alone : numberOf (numberChars n) = n := by
    obtain ⟨c, cs, text, scanned⟩ := scan_number number (nofun : EndsNumber [])
    rw [List.append_nil] at text
    rw [text, numberOf, scanned]
  obtain ⟨c, cs, text, scanned⟩ := scan_number number stop
  rw [alone, text]
  refine reads_of_scan scanned ?_
  have some := List.length_pos_iff.mpr number.nonempty
  have lengths := congrArg List.length text
  simp only [numberChars, List.length_append, List.length_cons] at lengths
  omega

theorem reads_quoted (s : String) (rest : List Char) : Reads (quotedChars s ++ rest) [.string (some s)] rest := by
  obtain ⟨cs, text, scanned⟩ := scan_quoted s rest
  rw [text]
  refine reads_of_scan scanned ?_
  have lengths := congrArg List.length text
  simp only [quotedChars, List.length_append, List.length_cons] at lengths
  omega

/-- A mark of one character is one token. -/
theorem reads_mark {c : Char} {t : Token} (scanned : ∀ rest, scan c rest = some (t, rest)) (rest : List Char) :
    Reads (c :: rest) [t] rest :=
  reads_of_scan (scanned rest) (Nat.le_refl _)

theorem endsNumber_cons {c : Char} (mark : c.isDigit = false ∧ c ≠ '.' ∧ c ≠ 'e' ∧ c ≠ 'E') (rest : List Char) :
    EndsNumber (c :: rest) := by
  intro d first
  cases first
  exact mark

theorem endsNumber_items (items : List Json) {rest : List Char} (stop : EndsNumber rest) :
    EndsNumber (itemsChars items ++ rest) := by
  cases items with
  | nil => exact stop
  | cons v items => exact endsNumber_cons (by decide) _

theorem endsNumber_fields (fields : List (String × Json)) {rest : List Char} (stop : EndsNumber rest) :
    EndsNumber (fieldsChars fields ++ rest) := by
  cases fields with
  | nil => exact stop
  | cons field fields => exact endsNumber_cons (by decide) _

/-- A member of an object: its name, a colon and its value. -/
theorem reads_member (name : String) {v rest : List Char} {ts : List Token} (value : Reads (v ++ rest) ts rest) :
    Reads (quotedChars name ++ ':' :: (v ++ rest)) (.string (some name) :: .colon :: ts) rest :=
  (reads_quoted name _).trans ((reads_mark (fun _ => rfl) _).trans value)

mutual

theorem reads_chars (v : Json) {rest : List Char} (stop : EndsNumber rest) : Reads (chars v ++ rest) (tokens v) rest := by
  match v with
  | .null => exact reads_of_scan rfl (by simp; omega)
  | .bool b => cases b <;> exact reads_of_scan rfl (by simp; omega)
  | .int i => exact reads_number (isNumberText_int i) stop
  | .float x =>
    by_cases finite : x.isFinite = true
    · simpa [chars, tokens, finite] using reads_number (isNumberText_float finite) stop
    · have text : (floatText x).toList = ['n', 'u', 'l', 'l'] := by simp [floatText, finite]
      rw [chars, text, tokens, if_neg finite]
      exact reads_of_scan rfl (by simp; omega)
  | .str s => exact reads_quoted s rest
  | .arr [] =>
    exact (reads_mark (fun _ => rfl) _).trans (reads_mark (fun _ => rfl) rest)
  | .arr (v :: items) =>
    have close := endsNumber_cons (c := ']') (by decide) rest
    have inner := (reads_chars v (endsNumber_items items close)).trans (reads_items items close)
    have whole := (reads_mark (c := '[') (fun _ => rfl) _).trans (inner.trans (reads_mark (fun _ => rfl) rest))
    simpa [chars, tokens] using whole
  | .obj [] =>
    exact (reads_mark (fun _ => rfl) _).trans (reads_mark (fun _ => rfl) rest)
  | .obj ((name, v) :: fields) =>
    have close := endsNumber_cons (c := '}') (by decide) rest
    have inner := (reads_member name (reads_chars v (endsNumber_fields fields close))).trans (reads_fields fields close)
    have whole := (reads_mark (c := '{') (fun _ => rfl) _).trans (inner.trans (reads_mark (fun _ => rfl) rest))
    simpa [chars, tokens] using whole

theorem reads_items (items : List Json) {rest : List Char} (stop : EndsNumber rest) :
    Reads (itemsChars items ++ rest) (itemsTokens items) rest := by
  match items with
  | [] => exact Reads.refl rest
  | v :: items =>
    have inner := (reads_chars v (endsNumber_items items stop)).trans (reads_items items stop)
    simpa [itemsChars, itemsTokens] using (reads_mark (c := ',') (fun _ => rfl) _).trans inner

theorem reads_fields (fields : List (String × Json)) {rest : List Char} (stop : EndsNumber rest) :
    Reads (fieldsChars fields ++ rest) (fieldsTokens fields) rest := by
  match fields with
  | [] => exact Reads.refl rest
  | (name, v) :: fields =>
    have inner := (reads_member name (reads_chars v (endsNumber_fields fields stop))).trans (reads_fields fields stop)
    simpa [fieldsChars, fieldsTokens] using (reads_mark (c := ',') (fun _ => rfl) _).trans inner

end

theorem readAll?_compact (v : Json) : readAll? v.compact = some (tokens v) := by
  have reads := reads_chars v (nofun : EndsNumber [])
  rw [List.append_nil] at reads
  rw [← readAll?_of_reads reads, ← compact_toList, String.ofList_toList]

end Token

namespace Document

/-- The first item of an array is read like any other value, with the array open. -/
theorem build_first (v : Json) (fields : List (Option String × Document)) (stack : List Open) (rest : List Token) :
    build .valueOrEnd fields stack (tokens v ++ rest) = build .value fields (.array [] :: stack) (tokens v ++ rest) := by
  match v with
  | .null | .bool _ | .int _ | .str _ | .arr [] | .arr (_ :: _) | .obj [] | .obj (_ :: _) => rfl
  | .float x => by_cases finite : x.isFinite = true <;> simp [tokens, finite, build]

mutual

theorem build_tokens (v : Json) (fields : List (Option String × Document)) (stack : List Open) (rest : List Token) :
    build .value fields stack (tokens v ++ rest) = build (.afterValue (document v)) [] stack rest := by
  match v with
  | .null | .bool _ | .int _ | .str _ | .arr [] | .obj [] => rfl
  | .float x => by_cases finite : x.isFinite = true <;> simp [tokens, document, finite, build]
  | .arr (v :: items) =>
    have first := build_tokens v [] (.array [] :: stack) (itemsTokens items ++ .endArray :: rest)
    have later := build_items (document v) items [] stack rest
    simp only [tokens, List.cons_append, List.append_assoc, List.nil_append, build, build_first, first, later,
      document, documents, List.reverse_nil]
  | .obj ((name, v) :: fields) =>
    have first := build_tokens v [] (.object [] (some name) :: stack) (fieldsTokens fields ++ .endObject :: rest)
    have later := build_fields (some name) (document v) fields [] stack rest
    simp only [tokens, List.cons_append, List.append_assoc, List.nil_append, build, first, later, document,
      namedDocuments, List.reverse_nil]

/-- The items after one that has been read. -/
theorem build_items (d : Document) (items : List Json) (done : List Document) (stack : List Open) (rest : List Token) :
    build (.afterValue d) [] (.array done :: stack) (itemsTokens items ++ .endArray :: rest) =
      build (.afterValue (.array (done.reverse ++ d :: documents items))) [] stack rest := by
  match items with
  | [] => simp [itemsTokens, documents, build]
  | v :: items =>
    have next := build_tokens v [] (.array (d :: done) :: stack) (itemsTokens items ++ .endArray :: rest)
    have later := build_items (document v) items (d :: done) stack rest
    simp only [itemsTokens, List.cons_append, List.append_assoc, build, next, later, documents, List.reverse_cons,
      List.nil_append]

/-- The members after one that has been read. -/
theorem build_fields (name : Option String) (d : Document) (fields : List (String × Json))
    (done : List (Option String × Document)) (stack : List Open) (rest : List Token) :
    build (.afterValue d) [] (.object done name :: stack) (fieldsTokens fields ++ .endObject :: rest) =
      build (.afterValue (.object (done.reverse ++ (name, d) :: namedDocuments fields))) [] stack rest := by
  match fields with
  | [] => simp [fieldsTokens, namedDocuments, build]
  | (other, v) :: fields =>
    have next := build_tokens v [] (.object ((name, d) :: done) (some other) :: stack)
      (fieldsTokens fields ++ .endObject :: rest)
    have later := build_fields (some other) (document v) fields ((name, d) :: done) stack rest
    simp only [fieldsTokens, List.cons_append, List.append_assoc, build, next, later, namedDocuments,
      List.reverse_cons, List.nil_append]

end

/-- The text of every value is a document. -/
theorem read?_compact (v : Json) : read? v.compact = some (document v) := by
  have built := build_tokens v [] [] []
  rw [List.append_nil] at built
  rw [read?, Token.readAll?_compact]
  exact built

end Document

end ScriptTools.Json
