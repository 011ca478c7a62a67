import ScriptTools.Proofs.Source.ReadBack

/-!
The tokens of the lines that bind arguments. A line is the declaration of its name with the literal of the value, and what
follows it is read as if it stood alone; the names that can be bound are the texts that are one name to the lexer.
-/

namespace ScriptTools.Source

open Guest (Env Literal Number State Token Value)
open Guest.Lexer Text

/-! Names -/

theorem lt_of_isNameByte {b : UInt8} (inner : isNameByte b = true) : b.toNat < 128 := by
  rw [isNameByte, Bool.or_eq_true, Guest.Lexer.isNameStart_iff, Guest.Lexer.isDigit_iff] at inner
  omega

/-- The characters of a text of which all bytes are of ASCII. -/
theorem ascii_of_utf8 {cs : List Char} (low : ∀ b ∈ utf8 cs, b.toNat < 128) : ∀ c ∈ cs, c.toNat < 128 := by
  intro c member
  by_contra high
  have some : String.utf8EncodeChar c ≠ [] := by
    rw [← List.length_pos_iff, String.length_utf8EncodeChar]
    exact c.utf8Size_pos
  obtain ⟨b, bs, bytes⟩ := List.exists_cons_of_ne_nil some
  have inside : b ∈ String.utf8EncodeChar c := by simp [bytes]
  have least := UInt8.le_iff_toNat_le.mp (utf8EncodeChar_high (Nat.not_lt.mp high) b inside)
  exact absurd (low b (List.mem_flatMap.mpr ⟨c, member, inside⟩)) (Nat.not_lt.mpr least)

theorem not_mem_keywords {name : String} (free : Guest.Keyword.ofText? name.toList = none) : keywords.contains name = false := by
  have all : keywords = Guest.Keyword.all.map Guest.Keyword.text := rfl
  rw [Bool.eq_false_iff, ne_eq, List.contains_iff_mem, all]
  intro member
  obtain ⟨k, among, rfl⟩ := List.mem_map.mp member
  rw [Guest.Keyword.ofText?, List.find?_eq_none] at free
  exact free k among (beq_self_eq_true _)

theorem longerMark_ne_name (second : UInt8) (long short : Guest.Mark) (rest : List UInt8) (s : ByteArray) :
    (longerMark second long short rest).1 ≠ .name s := by
  unfold longerMark
  split
  · split <;> nofun
  · nofun

theorem readMark_ne_name (b : UInt8) (rest : List UInt8) (s : ByteArray) : (readMark b rest).1 ≠ .name s := by
  unfold readMark
  split
  · nofun
  · split
    all_goals first
      | exact longerMark_ne_name _ _ _ _ _
      | exact nofun

theorem wordToken_eq_name {bytes : List UInt8} {s : ByteArray} : wordToken bytes = .name s ↔
    Guest.Keyword.ofText? (bytes.map fun b => Char.ofNat b.toNat) = none ∧ appendBytes ByteArray.empty bytes = s := by
  rw [wordToken]
  split
  · rename_i keyword
    simp [keyword]
  · rename_i none
    simp [none]

/-- A token that is a name is a word. -/
theorem readToken_eq_name {line l : Nat} {b : UInt8} {rest rest' : List UInt8} {s : ByteArray}
    (read : readToken line b rest = .ok (.name s, l, rest')) :
    Guest.Lexer.isNameStart b = true ∧ wordToken (b :: rest.takeWhile isNameByte) = .name s ∧
      rest' = rest.dropWhile isNameByte := by
  unfold readToken at read
  split at read
  · rename_i start
    rw [Except.ok.injEq, Prod.mk.injEq, Prod.mk.injEq] at read
    exact ⟨start, read.1, read.2.2.symm⟩
  · split at read
    · split at read <;> cases read
    · split at read
      · split at read <;> cases read
      · split at read
        · split at read
          · split at read <;> cases read
          · split at read <;> cases read
        · rw [Except.ok.injEq, Prod.mk.injEq] at read
          exact absurd read.1 (readMark_ne_name b rest s)

/-- A text of which the bytes are a word can be bound. -/
theorem isIdentifier_of_word {name : String} {b : UInt8} {bs : List UInt8} (bytes : utf8 name.toList = b :: bs)
    (start : Guest.Lexer.isNameStart b = true) (inner : ∀ d ∈ bs, isNameByte d = true)
    (free : Guest.Keyword.ofText? ((b :: bs).map fun b => Char.ofNat b.toNat) = none) : isIdentifier name = true := by
  have low : ∀ d ∈ utf8 name.toList, d.toNat < 128 := by
    rw [bytes]
    intro d member
    rcases List.mem_cons.mp member with rfl | member
    · exact lt_of_isNameByte (by rw [isNameByte, start, Bool.true_or])
    · exact lt_of_isNameByte (inner d member)
  have ascii := ascii_of_utf8 low
  rw [← bytes, utf8_ascii ascii, map_byte_toChar ascii] at free
  rw [utf8_ascii ascii] at bytes
  cases chars : name.toList with
  | nil =>
    rw [chars] at bytes
    cases bytes
  | cons c cs =>
    rw [chars] at bytes ascii
    cases bytes
    rw [(nameByte_eq (ascii c (by simp))).1] at start
    have rest : cs.all isNameChar = true := by
      rw [List.all_eq_true]
      intro d member
      rw [← (nameByte_eq (ascii d (by simp [member]))).2]
      exact inner _ (List.mem_map_of_mem member)
    rw [isIdentifier, chars]
    simp only [start, rest, not_mem_keywords free, Bool.not_false, Bool.and_self]

/-- The names that can be bound are the texts that are one name to the lexer. -/
theorem isIdentifier_iff_tokens {name : String} :
    isIdentifier name = true ↔ tokens name = [⟨.name name.toUTF8, 1⟩, ⟨.eof, 1⟩] := by
  constructor
  · intro identifier
    have text := @tokensAfter_identifier name identifier 1 [] endsWord_nil
    rwa [List.append_nil, tokensAfter_nil, ← toUTF8_toList] at text
  · intro text
    have whole : ¬ (Token.name name.toUTF8).IsBroken := by
      rintro ⟨_, broken⟩
      cases broken
    rw [tokens] at text
    obtain ⟨_, b, bs, _, _, read, _⟩ := readToken_of_tokensAfter (by simp) whole text
    obtain ⟨start, word, -⟩ := readToken_eq_name read
    obtain ⟨free, bytes⟩ := wordToken_eq_name.mp word
    refine isIdentifier_of_word ?_ start (fun d => List.mem_takeWhile_imp) free
    rw [← toUTF8_toList, ← bytes, toList_eq, appendBytes_data]
    rfl

/-- The names that can be bound are the texts in which a name is read up to the end. -/
theorem isIdentifier_iff_readToken {name : String} :
    isIdentifier name = true ↔
      ∃ b bs s, name.toUTF8.toList = b :: bs ∧ readToken 1 b bs = .ok (.name s, 1, []) := by
  constructor
  · intro identifier
    obtain ⟨b, bs, bytes, start, inner, word⟩ := wordToken_identifier identifier
    have read := @readToken_word 1 b [] bs start inner endsWord_nil
    rw [List.append_nil, word] at read
    exact ⟨b, bs, _, by rw [toUTF8_toList, bytes], read⟩
  · rintro ⟨b, bs, s, bytes, read⟩
    obtain ⟨start, word, rest⟩ := readToken_eq_name read
    have whole : bs.takeWhile isNameByte = bs := by
      have parts := @List.takeWhile_append_dropWhile _ isNameByte bs
      rwa [← rest, List.append_nil] at parts
    rw [whole] at word
    rw [toUTF8_toList] at bytes
    refine isIdentifier_of_word bytes start (fun d member => ?_) (wordToken_eq_name.mp word).1
    rw [← whole] at member
    exact List.mem_takeWhile_imp member

/-! Values -/

/-- Tokens that are read as one expression wherever it can end, and the value that the expression has in every state. -/
def Denotes (ts : List Token) (v : Value) : Prop :=
  ∀ line, ∃ e : Guest.Expr,
    (∀ n size behind events u rest, 2 ≤ size → Guest.Parser.Ends .smallest u.token →
      (Guest.Parser.grammar (n + 3)).expr 0 ⟨ts.map (⟨·, line⟩) ++ u :: rest, size, behind, events⟩ =
        .ok (e, ⟨u :: rest, size, line, events⟩)) ∧
    ∀ {World : Type} (env : Env) (s : State World), Guest.evalExpr env e s = .done v s

theorem Literal.denotes (l : Literal) : Denotes l.tokens l.value := by
  intro line
  refine ⟨l.expr line, fun n size behind events u rest room ends => ?_, fun env s => Guest.evalExpr_literal env l line s⟩
  exact Guest.Parser.expr_literal ⟨ends.whole, ends.operator, ends.comma, fun _ => ends.suffix rfl⟩ room

/-- The tokens of the literal of a value: a string of the bytes of the text, a keyword, an expression that is the integer, or
a numeral of a double, with a minus sign before it for a negative one. -/
inductive IsLiteral : Scalar → List Token → Prop
  | string (s : String) (form : Guest.StringForm) : IsLiteral (.string s) [.string s.toUTF8 form]
  | int {i : Int64} {ts : List Token} (denotes : Denotes ts (.int i)) : IsLiteral (.int i) ts
  | positive {x : Float} (text : List UInt8) (sign : Decimal.isNegative x = false) :
    IsLiteral (.float x) [.number (.float x) text]
  | negative {x : Float} (text : List UInt8) (sign : Decimal.isNegative x = true) :
    IsLiteral (.float x) [.mark .minus, .number (.float (-x)) text]
  | boolean (b : Bool) : IsLiteral (.boolean b) [.keyword (if b then .true_ else .false_)]

theorem isLiteral_scalarLiteral {v : Scalar} (finite : ∀ x, v = .float x → x.isFinite = true) :
    IsLiteral v (scalarLiteral v).tokens := by
  cases v with
  | string s => exact .string s _
  | int i =>
    refine .int ?_
    have value := value_scalarLiteral (.int i)
    rw [scriptValue] at value
    rw [← value]
    exact Literal.denotes _
  | float x =>
    have finite := finite x rfl
    rw [scalarLiteral]
    cases sign : Decimal.isNegative x with
    | false =>
      rw [readBack_eq finite sign]
      exact .positive _ sign
    | true =>
      have positive : Decimal.isNegative (-x) = false := by rw [Decimal.isNegative_neg finite, sign, Bool.not_true]
      rw [← readBack_neg finite, readBack_eq (Decimal.isFinite_neg finite) positive]
      exact .negative _ sign
  | boolean b => exact .boolean b

theorem literal_ok (name : String) {v : Scalar} (finite : ∀ x, v = .float x → x.isFinite = true) :
    ∃ text, literal name v = .ok text := by
  cases v with
  | float x => exact ⟨_, if_pos (finite x rfl)⟩
  | _ => exact ⟨_, rfl⟩

/-! Lines -/

/-- A byte that is no other line break stays behind a line break. -/
theorem dropPair_lone {first : UInt8} {rest : List UInt8}
    (lone : ∀ b, rest.head? = some b → isNewline b = true → b = first) : dropPair first rest = rest := by
  cases rest with
  | nil => rfl
  | cons b rest =>
    refine dropPair_eq fun second => ?_
    rw [Bool.and_eq_true, bne_iff_ne] at second
    exact second.2 (lone b rfl second.1)

/-- What follows a line break is read as it stands, one line further down. A carriage return at its front is taken for a part of
the break: the two are one line break, and it is one by itself. -/
theorem tokensAfter_break (rest : List UInt8) : ∃ k ≤ 1, (rest.head? ≠ some 13 → k = 1) ∧
    ∀ l, tokensAfter [] l (10 :: rest) = tokensAfter [] (l + k) rest := by
  have newline {b : UInt8} (newline : isNewline b = true) : b = 10 ∨ b = 13 := by
    rwa [isNewline, Bool.or_eq_true, beq_iff_eq, beq_iff_eq] at newline
  have returns (l : Nat) (rest : List UInt8) : tokensAfter [] l (13 :: rest) = tokensAfter [] (l + 1) (dropPair 13 rest) :=
    tokensAfter_congr (skipBlanks_newline rfl)
  by_cases back : rest.head? = some 13
  · obtain ⟨rest, rfl⟩ := List.head?_eq_some_iff.mp back
    by_cases feed : rest.head? = some 10
    · obtain ⟨rest, rfl⟩ := List.head?_eq_some_iff.mp feed
      obtain ⟨k, few, -, same⟩ := tokensAfter_break rest
      refine ⟨k, few, fun other => absurd rfl other, fun l => ?_⟩
      rw [tokensAfter_newline, returns, Nat.add_right_comm]
      exact same (l + 1)
    · refine ⟨0, Nat.zero_le 1, fun other => absurd rfl other, fun l => ?_⟩
      have lone : dropPair 13 rest = rest :=
        dropPair_lone fun b head here => (newline here).resolve_left fun same => feed (same ▸ head)
      rw [tokensAfter_newline, returns, lone]
      rfl
  · refine ⟨1, Nat.le_refl 1, fun _ => rfl, fun l => ?_⟩
    rw [tokensAfter_newline]
    exact congrArg _ (dropPair_lone fun b head here => (newline here).resolve_right fun same => back (same ▸ head))
termination_by rest.length

/-- A line is read as the declaration of its name with the literal of its value, and what follows it as what it is by itself. The
names that can be bound are the texts that are one name. -/
theorem tokensAfter_bound :
    (∀ name : String,
      (isIdentifier name = true ↔ tokens name = [⟨.name name.toUTF8, 1⟩, ⟨.eof, 1⟩]) ∧
      (isIdentifier name = true ↔
        ∃ b bs s, name.toUTF8.toList = b :: bs ∧ readToken 1 b bs = .ok (.name s, 1, []))) ∧
    ∀ (bindings : List Binding) (a : Argument) (b : Binding), isIdentifier a.name = true →
      (bindings.find? fun b => b.name = a.name) = some b → (∀ x, b.value = .float x → x.isFinite = true) →
      ∃ value ts, literal b.name b.value = .ok value ∧ IsLiteral b.value ts ∧ Reads value.toUTF8.toList ts ∧
        line bindings a = .ok ("local " ++ a.name ++ " = " ++ value ++ "\n") ∧
        ∀ rest, ∃ k ≤ 1, (rest.head? ≠ some 13 → k = 1) ∧
          ∀ l, tokensAfter [] l (("local " ++ a.name ++ " = " ++ value ++ "\n").toUTF8.toList ++ rest) =
            (.keyword .local_ :: .name a.name.toUTF8 :: .mark .assign :: ts).map (⟨·, l⟩) ++
              tokensAfter [] (l + k) rest := by
  refine ⟨fun name => ⟨isIdentifier_iff_tokens, isIdentifier_iff_readToken⟩, ?_⟩
  intro bindings a b identifier found finite
  obtain ⟨value, written⟩ := literal_ok b.name finite
  have bound : boundLiteral bindings a = .ok value := by
    rw [boundLiteral, found]
    exact written
  have run := line_eq_ok.mpr ⟨identifier, value, bound, rfl⟩
  have stands : boundValue bindings a = scalarLiteral b.value := by rw [boundValue, found]
  refine ⟨value, _, written, isLiteral_scalarLiteral finite, reads_literal written, run, fun rest => ?_⟩
  have plain : Plain bindings a := .inr (by rw [found]; rfl)
  obtain ⟨front, bytes, reads⟩ := line_reads plain run
  obtain ⟨k, few, one, same⟩ := tokensAfter_break rest
  refine ⟨k, few, one, fun l => ?_⟩
  rw [bytes, ← same, ← stands]
  have text := reads l rest
  rw [← List.cons_append, List.append_assoc]
  exact text

/-- The smallest integer before a carriage return, which the break of its line takes in. -/
theorem tokensAfter_bound_smallest : isIdentifier "n" = true ∧
    line smallest { name := "n", type := .int } = .ok "local n = (-9223372036854775807 - 1)\n" ∧
    ∃ ts, IsLiteral (.int Int64.minValue) ts ∧ ∃ k ≤ 1, ∀ l,
      tokensAfter [] l ("local n = (-9223372036854775807 - 1)\n".toUTF8.toList ++ "\rreturn n".toUTF8.toList) =
        (.keyword .local_ :: .name "n".toUTF8 :: .mark .assign :: ts).map (⟨·, l⟩) ++
          tokensAfter [] (l + k) "\rreturn n".toUTF8.toList := by
  have identifier : isIdentifier "n" = true := by decide
  obtain ⟨value, ts, written, form, -, run, following⟩ := tokensAfter_bound.2 smallest { name := "n", type := .int }
    ⟨"n", .int Int64.minValue⟩ identifier rfl nofun
  have text : literal "n" (.int Int64.minValue) = .ok "(-9223372036854775807 - 1)" := rfl
  cases text.symm.trans written
  obtain ⟨k, few, -, same⟩ := following "\rreturn n".toUTF8.toList
  exact ⟨identifier, run, ts, form, k, few, same⟩

end ScriptTools.Source
