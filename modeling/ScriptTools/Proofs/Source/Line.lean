import ScriptTools.Proofs.Guest.Declarations
import ScriptTools.Proofs.Guest.LexerSteps
import ScriptTools.Proofs.Source.FloatText
import ScriptTools.Proofs.Source.Quoted

/-!
The lines that bind arguments, as the lexer reads them: a declaration of the name with the literal of its
value, and nothing that reaches into what follows.
-/

namespace ScriptTools.Source

open Guest (Literal Number)
open Guest.Lexer Text

/-- The decimal text of the magnitude of a double. -/
def magnitudeText (x : Float) : List Char :=
  if (Decimal.Binary.ofFloat x).significand = 0 then ['0', '.', '0']
  else Decimal.Layout.result.magnitudeText (Decimal.Binary.ofFloat x)

/-- The magnitude that is read back from the text of a double. -/
def readBack (x : Float) : Float := (Number.readFloat? false (magnitudeText x)).getD 0

/-- The literal that stands for a value. -/
def scalarLiteral : Scalar → Literal
  | .string s => .string s.toUTF8
  | .int i =>
    if i = Int64.minValue then .smallest
    else .number (decide (i.toInt < 0)) (.int (Int64.ofInt i.toInt.natAbs))
      ((Decimal.digitChars i.toInt.natAbs).map byte)
  | .float x => .number (Decimal.isNegative x) (.float (readBack x)) ((magnitudeText x).map byte)
  | .boolean b => .bool b

/-- A text of one line that is read as some tokens before a line break. -/
def Reads (cs : List UInt8) (ts : List Guest.Token) : Prop :=
  ∀ line rest, tokensAfter [] line (cs ++ 10 :: rest) = ts.map (⟨·, line⟩) ++ tokensAfter [] line (10 :: rest)

theorem reads_quote (s : String) : Reads (quote s).toUTF8.toList (Literal.string s.toUTF8).tokens := by
  intro line rest
  obtain ⟨bytes, text, read⟩ := @readToken_quote s line (10 :: rest)
  rw [text]
  exact tokensAfter_cons ⟨rfl, rfl, nofun⟩ read

/-- No second hyphen follows the one before a numeral. -/
theorem head?_digits {d : Char} {ds : List Char} {rest : List UInt8} (first : Guest.Lexer.isDigit (byte d) = true) :
    ((d :: ds).map byte ++ rest).head? ≠ some 45 := by
  intro minus
  rw [show byte d = 45 from Option.some.inj minus] at first
  cases first

/-- A numeral, with or without a minus sign before it. -/
theorem tokensAfter_signed {negative : Bool} {n : Number} {d : Char} {ds : List Char} (ascii : ∀ c ∈ d :: ds, c.toNat < 128)
    (first : Guest.Lexer.isDigit (byte d) = true) (run : NumeralRun false (ds.map byte))
    (read : Number.read? (d :: ds) = some n) {line : Nat} {c : UInt8} {rest : List UInt8} (stop : EndsNumeral c) :
    tokensAfter [] line (utf8 ((if negative then ['-'] else []) ++ d :: ds) ++ c :: rest) =
      (Literal.number negative n ((d :: ds).map byte)).tokens.map (⟨·, line⟩) ++ tokensAfter [] line (c :: rest) := by
  have numeral : tokensAfter [] line ((d :: ds).map byte ++ c :: rest) =
      ⟨.number n ((d :: ds).map byte), line⟩ :: tokensAfter [] line (c :: rest) :=
    tokensAfter_numeral ascii first run stop read
  rw [utf8_append, utf8_ascii ascii, List.append_assoc]
  cases negative with
  | false => exact numeral
  | true => exact (tokensAfter_minus (head?_digits first)).trans (congrArg _ numeral)

theorem reads_number {negative : Bool} {n : Number} {cs : List Char} (ascii : ∀ c ∈ cs, c.toNat < 128)
    (tail : ∃ d ds, cs = d :: ds ∧ Guest.Lexer.isDigit (byte d) = true ∧ NumeralTail (ds.map byte))
    (read : Number.read? cs = some n) :
    Reads (utf8 ((if negative then ['-'] else []) ++ cs)) (Literal.number negative n (cs.map byte)).tokens := by
  intro line rest
  obtain ⟨d, ds, rfl, first, tail⟩ := tail
  exact tokensAfter_signed ascii first tail.run read ⟨rfl, rfl, rfl, rfl⟩

theorem digitChars_tail (n : Nat) : ∃ d ds, Decimal.digitChars n = d :: ds ∧
    Guest.Lexer.isDigit (byte d) = true ∧ NumeralTail (ds.map byte) :=
  Number.digits_tail (Decimal.digitChars_ne_nil n) fun _ => Decimal.isDigit_of_mem_digitChars

theorem digitChars_ascii (n : Nat) : ∀ c ∈ Decimal.digitChars n, c.toNat < 128 :=
  fun _ member => Number.ascii_of_isDigit (Decimal.isDigit_of_mem_digitChars member)

theorem tokensAfter_digits {n line : Nat} {c : UInt8} {rest : List UInt8} (fits : n ≤ 9223372036854775807)
    (stop : EndsNumeral c) :
    tokensAfter [] line ((Decimal.digitChars n).map byte ++ c :: rest) =
      ⟨Literal.numeral n, line⟩ :: tokensAfter [] line (c :: rest) := by
  have ascii := digitChars_ascii n
  have read := Number.read?_digitChars fits
  obtain ⟨d, ds, digits, first, tail⟩ := digitChars_tail n
  rw [Literal.numeral]
  rw [digits] at ascii read ⊢
  exact tokensAfter_numeral ascii first tail.run stop read

theorem reads_smallest : Reads
    (40 :: 45 :: ((Decimal.digitChars 9223372036854775807).map byte ++ 32 :: 45 :: 32 ::
      ((Decimal.digitChars 1).map byte ++ [41]))) Literal.smallest.tokens := by
  intro line rest
  have single (rest : List UInt8) : ((Decimal.digitChars 9223372036854775807).map byte ++ rest).head? ≠ some 45 := by
    obtain ⟨d, ds, digits, first, _⟩ := digitChars_tail 9223372036854775807
    rw [digits]
    exact head?_digits first
  simp only [List.cons_append, List.append_assoc, List.nil_append]
  rw [tokensAfter_openParen, tokensAfter_minus (single _), tokensAfter_digits (by decide) ⟨rfl, rfl, rfl, rfl⟩,
    tokensAfter_space, tokensAfter_minus (by simp), tokensAfter_space,
    tokensAfter_digits (by decide) ⟨rfl, rfl, rfl, rfl⟩, tokensAfter_closeParen]
  rfl

theorem magnitudeText_floatText (x : Float) : Number.FloatText (magnitudeText x) := by
  rw [magnitudeText]
  split
  · exact .point (by simp : ['0'] ≠ []) (by simp) (by simp : ['0'] ≠ []) (by simp)
  · rename_i positive
    exact Decimal.magnitudeText_floatText positive

theorem floatText_toList {x : Float} (finite : x.isFinite = true) :
    (Decimal.Layout.result.text x).toList = (if Decimal.isNegative x then ['-'] else []) ++ magnitudeText x :=
  Decimal.Layout.text_toList _ finite

theorem reads_keyword {s : String} {k : Guest.Keyword} {b : UInt8} {bs : List UInt8} (text : utf8 s.toList = b :: bs)
    (start : Guest.Lexer.isNameStart b = true) (inner : ∀ d ∈ bs, isNameByte d = true)
    (word : wordToken (b :: bs) = .keyword k) : Reads s.toUTF8.toList [.keyword k] := by
  intro line rest
  rw [toUTF8_toList, text, List.cons_append, tokensAfter_word start inner (endsWord_cons rfl), word]
  rfl

theorem reads_literal {name text : String} {v : Scalar} (run : literal name v = .ok text) :
    Reads text.toUTF8.toList (scalarLiteral v).tokens := by
  cases v with
  | string s =>
    cases run
    exact reads_quote s
  | int i =>
    cases run
    rw [toUTF8_toList, scalarLiteral]
    by_cases least : i = Int64.minValue
    · rw [if_pos least, if_pos least]
      subst i
      have value : Int64.minValue.toInt + 1 = -9223372036854775807 := by decide
      have digits : (toString (-9223372036854775807 : Int)).toList = '-' :: Decimal.digitChars 9223372036854775807 :=
        Decimal.toString_int_toList _
      have text : utf8 ("(" ++ toString (Int64.minValue.toInt + 1) ++ " - 1)").toList =
          40 :: 45 :: ((Decimal.digitChars 9223372036854775807).map byte ++ 32 :: 45 :: 32 ::
            ((Decimal.digitChars 1).map byte ++ [41])) := by
        rw [value, String.toList_append, String.toList_append, digits, utf8_append, utf8_append,
          utf8_cons, utf8_ascii (digitChars_ascii _), List.append_assoc]
        rfl
      rw [text]
      exact reads_smallest
    · rw [if_neg least, if_neg least, Decimal.toString_int_toList]
      have fits : i.toInt.natAbs ≤ 9223372036854775807 := by
        have low := Int64.le_toInt i
        have high := Int64.toInt_lt i
        have other : i.toInt ≠ -2 ^ 63 := fun same => least (Int64.toInt_inj.mp same)
        omega
      have read := Number.read?_digitChars fits
      have same (negative : Bool) := @reads_number negative _ _ (digitChars_ascii _) (digitChars_tail _) read
      simpa using same (decide (i.toInt < 0))
  | float x =>
    rw [literal] at run
    split at run
    · rename_i finite
      cases run
      have text := magnitudeText_floatText x
      obtain ⟨y, read, value⟩ := text.read?
      have back : readBack x = y := by
        rw [readBack, value]
        rfl
      rw [toUTF8_toList, floatText_toList finite, scalarLiteral, back]
      exact reads_number text.ascii text.tail read
    · cases run
  | boolean b =>
    cases run
    cases b with
    | true => exact reads_keyword (rfl : utf8 "true".toList = [116, 114, 117, 101]) rfl (List.all_eq_true.mp rfl) rfl
    | false => exact reads_keyword (rfl : utf8 "false".toList = [102, 97, 108, 115, 101]) rfl (List.all_eq_true.mp rfl) rfl

theorem reads_nil : Reads "nil".toUTF8.toList Literal.nil.tokens :=
  reads_keyword (rfl : utf8 "nil".toList = [110, 105, 108]) rfl (List.all_eq_true.mp rfl) rfl

/-! Names -/

theorem isNameStart_iff {c : Char} : isNameStart c = true ↔
    65 ≤ c.toNat ∧ c.toNat ≤ 90 ∨ 97 ≤ c.toNat ∧ c.toNat ≤ 122 ∨ c.toNat = 95 := by
  have alpha : c.isAlpha = (decide (65 ≤ c.val ∧ c.val ≤ 90) || decide (97 ≤ c.val) && decide (c.val ≤ 122)) := rfl
  have underscore : c = '_' ↔ c.toNat = 95 := Char.toNat_inj.symm
  simp only [isNameStart, alpha, Bool.or_eq_true, Bool.and_eq_true, decide_eq_true_eq, beq_iff_eq, underscore,
    UInt32.le_iff_toNat_le, or_assoc]
  rfl

theorem isNameChar_iff {c : Char} : isNameChar c = true ↔ isNameStart c = true ∨ 48 ≤ c.toNat ∧ c.toNat ≤ 57 := by
  have digit : c.isDigit = true ↔ 48 ≤ c.toNat ∧ c.toNat ≤ 57 := by
    simp only [Char.isDigit, Bool.and_eq_true, decide_eq_true_eq, UInt32.le_iff_toNat_le]
    rfl
  rw [← digit, isNameChar, isNameStart, Char.isAlphanum]
  simp only [Bool.or_eq_true]
  exact or_right_comm

/-- A character of ASCII stands in a name where its byte does. -/
theorem nameByte_eq {c : Char} (ascii : c.toNat < 128) :
    Guest.Lexer.isNameStart (byte c) = isNameStart c ∧ isNameByte (byte c) = isNameChar c := by
  have start : Guest.Lexer.isNameStart (byte c) = isNameStart c := by
    rw [Bool.eq_iff_iff, Guest.Lexer.isNameStart_iff, isNameStart_iff, byte_toNat ascii]
  refine ⟨start, ?_⟩
  rw [Bool.eq_iff_iff, isNameByte, Bool.or_eq_true, start, Guest.Lexer.isDigit_iff, isNameChar_iff, byte_toNat ascii]

theorem isNameStart_byte {c : Char} (start : isNameStart c = true) :
    c.toNat < 128 ∧ Guest.Lexer.isNameStart (byte c) = true := by
  have ascii : c.toNat < 128 := by
    have range := isNameStart_iff.mp start
    omega
  exact ⟨ascii, (nameByte_eq ascii).1.trans start⟩

theorem isNameByte_byte {c : Char} (inner : isNameChar c = true) :
    c.toNat < 128 ∧ isNameByte (byte c) = true := by
  have ascii : c.toNat < 128 := by
    have range := isNameChar_iff.mp inner
    rw [isNameStart_iff] at range
    omega
  exact ⟨ascii, (nameByte_eq ascii).2.trans inner⟩

theorem keyword_text_mem (k : Guest.Keyword) : k.text ∈ keywords := by cases k <;> decide

theorem ofText?_eq_none {name : String} (free : keywords.contains name = false) :
    Guest.Keyword.ofText? name.toList = none := by
  rw [Guest.Keyword.ofText?, List.find?_eq_none]
  intro k _ same
  obtain rfl : k.text = name := String.toList_inj.mp (beq_iff_eq.mp same)
  rw [List.contains_iff_mem.mpr (keyword_text_mem k)] at free
  cases free

/-- A name that can be bound is a word of its bytes. -/
theorem wordToken_identifier {name : String} (identifier : isIdentifier name = true) :
    ∃ b bs, utf8 name.toList = b :: bs ∧ Guest.Lexer.isNameStart b = true ∧ (∀ d ∈ bs, isNameByte d = true) ∧
      wordToken (b :: bs) = .name name.toUTF8 := by
  rw [isIdentifier] at identifier
  split at identifier
  · cases identifier
  · rename_i d ds chars
    simp only [Bool.and_eq_true, Bool.not_eq_true'] at identifier
    obtain ⟨⟨start, inner⟩, free⟩ := identifier
    obtain ⟨small, start⟩ := isNameStart_byte start
    have bytes (e : Char) (member : e ∈ ds) := isNameByte_byte (List.all_eq_true.mp inner e member)
    have ascii : ∀ e ∈ name.toList, e.toNat < 128 := by
      rw [chars]
      intro e member
      rcases List.mem_cons.mp member with rfl | member
      · exact small
      · exact (bytes e member).1
    have word : wordToken (name.toList.map byte) = .name name.toUTF8 := by
      rw [wordToken, map_byte_toChar ascii, ofText?_eq_none free, ← utf8_ascii ascii, appendBytes_utf8]
    rw [chars, List.map_cons] at word
    refine ⟨byte d, ds.map byte, by rw [utf8_ascii ascii, chars, List.map_cons], start, fun b member => ?_, word⟩
    obtain ⟨e, inside, rfl⟩ := List.mem_map.mp member
    exact (bytes e inside).2

/-- A name that can be bound is one token. -/
theorem tokensAfter_identifier {name : String} (identifier : isIdentifier name = true) {line : Nat}
    {rest : List UInt8} (stop : EndsWord rest) :
    tokensAfter [] line (utf8 name.toList ++ rest) = ⟨.name name.toUTF8, line⟩ :: tokensAfter [] line rest := by
  obtain ⟨b, bs, bytes, start, inner, word⟩ := wordToken_identifier identifier
  rw [bytes, ← word, List.cons_append]
  exact tokensAfter_word start inner stop

/-! Lines -/

/-- The literal that an argument without a default is bound to. -/
def boundValue (bindings : List Binding) (a : Argument) : Literal :=
  match bindings.find? fun b => b.name = a.name with
  | some b => scalarLiteral b.value
  | none => .nil

/-- The variables of the arguments. -/
def declared (bindings : List Binding) (args : List Argument) : Guest.Declared :=
  args.map fun a => (a.name.toUTF8, boundValue bindings a)

/-- Whether an argument is bound or has no default. -/
def Plain (bindings : List Binding) (a : Argument) : Prop :=
  a.defaultValue = none ∨ (bindings.find? fun b => b.name = a.name).isSome

theorem reads_boundLiteral {bindings : List Binding} {a : Argument} {text : String} (plain : Plain bindings a)
    (run : boundLiteral bindings a = .ok text) : Reads text.toUTF8.toList (boundValue bindings a).tokens := by
  rw [boundLiteral] at run
  rw [boundValue]
  rw [Plain] at plain
  cases found : bindings.find? fun b => b.name = a.name with
  | some b =>
    rw [found] at run
    exact reads_literal run
  | none =>
    rw [found] at run plain
    have none := plain.resolve_right nofun
    rw [none] at run
    cases run
    exact reads_nil

theorem line_eq_ok {bindings : List Binding} {a : Argument} {text : String} :
    line bindings a = .ok text ↔ isIdentifier a.name = true ∧
      ∃ value, boundLiteral bindings a = .ok value ∧ text = "local " ++ a.name ++ " = " ++ value ++ "\n" := by
  rw [line]
  cases isIdentifier a.name with
  | false => exact ⟨nofun, nofun⟩
  | true =>
    constructor
    · intro run
      obtain ⟨value, bound, run⟩ := bind_eq_ok.mp run
      cases run
      exact ⟨rfl, value, bound, rfl⟩
    · rintro ⟨_, value, bound, rfl⟩
      exact bind_eq_ok.mpr ⟨value, bound, rfl⟩

/-- What a line starts with, up to the literal. -/
theorem tokensAfter_declares {name : String} (identifier : isIdentifier name = true) {l : Nat} {rest : List UInt8} :
    tokensAfter [] l (utf8 ("local " ++ name ++ " = ").toList ++ rest) =
      ⟨.keyword .local_, l⟩ :: ⟨.name name.toUTF8, l⟩ :: ⟨.mark .assign, l⟩ :: tokensAfter [] l rest := by
  have first (after : List UInt8) : tokensAfter [] l (108 :: ([111, 99, 97, 108] ++ 32 :: after)) =
      ⟨.keyword .local_, l⟩ :: tokensAfter [] l (32 :: after) :=
    tokensAfter_word rfl (List.all_eq_true.mp rfl) (endsWord_cons rfl)
  replace first := first (utf8 name.toList ++ 32 :: 61 :: 32 :: rest)
  rw [tokensAfter_space, tokensAfter_identifier identifier (endsWord_cons rfl), tokensAfter_space, tokensAfter_assign,
    tokensAfter_space] at first
  rw [← first, String.toList_append, String.toList_append, utf8_append, utf8_append, List.append_assoc, List.append_assoc]
  rfl

/-- A name and a literal of one line are a declaration. -/
theorem reads_declaration {name : String} (identifier : isIdentifier name = true) {value : List Char}
    {l : Literal} (reads : Reads (utf8 value) l.tokens) :
    Reads (utf8 (("local " ++ name ++ " = ").toList ++ value)) (Guest.Parser.declarationTokens name.toUTF8 l) := by
  intro line rest
  rw [utf8_append, List.append_assoc, tokensAfter_declares identifier, reads]
  rfl

/-- A line is a declaration and a line break. -/
theorem line_reads {bindings : List Binding} {a : Argument} {text : String} (plain : Plain bindings a)
    (run : line bindings a = .ok text) :
    ∃ front, text.toUTF8.toList = 108 :: (front ++ [10]) ∧
      Reads (108 :: front) (Guest.Parser.declarationTokens a.name.toUTF8 (boundValue bindings a)) := by
  obtain ⟨identifier, value, bound, rfl⟩ := line_eq_ok.mp run
  have reads := reads_boundLiteral plain bound
  rw [toUTF8_toList] at reads
  have bytes : utf8 (("local " ++ a.name ++ " = ").toList ++ value.toList) =
      108 :: ([111, 99, 97, 108, 32] ++ utf8 a.name.toList ++ [32, 61, 32] ++ utf8 value.toList) := by
    simp only [String.toList_append, utf8_append, List.append_assoc]
    rfl
  refine ⟨[111, 99, 97, 108, 32] ++ utf8 a.name.toList ++ [32, 61, 32] ++ utf8 value.toList, ?_, ?_⟩
  · simp only [toUTF8_toList, String.toList_append, utf8_append, List.append_assoc]
    rfl
  · rw [← bytes]
    exact reads_declaration identifier reads

end ScriptTools.Source
