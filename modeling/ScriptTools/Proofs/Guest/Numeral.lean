import Mathlib.Data.List.Basic
import ScriptTools.Proofs.Decimal.Digits
import ScriptTools.Proofs.Guest.LexerSteps

/-!
Numerals as the lexer reads them: decimal digits with a point or an exponent, up to a byte that is no part of a
numeral.
-/

namespace ScriptTools.Guest.Lexer

/-- Digits, the point and letters that are digits in hexadecimal but mark no exponent. -/
def isPlain (b : UInt8) : Bool := !isExponentMark false b && ((hexValue? b).isSome || b == 46)

/-- A byte that ends a numeral and is no part of it. -/
structure EndsNumeral (b : UInt8) : Prop where
  mark : isExponentMark false b = false
  digit : (hexValue? b).isSome = false
  point : (b == 46) = false
  letter : isNameStart b = false

/-- What holds of each of the ten digits. -/
theorem of_isDigit {p : UInt8 → Bool} (all : [48, 49, 50, 51, 52, 53, 54, 55, 56, 57].all p = true) {b : UInt8}
    (digit : isDigit b = true) : p b = true := by
  refine List.all_eq_true.mp all b ?_
  have bounds : 48 ≤ b.toNat ∧ b.toNat ≤ 57 := by
    simpa [isDigit, UInt8.le_iff_toNat_le] using digit
  obtain ⟨low, high⟩ := bounds
  generalize size : b.toNat = n at low high
  obtain rfl : b = UInt8.ofNat n := by rw [← size, UInt8.ofNat_toNat]
  have : n = 48 ∨ n = 49 ∨ n = 50 ∨ n = 51 ∨ n = 52 ∨ n = 53 ∨ n = 54 ∨ n = 55 ∨ n = 56 ∨ n = 57 := by omega
  rcases this with rfl | rfl | rfl | rfl | rfl | rfl | rfl | rfl | rfl | rfl <;> decide

theorem isPlain_of_isDigit {b : UInt8} (digit : isDigit b = true) : isPlain b = true := of_isDigit (by decide) digit

theorem not_isSign_of_isPlain {b : UInt8} (plain : isPlain b = true) : isSign b = false := by
  cases sign : isSign b with
  | false => rfl
  | true =>
    rw [isSign, Bool.or_eq_true, beq_iff_eq, beq_iff_eq] at sign
    rcases sign with rfl | rfl <;> revert plain <;> decide

theorem numeralBytes_cons {marked : Bool} {b : UInt8} {out rest : List UInt8} (plain : isPlain b = true) :
    numeralBytes false marked out (b :: rest) = numeralBytes false false (b :: out) rest := by
  have sign := not_isSign_of_isPlain plain
  rw [isPlain, Bool.and_eq_true, Bool.not_eq_true'] at plain
  rw [numeralBytes, sign, Bool.and_false, if_neg nofun, plain.1, if_neg nofun, if_pos plain.2]

theorem numeralBytes_stop {b : UInt8} {out rest : List UInt8} (stop : EndsNumeral b) :
    numeralBytes false false out (b :: rest) = (out, b :: rest) := by
  rw [numeralBytes, Bool.false_and, if_neg nofun, stop.mark, if_neg nofun, stop.digit, stop.point, Bool.or_false,
    if_neg nofun, stop.letter, if_neg nofun]

/-- What goes on a numeral. A sign stands only after an exponent mark, which `marked` says was the latest. -/
inductive NumeralRun : Bool → List UInt8 → Prop
  | nil : NumeralRun false []
  | plain {marked : Bool} {b : UInt8} {cs : List UInt8} : isPlain b = true → NumeralRun false cs → NumeralRun marked (b :: cs)
  | mark {marked : Bool} {b : UInt8} {cs : List UInt8} :
      isExponentMark false b = true → NumeralRun true cs → NumeralRun marked (b :: cs)
  | sign {b : UInt8} {cs : List UInt8} : isSign b = true → NumeralRun false cs → NumeralRun true (b :: cs)

namespace NumeralRun

variable {marked : Bool} {cs : List UInt8}

theorem append {ds : List UInt8} (plain : ∀ b ∈ ds, isPlain b = true) (run : NumeralRun false cs) :
    NumeralRun false (ds ++ cs) := by
  induction ds with
  | nil => exact run
  | cons b ds ih => exact .plain (plain b (by simp)) (ih fun c member => plain c (by simp [member]))

theorem of_plain (plain : ∀ b ∈ cs, isPlain b = true) : NumeralRun false cs := by
  simpa using append plain .nil

theorem unsigned {ds : List UInt8} (some : ds ≠ []) (plain : ∀ b ∈ ds, isPlain b = true) : NumeralRun marked ds := by
  cases ds with
  | nil => exact absurd rfl some
  | cons b ds => exact .plain (plain b (by simp)) (.of_plain fun c member => plain c (by simp [member]))

theorem not_isSign_of_isExponentMark {b : UInt8} (mark : isExponentMark false b = true) : isSign b = false := by
  rw [isExponentMark, if_neg nofun, Bool.or_eq_true, beq_iff_eq, beq_iff_eq] at mark
  rcases mark with rfl | rfl <;> rfl

theorem numeralBytes {out rest : List UInt8} {c : UInt8} (run : NumeralRun marked cs) (stop : EndsNumeral c) :
    Lexer.numeralBytes false marked out (cs ++ c :: rest) = (cs.reverse ++ out, c :: rest) := by
  induction run generalizing out with
  | nil => exact numeralBytes_stop stop
  | plain plain _ ih =>
    rw [List.cons_append, numeralBytes_cons plain, ih, List.reverse_cons, List.append_assoc]
    rfl
  | mark mark _ ih =>
    rw [List.cons_append, Lexer.numeralBytes, not_isSign_of_isExponentMark mark, Bool.and_false, if_neg nofun, if_pos mark,
      ih, List.reverse_cons, List.append_assoc]
    rfl
  | sign sign _ ih =>
    rw [List.cons_append, Lexer.numeralBytes, Bool.true_and, if_pos sign, ih, List.reverse_cons, List.append_assoc]
    rfl

/-- No hexadecimal mark follows the first digit. -/
theorem not_hex {rest : List UInt8} {c : UInt8} (run : NumeralRun false cs) (stop : EndsNumeral c) :
    ∃ d more, cs ++ c :: rest = d :: more ∧ d ≠ 120 ∧ d ≠ 88 := by
  cases run with
  | nil =>
    refine ⟨c, rest, rfl, ?_⟩
    constructor <;> rintro rfl <;> exact absurd stop.letter (by decide)
  | @plain _ d cs plain _ =>
    refine ⟨d, cs ++ c :: rest, rfl, ?_⟩
    constructor <;> rintro rfl <;> revert plain <;> decide
  | @mark _ d cs mark _ =>
    refine ⟨d, cs ++ c :: rest, rfl, ?_⟩
    constructor <;> rintro rfl <;> revert mark <;> decide

end NumeralRun

/-- What may follow the first digit of a numeral. -/
inductive NumeralTail : List UInt8 → Prop
  | plain {cs : List UInt8} : (∀ b ∈ cs, isPlain b = true) → NumeralTail cs
  | exponent {cs sign ds : List UInt8} : (∀ b ∈ cs, isPlain b = true) → sign = [] ∨ sign = [45] → ds ≠ [] →
      (∀ b ∈ ds, isPlain b = true) → NumeralTail (cs ++ 101 :: (sign ++ ds))

theorem NumeralTail.run {cs : List UInt8} (tail : NumeralTail cs) : NumeralRun false cs := by
  cases tail with
  | plain all => exact .of_plain all
  | @exponent cs sign ds all signs some digits =>
    refine .append all (.mark rfl ?_)
    rcases signs with rfl | rfl
    · exact .unsigned some digits
    · exact .sign rfl (.of_plain digits)

theorem readNumeral_run {line : Nat} {b c : UInt8} {cs rest : List UInt8} {n : Number} (run : NumeralRun false cs)
    (stop : EndsNumeral c) (read : Number.read? ((b :: cs).map fun c => Char.ofNat c.toNat) = some n) :
    readNumeral line b (cs ++ c :: rest) = .ok ((n, b :: cs), line, c :: rest) := by
  obtain ⟨d, more, front, lower, upper⟩ : ∃ d more, cs ++ c :: rest = d :: more ∧ d ≠ 120 ∧ d ≠ 88 := run.not_hex stop
  have bytes : numeralBytes false false [b] (d :: more) = (cs.reverse ++ [b], c :: rest) := by
    rw [← front, run.numeralBytes stop]
  have text : (cs.reverse ++ [b]).reverse = b :: cs := by simp
  unfold readNumeral
  rw [front]
  split
  rename_i chosen
  split at chosen
  · rename_i same
    cases same
    exact absurd rfl lower
  · rename_i same
    cases same
    exact absurd rfl upper
  · cases bytes.symm.trans chosen
    rw [text, read]

theorem readToken_numeral {line : Nat} {b c : UInt8} {cs rest : List UInt8} {n : Number} (first : isDigit b = true)
    (run : NumeralRun false cs) (stop : EndsNumeral c)
    (read : Number.read? ((b :: cs).map fun c => Char.ofNat c.toNat) = some n) :
    readToken line b (cs ++ c :: rest) = .ok (.number n (b :: cs), line, c :: rest) := by
  have letter : isNameStart b = false := by
    have other := of_isDigit (p := fun b => !isNameStart b) (by decide) first
    simpa using other
  unfold readToken
  rw [letter, if_neg nofun, startsNumeral, first, Bool.true_or, if_pos rfl, readNumeral_run run stop read]

theorem tokensAfter_numeral {line : Nat} {ds : List Char} {d : Char} {c : UInt8} {rest : List UInt8} {n : Number}
    (ascii : ∀ c ∈ d :: ds, c.toNat < 128) (first : isDigit (Text.byte d) = true)
    (run : NumeralRun false (ds.map Text.byte)) (stop : EndsNumeral c) (read : Number.read? (d :: ds) = some n) :
    tokensAfter [] line ((d :: ds).map Text.byte ++ c :: rest) =
      ⟨.number n ((d :: ds).map Text.byte), line⟩ :: tokensAfter [] line (c :: rest) := by
  have starts : StartsToken (Text.byte d) (ds.map Text.byte ++ c :: rest) := by
    have other := of_isDigit (p := fun b => !isNewline b && !isGap b && b != 45) (by decide) first
    simp only [Bool.and_eq_true, Bool.not_eq_true', bne_iff_ne] at other
    obtain ⟨⟨newline, gap⟩, minus⟩ := other
    exact ⟨newline, gap, fun same => absurd same minus⟩
  refine tokensAfter_cons starts (readToken_numeral first run stop ?_)
  rw [← List.map_cons, Text.map_byte_toChar ascii, read]

end ScriptTools.Guest.Lexer

namespace ScriptTools.Guest.Number

open Text (byte)

theorem isBlank_of_isDigit {c : Char} (digit : c.isDigit = true) : isBlank c = false := by
  have other := Decimal.of_isDigit (p := fun c => !isBlank c) (by decide) digit
  simpa using other

section Framed

variable {c d : Char} {cs : List Char} (first : c.isDigit = true) (last : d.isDigit = true)
  (ends : (c :: cs).getLast? = some d)
include first last ends

/-- Only the blanks are taken from a text that starts and ends with digits. -/
theorem dropBlanks_of_digits {right : List Char} (blank : ∀ b ∈ right, isBlank b = true) :
    ((c :: cs ++ right).dropWhile isBlank).reverse.dropWhile isBlank = (c :: cs).reverse := by
  have front : (c :: cs ++ right).dropWhile isBlank = c :: cs ++ right := by
    rw [List.cons_append, List.dropWhile_cons, isBlank_of_isDigit first, if_neg nofun]
  rw [front, List.reverse_append, List.dropWhile_append_of_pos fun b member => blank b (List.mem_reverse.mp member)]
  rw [List.getLast?_eq_head?_reverse] at ends
  generalize (c :: cs).reverse = ds at ends
  cases ds with
  | nil => cases ends
  | cons e ds =>
    cases ends
    rw [List.dropWhile_cons, isBlank_of_isDigit last, if_neg nofun]

/-- Blanks after a text that ends with a digit do not matter. -/
theorem read?_append_blanks {right : List Char} (blank : ∀ b ∈ right, isBlank b = true) :
    read? (c :: cs ++ right) = read? (c :: cs) := by
  have alone := dropBlanks_of_digits first last ends (nofun : ∀ b ∈ ([] : List Char), isBlank b = true)
  rw [List.append_nil] at alone
  rw [read?, read?, dropBlanks_of_digits first last ends blank, alone]

/-- A text that starts and ends with digits has no blanks or sign around its numeral. -/
theorem read?_of_digits :
    read? (c :: cs) =
      match readInt? false (c :: cs) with
      | some i => some (.int i)
      | none => (readFloat? false (c :: cs)).map .float := by
  have trim := dropBlanks_of_digits first last ends (nofun : ∀ b ∈ ([] : List Char), isBlank b = true)
  rw [List.append_nil] at trim
  rw [read?, trim, List.reverse_reverse]
  split
  rename_i same
  cases (Decimal.readSign_of_isDigit first).symm.trans same
  rfl

end Framed

theorem dropHexMark?_of_ne {c d : Char} {cs : List Char} (lower : d ≠ 'x') (upper : d ≠ 'X') :
    dropHexMark? (c :: d :: cs) = none := by
  unfold dropHexMark?
  split
  · rename_i same
    cases same
    exact absurd rfl lower
  · rename_i same
    cases same
    exact absurd rfl upper
  · rfl

theorem dropHexMark?_digits {ds : List Char} (digits : ∀ d ∈ ds, d.isDigit = true) : dropHexMark? ds = none := by
  match ds with
  | [] => rfl
  | [c] => simp [dropHexMark?]
  | c :: d :: ds =>
    have digit := digits d (by simp)
    exact dropHexMark?_of_ne (by rintro rfl; cases digit) (by rintro rfl; cases digit)

/-- Digits are read as the integer that they write. -/
theorem read?_digits {ds : List Char} (some : ds ≠ []) (digits : ∀ d ∈ ds, d.isDigit = true)
    (fits : Decimal.natOfDigits ds ≤ 9223372036854775807) :
    read? ds = .some (.int (Int64.ofInt (Decimal.natOfDigits ds))) := by
  cases ds with
  | nil => exact absurd rfl some
  | cons c cs =>
    have last := List.getLast?_eq_some_getLast some
    have fitsInt : Decimal.fitsInt64 (Decimal.natOfDigits (c :: cs) : Int) = true := by
      simp only [Decimal.fitsInt64, Bool.and_eq_true, decide_eq_true_eq]
      omega
    have int : readInt? false (c :: cs) = .some (Int64.ofInt (Decimal.natOfDigits (c :: cs))) := by
      rw [readInt?, dropHexMark?_digits digits]
      simp [Decimal.all_isDigit digits, fitsInt]
    rw [read?_of_digits (digits c (by simp)) (digits _ (List.getLast_mem some)) last, int]

/-- The digits of an integer are read as that integer. -/
theorem read?_digitChars {n : Nat} (fits : n ≤ 9223372036854775807) :
    read? (Decimal.digitChars n) = some (.int (Int64.ofInt n)) := by
  have value := Decimal.natOfDigits_digitChars n
  rw [read?_digits (Decimal.digitChars_ne_nil n) (fun _ => Decimal.isDigit_of_mem_digitChars) (by omega), value]

/-- Digits, with a point between them or not. -/
inductive Mantissa : List Char → Prop
  | whole {ds : List Char} : ds ≠ [] → (∀ d ∈ ds, d.isDigit = true) → Mantissa ds
  | point {ds es : List Char} : ds ≠ [] → (∀ d ∈ ds, d.isDigit = true) → es ≠ [] → (∀ d ∈ es, d.isDigit = true) →
      Mantissa (ds ++ '.' :: es)

/-- Decimal texts that are no integers: there is a point or an exponent. -/
inductive FloatText : List Char → Prop
  | point {ds es : List Char} : ds ≠ [] → (∀ d ∈ ds, d.isDigit = true) → es ≠ [] → (∀ d ∈ es, d.isDigit = true) →
      FloatText (ds ++ '.' :: es)
  | exponent {cs sign es : List Char} : Mantissa cs → sign = [] ∨ sign = ['-'] → es ≠ [] →
      (∀ d ∈ es, d.isDigit = true) → FloatText (cs ++ 'e' :: (sign ++ es))

theorem readPoint_point {ds rest : List Char} (digits : ∀ d ∈ ds, d.isDigit = true) :
    readPoint Decimal.spanDigits (ds ++ '.' :: rest) =
      (ds, (Decimal.spanDigits rest).1, (Decimal.spanDigits rest).2) := by
  simp only [readPoint, Decimal.spanDigits_append (c := '.') digits rfl]

theorem readPoint_mark {ds rest : List Char} (digits : ∀ d ∈ ds, d.isDigit = true) :
    readPoint Decimal.spanDigits (ds ++ 'e' :: rest) = (ds, [], 'e' :: rest) := by
  simp only [readPoint, Decimal.spanDigits_append (c := 'e') digits rfl]
  rfl

theorem Mantissa.readPoint {cs : List Char} (mantissa : Mantissa cs) (rest : List Char) :
    ∃ whole fraction, whole ≠ [] ∧
      readPoint Decimal.spanDigits (cs ++ 'e' :: rest) = (whole, fraction, 'e' :: rest) := by
  cases mantissa with
  | whole some digits => exact ⟨_, [], some, readPoint_mark digits⟩
  | @point ds es some digits _ others =>
    refine ⟨ds, es, some, ?_⟩
    rw [List.append_assoc, List.cons_append, readPoint_point digits, Decimal.spanDigits_append others rfl]

theorem readDecimalFloat?_of_parts {cs whole fraction rest : List Char} {e : Int} (some : whole ≠ [])
    (parts : readPoint Decimal.spanDigits cs = (whole, fraction, rest)) (mark : readExponent? 'e' rest = .some e) :
    readDecimalFloat? false cs =
      .some (Decimal.ofScientific false (Decimal.natOfDigits (whole ++ fraction)) (e - fraction.length)) := by
  have here : guard (!(whole.isEmpty && fraction.isEmpty)) = Option.some () := if_pos (by simp [some])
  rw [readDecimalFloat?, parts]
  dsimp only
  rw [here, mark]
  rfl

theorem readDecimalFloat?_point {ds es : List Char} (some : ds ≠ []) (digits : ∀ d ∈ ds, d.isDigit = true)
    (others : ∀ d ∈ es, d.isDigit = true) :
    readDecimalFloat? false (ds ++ '.' :: es) =
      .some (Decimal.ofScientific false (Decimal.natOfDigits (ds ++ es)) (0 - es.length)) := by
  have parts : readPoint Decimal.spanDigits (ds ++ '.' :: es) = (ds, es, []) := by
    rw [readPoint_point digits, Decimal.spanDigits_all others]
  exact readDecimalFloat?_of_parts some parts rfl

theorem FloatText.readDecimalFloat? {cs : List Char} (text : FloatText cs) :
    ∃ x, readDecimalFloat? false cs = some x := by
  cases text with
  | @point ds es some digits _ others => exact ⟨_, readDecimalFloat?_point some digits others⟩
  | @exponent cs sign es mantissa signs some digits =>
    obtain ⟨whole, fraction, some', parts⟩ := mantissa.readPoint (sign ++ es)
    have mark : ∃ e, readExponent? 'e' ('e' :: (sign ++ es)) = .some e := by
      rcases signs with rfl | rfl
      · exact ⟨_, Decimal.readInt?_digits digits some⟩
      · exact ⟨_, Decimal.readInt?_minus digits some⟩
    obtain ⟨e, mark⟩ := mark
    exact ⟨_, readDecimalFloat?_of_parts some' parts mark⟩

/-- A text starts with a digit and a character that is no hexadecimal mark, and ends with a digit. -/
structure Framed (cs : List Char) : Prop where
  first : ∀ c, cs.head? = some c → c.isDigit = true
  second : dropHexMark? cs = none
  last : ∀ c, cs.getLast? = some c → c.isDigit = true

theorem framed_append {ds rest : List Char} {c : Char} (some : ds ≠ []) (digits : ∀ d ∈ ds, d.isDigit = true)
    (lower : c ≠ 'x') (upper : c ≠ 'X') (last : ∀ d, (c :: rest).getLast? = .some d → d.isDigit = true) :
    Framed (ds ++ c :: rest) := by
  refine ⟨?_, ?_, ?_⟩
  · intro d first
    cases ds with
    | nil => exact absurd rfl some
    | cons e ds =>
      cases first
      exact digits d (by simp)
  · match ds with
    | [] => exact absurd rfl some
    | [d] => exact dropHexMark?_of_ne lower upper
    | d :: e :: ds =>
      have digit := digits e (by simp)
      exact dropHexMark?_of_ne (by rintro rfl; cases digit) (by rintro rfl; cases digit)
  · intro d here
    rw [List.getLast?_append_of_ne_nil _ (List.cons_ne_nil c rest)] at here
    exact last d here

theorem FloatText.framed {cs : List Char} (text : FloatText cs) : Framed cs := by
  have ends {c : Char} {sign es : List Char} (some : es ≠ []) (digits : ∀ d ∈ es, d.isDigit = true) :
      ∀ d, (c :: (sign ++ es)).getLast? = .some d → d.isDigit = true := by
    intro d last
    rw [← List.cons_append, List.getLast?_append_of_ne_nil _ some] at last
    exact digits d (List.mem_of_getLast? last)
  cases text with
  | @point ds es some digits some' others =>
    exact framed_append some digits (by decide) (by decide) (@ends _ [] _ some' others)
  | @exponent cs sign es mantissa signs some' others =>
    cases mantissa with
    | whole some digits => exact framed_append some digits (by decide) (by decide) (ends some' others)
    | @point ds fs some digits _ _ =>
      rw [List.append_assoc]
      refine framed_append some digits (by decide) (by decide) fun d last => ?_
      change (('.' :: fs) ++ 'e' :: (sign ++ es)).getLast? = _ at last
      rw [List.getLast?_append_of_ne_nil _ (List.cons_ne_nil _ _)] at last
      exact ends some' others d last

theorem FloatText.not_digits {cs : List Char} (text : FloatText cs) : cs.all Char.isDigit = false := by
  cases text <;> simp

theorem FloatText.readFloat?_eq {cs : List Char} (text : FloatText cs) :
    readFloat? false cs = Number.readDecimalFloat? false cs := by
  rw [readFloat?, text.framed.second]

/-- A decimal text with a point or an exponent is read as a double. -/
theorem FloatText.read? {cs : List Char} (text : FloatText cs) :
    ∃ x, Number.read? cs = some (.float x) ∧ readFloat? false cs = some x := by
  obtain ⟨x, value⟩ := text.readDecimalFloat?
  have framed := text.framed
  have float : readFloat? false cs = some x := text.readFloat?_eq.trans value
  have int : readInt? false cs = none := by
    rw [readInt?, framed.second]
    simp [text.not_digits]
  refine ⟨x, ?_, float⟩
  cases cs with
  | nil => cases value
  | cons c cs =>
    have last := List.getLast?_eq_some_getLast (List.cons_ne_nil c cs)
    rw [read?_of_digits (framed.first c rfl) (framed.last _ last) last, int, float]
    rfl

theorem isDigit_byte {c : Char} (digit : c.isDigit = true) : Lexer.isDigit (byte c) = true :=
  Decimal.of_isDigit (p := fun c => Lexer.isDigit (byte c)) (by decide) digit

theorem isPlain_bytes {ds : List Char} (digits : ∀ d ∈ ds, d.isDigit = true) :
    ∀ b ∈ ds.map byte, Lexer.isPlain b = true := by
  intro b member
  obtain ⟨d, here, rfl⟩ := List.mem_map.mp member
  exact Lexer.isPlain_of_isDigit (isDigit_byte (digits d here))

theorem isPlain_point {ds es : List Char} (digits : ∀ d ∈ ds, d.isDigit = true) (others : ∀ d ∈ es, d.isDigit = true) :
    ∀ b ∈ (ds ++ '.' :: es).map byte, Lexer.isPlain b = true := by
  intro b member
  rw [List.map_append, List.mem_append, List.map_cons, List.mem_cons] at member
  rcases member with here | rfl | here
  · exact isPlain_bytes digits b here
  · decide
  · exact isPlain_bytes others b here

/-- What follows the first digit of a decimal text. -/
theorem FloatText.tail {cs : List Char} (text : FloatText cs) :
    ∃ d ds, cs = d :: ds ∧ Lexer.isDigit (byte d) = true ∧ Lexer.NumeralTail (ds.map byte) := by
  cases text with
  | @point ds es some digits _ others =>
    cases ds with
    | nil => exact absurd rfl some
    | cons d ds =>
      exact ⟨d, _, rfl, isDigit_byte (digits d (by simp)),
        .plain (isPlain_point (fun e member => digits e (by simp [member])) others)⟩
  | @exponent cs sign es mantissa signs some' others =>
    have signs' : sign.map byte = [] ∨ sign.map byte = [45] := by
      rcases signs with rfl | rfl
      · exact .inl rfl
      · exact .inr rfl
    have exponent {ds : List Char} (plain : ∀ b ∈ ds.map byte, Lexer.isPlain b = true) :
        Lexer.NumeralTail ((ds ++ 'e' :: (sign ++ es)).map byte) := by
      rw [List.map_append, List.map_cons, List.map_append]
      exact .exponent plain signs' (by simpa using some') (isPlain_bytes others)
    cases mantissa with
    | whole some digits =>
      cases cs with
      | nil => exact absurd rfl some
      | cons d ds =>
        exact ⟨d, _, rfl, isDigit_byte (digits d (by simp)),
          exponent (isPlain_bytes fun e member => digits e (by simp [member]))⟩
    | @point ds fs some digits _ inner =>
      cases ds with
      | nil => exact absurd rfl some
      | cons d ds =>
        exact ⟨d, _, rfl, isDigit_byte (digits d (by simp)),
          exponent (isPlain_point (fun e member => digits e (by simp [member])) inner)⟩

theorem digits_tail {cs : List Char} (some : cs ≠ []) (digits : ∀ d ∈ cs, d.isDigit = true) :
    ∃ d ds, cs = d :: ds ∧ Lexer.isDigit (byte d) = true ∧ Lexer.NumeralTail (ds.map byte) := by
  cases cs with
  | nil => exact absurd rfl some
  | cons d ds =>
    exact ⟨d, ds, rfl, isDigit_byte (digits d (by simp)),
      .plain (isPlain_bytes fun e member => digits e (by simp [member]))⟩

theorem ascii_of_isDigit {c : Char} (digit : c.isDigit = true) : c.toNat < 128 :=
  of_decide_eq_true (Decimal.of_isDigit (p := (·.toNat < 128)) (by decide) digit)

theorem FloatText.ascii {cs : List Char} (text : FloatText cs) : ∀ c ∈ cs, c.toNat < 128 := by
  have joined {as bs : List Char} {c : Char} (first : ∀ d ∈ as, d.toNat < 128) (here : c.toNat < 128)
      (last : ∀ d ∈ bs, d.toNat < 128) : ∀ d ∈ as ++ c :: bs, d.toNat < 128 := by
    intro d member
    rw [List.mem_append, List.mem_cons] at member
    rcases member with left | rfl | right
    · exact first d left
    · exact here
    · exact last d right
  have digits {ds : List Char} (digits : ∀ d ∈ ds, d.isDigit = true) : ∀ d ∈ ds, d.toNat < 128 :=
    fun d member => ascii_of_isDigit (digits d member)
  cases text with
  | point _ first _ last => exact joined (digits first) (by decide) (digits last)
  | @exponent cs sign es mantissa signs _ others =>
    have exponent : ∀ d ∈ sign ++ es, d.toNat < 128 := by
      rcases signs with rfl | rfl
      · exact digits others
      · exact joined (nofun : ∀ d ∈ ([] : List Char), d.toNat < 128) (by decide) (digits others)
    cases mantissa with
    | whole _ first => exact joined (digits first) (by decide) exponent
    | point _ first _ last => exact joined (joined (digits first) (by decide) (digits last)) (by decide) exponent

end ScriptTools.Guest.Number
