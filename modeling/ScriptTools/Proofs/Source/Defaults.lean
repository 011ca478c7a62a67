import ScriptTools.Guest.Operation
import ScriptTools.Proofs.Decimal.Sign
import ScriptTools.Proofs.Json.Scalars
import ScriptTools.Proofs.Source.ReadBack
import ScriptTools.Proofs.Tool.Given

/-!
Defaults that are also JSON, as a script reads them where they stand in a declaration.
-/

namespace ScriptTools

open Guest (Literal Number)
open Guest.Lexer Text

namespace Source

/-! Blanks around a literal -/

/-- Blanks that break no line. -/
def Indent (cs : List Char) : Prop := ∀ c ∈ cs, c = ' ' ∨ c = '\t'

theorem tokensAfter_indent {cs : List Char} (indent : Indent cs) {line : Nat} {rest : List UInt8} :
    tokensAfter [] line (utf8 cs ++ rest) = tokensAfter [] line rest := by
  induction cs with
  | nil => rfl
  | cons c cs ih =>
    have next := ih fun d member => indent d (by simp [member])
    rcases indent c (by simp) with rfl | rfl
    · exact tokensAfter_space.trans next
    · exact (tokensAfter_congr (skipBlanks_gap (by decide) (by decide))).trans next

/-- A text that is read as some tokens before a blank or a line break. -/
def ReadsApart (cs : List Char) (ts : List Guest.Token) : Prop :=
  ∀ line c rest, c = 32 ∨ c = 9 ∨ c = 10 →
    tokensAfter [] line (utf8 cs ++ c :: rest) = ts.map (⟨·, line⟩) ++ tokensAfter [] line (c :: rest)

theorem ReadsApart.padded {left cs right : List Char} {ts : List Guest.Token} (apart : ReadsApart cs ts)
    (before : Indent left) (after : Indent right) : Reads (utf8 (left ++ (cs ++ right))) ts := by
  intro line rest
  rw [utf8_append, utf8_append, List.append_assoc, List.append_assoc, tokensAfter_indent before]
  cases right with
  | nil => exact apart line 10 rest (.inr (.inr rfl))
  | cons c right =>
    have skip := @tokensAfter_indent _ after line (10 :: rest)
    rcases after c (by simp) with rfl | rfl
    · exact (apart line 32 _ (.inl rfl)).trans (by rw [← skip]; rfl)
    · exact (apart line 9 _ (.inr (.inl rfl))).trans (by rw [← skip]; rfl)

theorem readsApart_boolean (b : Bool) :
    ReadsApart (if b then ['t', 'r', 'u', 'e'] else ['f', 'a', 'l', 's', 'e']) (Literal.bool b).tokens := by
  intro line c rest stop
  have ends : EndsWord (c :: rest) := endsWord_cons (by rcases stop with rfl | rfl | rfl <;> decide)
  cases b with
  | true =>
    have word : ∀ d ∈ [114, 117, 101], isNameByte d = true := List.all_eq_true.mp rfl
    exact @tokensAfter_word line 116 _ _ rfl word ends
  | false =>
    have word : ∀ d ∈ [97, 108, 115, 101], isNameByte d = true := List.all_eq_true.mp rfl
    exact @tokensAfter_word line 102 _ _ rfl word ends

/-! Numerals -/

theorem endsNumeral_of_blank {c : UInt8} (stop : c = 32 ∨ c = 9 ∨ c = 10) : EndsNumeral c := by
  rcases stop with rfl | rfl | rfl <;> exact ⟨rfl, rfl, rfl, rfl⟩

/-- A text that starts with a digit and goes on as a numeral. -/
structure Numeral (cs : List Char) : Prop where
  head : ∃ d ds, cs = d :: ds ∧ d.isDigit = true ∧ NumeralRun false (ds.map byte)
  last : ∃ d, cs.getLast? = some d ∧ d.isDigit = true
  ascii : ∀ c ∈ cs, c.toNat < 128

theorem Numeral.readsApart {cs : List Char} (numeral : Numeral cs) {n : Number} (read : Number.read? cs = some n)
    (negative : Bool) :
    ReadsApart ((if negative then ['-'] else []) ++ cs) (Literal.number negative n (cs.map byte)).tokens := by
  intro line c rest stop
  obtain ⟨d, ds, rfl, digit, run⟩ := numeral.head
  exact tokensAfter_signed numeral.ascii (Number.isDigit_byte digit) run read (endsNumeral_of_blank stop)

open Json (NumberToken)
open Json.Token (IsNumber ExponentText fractionChars)

/-- The run of digits at the end of a text ends it with a digit. -/
theorem getLast?_digits {cs ds : List Char} (some : ds ≠ []) (digits : ∀ d ∈ ds, d.isDigit = true) :
    ∃ d, (cs ++ ds).getLast? = .some d ∧ d.isDigit = true := by
  rw [List.getLast?_append_of_ne_nil _ some]
  exact ⟨_, List.getLast?_eq_some_getLast some, digits _ (List.getLast_mem some)⟩

theorem fractionChars_run {ds : List Char} (digits : ∀ d ∈ ds, d.isDigit = true) {bs : List UInt8}
    (run : NumeralRun false bs) : NumeralRun false ((fractionChars ds).map byte ++ bs) := by
  rw [fractionChars]
  split
  · exact run
  · exact .plain rfl (.append (Number.isPlain_bytes digits) run)

theorem exponentText_run {e : Option (Bool × List Char)} {text : List Char} (written : ExponentText e text)
    (digits : ∀ negative ds, e = some (negative, ds) → ds ≠ [] ∧ ∀ d ∈ ds, d.isDigit = true) :
    NumeralRun false (text.map byte) := by
  have mark {c : Char} (marked : c = 'e' ∨ c = 'E') : isExponentMark false (byte c) = true := by
    rcases marked with rfl | rfl <;> rfl
  cases written with
  | none => exact .nil
  | minus marked => exact .mark (mark marked) (.sign rfl (.of_plain (Number.isPlain_bytes (digits _ _ rfl).2)))
  | plus marked => exact .mark (mark marked) (.sign rfl (.of_plain (Number.isPlain_bytes (digits _ _ rfl).2)))
  | unsigned marked =>
    obtain ⟨some, all⟩ := digits _ _ rfl
    exact .mark (mark marked) (.unsigned (by simpa using some) (Number.isPlain_bytes all))

theorem exponentText_getLast? {e : Option (Bool × List Char)} {text : List Char} (written : ExponentText e text)
    (digits : ∀ negative ds, e = some (negative, ds) → ds ≠ [] ∧ ∀ d ∈ ds, d.isDigit = true) (cs : List Char) :
    text = [] ∨ ∃ d, (cs ++ text).getLast? = some d ∧ d.isDigit = true := by
  cases written with
  | none => exact .inl rfl
  | @minus mark ds _ =>
    obtain ⟨some, all⟩ := digits _ _ rfl
    rw [List.append_cons cs, List.append_cons]
    exact .inr (getLast?_digits some all)
  | @plus mark ds _ =>
    obtain ⟨some, all⟩ := digits _ _ rfl
    rw [List.append_cons cs, List.append_cons]
    exact .inr (getLast?_digits some all)
  | @unsigned mark ds _ =>
    obtain ⟨some, all⟩ := digits _ _ rfl
    rw [List.append_cons cs]
    exact .inr (getLast?_digits some all)

theorem exponentText_ascii {e : Option (Bool × List Char)} {text : List Char} (written : ExponentText e text)
    (digits : ∀ negative ds, e = some (negative, ds) → ds ≠ [] ∧ ∀ d ∈ ds, d.isDigit = true) :
    ∀ c ∈ text, c.toNat < 128 := by
  have mark {c : Char} (marked : c = 'e' ∨ c = 'E') : c.toNat < 128 := by
    rcases marked with rfl | rfl <;> decide
  have ascii {negative : Bool} {ds : List Char} (same : e = some (negative, ds)) : ∀ c ∈ ds, c.toNat < 128 :=
    fun c member => Number.ascii_of_isDigit ((digits _ _ same).2 c member)
  cases written with
  | none => exact nofun
  | minus marked => exact List.forall_mem_cons.mpr ⟨mark marked, List.forall_mem_cons.mpr ⟨by decide, ascii rfl⟩⟩
  | plus marked => exact List.forall_mem_cons.mpr ⟨mark marked, List.forall_mem_cons.mpr ⟨by decide, ascii rfl⟩⟩
  | unsigned marked => exact List.forall_mem_cons.mpr ⟨mark marked, ascii rfl⟩

/-- The number of a JSON text is a numeral of scripts, after its sign. -/
theorem Numeral.of_number {n : NumberToken} {text : List Char} (number : IsNumber n)
    (written : ExponentText n.exponent text) : Numeral (n.whole ++ (fractionChars n.fraction ++ text)) where
  head := by
    obtain ⟨d, ds, digits⟩ := List.exists_cons_of_ne_nil number.nonempty
    have whole := number.whole
    rw [digits] at whole ⊢
    refine ⟨d, ds ++ (fractionChars n.fraction ++ text), rfl, whole d (by simp), ?_⟩
    rw [List.map_append, List.map_append]
    exact .append (Number.isPlain_bytes fun c member => whole c (by simp [member]))
      (fractionChars_run number.fraction (exponentText_run written number.exponent))
  last := by
    rw [← List.append_assoc]
    rcases exponentText_getLast? written number.exponent (n.whole ++ fractionChars n.fraction) with rfl | last
    · rw [List.append_nil, fractionChars]
      split
      · rw [List.append_nil]
        exact @getLast?_digits [] _ number.nonempty number.whole
      · rename_i more
        rw [List.append_cons]
        exact getLast?_digits (by simpa using more) number.fraction
    · exact last
  ascii := by
    intro c member
    rcases List.mem_append.mp member with whole | member
    · exact Number.ascii_of_isDigit (number.whole c whole)
    rcases List.mem_append.mp member with fraction | exponent
    · rw [fractionChars] at fraction
      split at fraction
      · cases fraction
      · rcases List.mem_cons.mp fraction with rfl | fraction
        · decide
        · exact Number.ascii_of_isDigit (number.fraction c fraction)
    · exact exponentText_ascii written number.exponent c exponent

/-- The double that a numeral without a sign is read as has none, unless it is infinite. -/
theorem Numeral.isNegative {cs : List Char} (numeral : Numeral cs) {x : Float}
    (read : Number.read? cs = some (.float x)) :
    x = Float.ofBits 0x7FF0000000000000 ∨ x.isFinite = true ∧ Decimal.isNegative x = false := by
  obtain ⟨d, ds, rfl, digit, _⟩ := numeral.head
  obtain ⟨e, ends, last⟩ := numeral.last
  rw [Number.read?_of_digits digit last ends] at read
  split at read
  · cases read
  obtain ⟨y, float, same⟩ := Option.map_eq_some_iff.mp read
  cases same
  have nearest : ∃ num den, x = Decimal.nearest false num den := by
    rw [Number.readFloat?] at float
    split at float
    · simp only [Number.readHexFloat?, Option.bind_eq_bind, Option.bind_eq_some_iff, Option.pure_def, Option.some.injEq] at float
      obtain ⟨_, _, _, _, _, _, rfl⟩ := float
      exact ⟨_, _, rfl⟩
    · simp only [Number.readDecimalFloat?, Option.bind_eq_bind, Option.bind_eq_some_iff, Option.pure_def,
        Option.some.injEq] at float
      obtain ⟨_, _, _, _, rfl⟩ := float
      exact Decimal.ofScientific_eq_nearest _ _ _
  obtain ⟨num, den, rfl⟩ := nearest
  exact Decimal.nearest_eq_infinity_or num den

/-- The number that a signed numeral is in a script, where the sign is an operator. -/
def number? (text : String) : Option Number :=
  match text.toList.dropWhile Number.isBlank with
  | '-' :: numeral => (Number.read? numeral).map Guest.negateNumber
  | numeral => Number.read? numeral

theorem indent_isBlank {cs : List Char} (indent : Indent cs) : ∀ c ∈ cs, Number.isBlank c = true := by
  intro c member
  rcases indent c member with rfl | rfl <;> rfl

theorem number?_eq {text : String} {left cs right : List Char} {negative : Bool} (numeral : Numeral cs)
    (same : text.toList = left ++ ((if negative then ['-'] else []) ++ (cs ++ right))) (before : Indent left)
    (after : Indent right) :
    number? text = if negative then (Number.read? cs).map Guest.negateNumber else Number.read? cs := by
  obtain ⟨d, ds, rfl, digit, _⟩ := numeral.head
  obtain ⟨e, ends, last⟩ := numeral.last
  have trim := Number.read?_append_blanks digit last ends (indent_isBlank after)
  rw [number?, same, List.dropWhile_append_of_pos (indent_isBlank before)]
  cases negative with
  | true => exact congrArg (Option.map Guest.negateNumber) trim
  | false =>
    rw [if_neg nofun, List.nil_append, List.cons_append, List.dropWhile_cons, Number.isBlank_of_isDigit digit, if_neg nofun]
    split
    · rename_i minus
      cases minus
      cases digit
    · exact trim

/-! Strings -/

/-- Whether the escapes of a JSON text are ones of scripts as well; of its escapes `\/` and `\u` are not. -/
def sharedEscapes : List Char → Bool
  | [] => true
  | '\\' :: c :: rest => c != '/' && c != 'u' && sharedEscapes rest
  | _ :: rest => sharedEscapes rest

/-- What stands between the quotes of a string for some characters. -/
def Spells (body cs : List Char) : Prop :=
  ∀ line out rest, readQuoted 34 line out (utf8 body ++ rest) = readQuoted 34 line (appendBytes out (utf8 cs)) rest

theorem Spells.cons {front body cs : List Char} {c : Char} (first : Spells front [c]) (others : Spells body cs) :
    Spells (front ++ body) (c :: cs) := by
  intro line out rest
  have whole := appendBytes_append out (utf8 [c]) (utf8 cs)
  rw [← utf8_append] at whole
  rw [utf8_append, List.append_assoc, first, others, whole]
  rfl

theorem spells_alone {c : Char} (low : 32 ≤ c.toNat) (quote : c ≠ '"') (backslash : c ≠ '\\') : Spells [c] [c] := by
  intro line out rest
  replace quote : c.toNat ≠ 34 := fun same => quote (Char.toNat_inj.mp same)
  replace backslash : c.toNat ≠ 92 := fun same => backslash (Char.toNat_inj.mp same)
  have single : utf8 [c] = String.utf8EncodeChar c := List.append_nil _
  rw [single, readQuoted_inner (inner_of_utf8EncodeChar low quote backslash)]

/-- An escape of JSON that scripts have too stands for the same character. -/
theorem spells_escape {e c : Char} (escape : Json.Token.shortEscape? e = some c) (other : e ≠ '/') : Spells ['\\', e] [c] := by
  have read {bytes : List UInt8} {b : UInt8} (text : utf8 ['\\', e] = 92 :: bytes) (one : utf8 [c] = [b])
      (read : ∀ line rest, readEscape line (bytes ++ rest) = .ok ([b], line, rest)) : Spells ['\\', e] [c] := by
    intro line out rest
    rw [text, one, List.cons_append, readQuoted_escape (by decide), read]
  rw [Json.Token.shortEscape?.eq_def] at escape
  split at escape
  case h_3 => exact absurd rfl other
  case h_9 => cases escape
  all_goals
    cases escape
    exact read rfl rfl fun _ _ => rfl

open Json.Token (Scan scanString) in
/-- A JSON string whose escapes scripts have too is the string of a script. -/
theorem spells_of_scanString {s : Scan} {cs right : List Char} {t : String}
    (run : scanString s cs = some (some t, right)) (whole : s.half = none) (fine : s.broken = false)
    (shared : sharedEscapes cs = true) :
    ∃ body added, cs = body ++ '"' :: right ∧ t = s.text ++ String.ofList added ∧ Spells body added := by
  have pushed (s : Scan) (whole : s.half = none) (fine : s.broken = false) (c : Char) :
      (s.push c).half = none ∧ (s.push c).broken = false := by simp [Scan.push, whole, fine]
  have text (s : Scan) (c : Char) (added : List Char) :
      (s.push c).text ++ String.ofList added = s.text ++ String.ofList (c :: added) := by
    rw [← String.toList_inj]
    simp [Scan.push]
  fun_induction scanString s cs with
  | case2 s rest =>
    rw [Option.some.injEq, Prod.mk.injEq] at run
    obtain ⟨done, rfl⟩ := run
    rw [Scan.finish, whole, fine, if_neg (by simp), Option.some.injEq] at done
    exact ⟨[], [], rfl, by rw [done, String.ofList_nil, String.append_empty], fun _ _ _ => rfl⟩
  | case3 | case4 => simp [sharedEscapes] at shared
  | case5 s e rest _ c escape ih =>
    simp only [sharedEscapes, Bool.and_eq_true, bne_iff_ne, ne_eq] at shared
    obtain ⟨body, added, rfl, rfl, spells⟩ := ih run (pushed s whole fine c).1 (pushed s whole fine c).2 shared.2
    exact ⟨'\\' :: e :: body, c :: added, rfl, text s c added, (spells_escape escape shared.1.1).cons spells⟩
  | case8 s c rest quote _ _ plain ih =>
    simp only [Bool.or_eq_true, decide_eq_true_eq, beq_iff_eq, not_or, Nat.not_lt] at plain
    obtain ⟨low, backslash⟩ := plain
    rw [sharedEscapes.eq_def] at shared
    split at shared
    next => contradiction
    next same =>
      cases same
      exact absurd rfl backslash
    next same =>
      cases same
      obtain ⟨body, added, rfl, rfl, spells⟩ := ih run (pushed s whole fine c).1 (pushed s whole fine c).2 shared
      exact ⟨c :: body, c :: added, rfl, text s c added, (spells_alone low quote backslash).cons spells⟩
  | case1 | case6 | case7 => cases run

/-! Values -/

/-- Whether a default is the same value as JSON, for an argument of a type, and in a script. -/
inductive ReadsAlike (text : String) : ScalarType → Json → Prop
  | boolean (b : Bool) : ReadsAlike text .boolean (.bool b)
  | int {i : Int} : i.natAbs < 2 ^ 63 → ReadsAlike text .int (.int i)
  | floatOfInt {i : Int} : number? text = some (.float (Decimal.ofInt i)) → ReadsAlike text .float (.int i)
  | float {x : Float} : x.isFinite = true → number? text = some (.float x) → ReadsAlike text .float (.float x)
  | string (s : String) : sharedEscapes text.toList = true → ReadsAlike text .string (.str s)

/-- A literal with the tokens of another, but that a number may be spelled in another way. -/
inductive Respells : Literal → Literal → Prop
  | same (l : Literal) : Respells l l
  | number (negative : Bool) (n : Number) (first second : List UInt8) :
      Respells (.number negative n first) (.number negative n second)

/-- A literal for a value, in place of the one that the host writes. -/
structure StandsFor (text : String) (v : Scalar) : Prop where
  written : ∀ name, ∃ host, literal name v = .ok host
  reads : ∃ l, Reads text.toUTF8.toList l.tokens ∧ Respells l (scalarLiteral v)

/-- A text that breaks no line. -/
def OneLine (text : String) : Prop := ∀ c ∈ text.toList, c ≠ '\n' ∧ c ≠ '\r'

instance (text : String) : Decidable (OneLine text) := List.decidableBAll (fun c => c ≠ '\n' ∧ c ≠ '\r') text.toList

theorem OneLine.indent {text : String} (line : OneLine text) {cs : List Char} (part : ∀ c ∈ cs, c ∈ text.toList)
    (blank : Json.Token.Blank cs) : Indent cs := by
  intro c member
  have space := blank c member
  obtain ⟨newline, feed⟩ := line c (part c member)
  simp only [Json.Token.isSpace, Bool.or_eq_true, beq_iff_eq] at space
  tauto

open Json (Document)

/-- A JSON text of one line as its blanks and its token. -/
theorem OneLine.exists_scan {text : String} (line : OneLine text) {d : Document} {t : Json.Token}
    (read : Document.read? text = some d) (token : d.token? = some t) :
    ∃ left c inner right, text.toList = left ++ c :: inner ∧ Indent left ∧ Json.Token.scan c inner = some (t, right) ∧
      ((∃ core, c :: inner = core ++ right) → Indent right) := by
  obtain ⟨left, c, inner, right, same, before, scanned, after⟩ := Json.exists_scan_of_read? read token
  refine ⟨left, c, inner, right, same, line.indent (fun d member => by rw [same]; simp [member]) before, scanned, ?_⟩
  rintro ⟨core, whole⟩
  exact line.indent (fun d member => by rw [same, whole]; simp [member]) after

theorem standsFor_boolean {text : String} (line : OneLine text) {b : Bool}
    (read : Document.read? text = some (.boolean b)) : StandsFor text (.boolean b) := by
  obtain ⟨left, c, inner, right, same, before, scanned, after⟩ := line.exists_scan read rfl
  have word := Json.Token.scan_eq_boolean scanned
  refine ⟨fun _ => ⟨_, rfl⟩, .bool b, ?_, .same _⟩
  rw [toUTF8_toList, same, word]
  exact (readsApart_boolean b).padded before (after ⟨_, word⟩)

theorem sharedEscapes_indent {cs rest : List Char} (indent : Indent cs) :
    sharedEscapes (cs ++ rest) = sharedEscapes rest := by
  induction cs with
  | nil => rfl
  | cons c cs ih =>
    have next := ih fun d member => indent d (by simp [member])
    rcases indent c (by simp) with rfl | rfl <;> exact next

theorem Spells.readsApart {body added : List Char} (spells : Spells body added) :
    ReadsApart ('"' :: (body ++ ['"'])) (Literal.string (String.ofList added).toUTF8).tokens := by
  intro line c rest _
  have read := spells line ByteArray.empty (34 :: c :: rest)
  have text := appendBytes_utf8 (String.ofList added)
  rw [String.toList_ofList] at text
  rw [text, readQuoted_quote] at read
  have token := tokensAfter_cons (b := 34) ⟨rfl, rfl, nofun⟩ (readToken_quoted read)
  rw [utf8_cons, utf8_append, List.append_assoc, List.append_assoc]
  exact token

theorem standsFor_string {text : String} (line : OneLine text) {s : String}
    (read : Document.read? text = some (.string (some s))) (shared : sharedEscapes text.toList = true) :
    StandsFor text (.string s) := by
  obtain ⟨left, c, inner, right, same, before, scanned, after⟩ := line.exists_scan read rfl
  obtain ⟨rfl, inside⟩ := Json.Token.scan_eq_string scanned
  rw [same, sharedEscapes_indent before] at shared
  obtain ⟨body, added, rfl, value, spells⟩ := spells_of_scanString inside rfl rfl shared
  obtain rfl : s = String.ofList added := value.trans (String.empty_append ..)
  refine ⟨fun _ => ⟨_, rfl⟩, .string (String.ofList added).toUTF8, ?_, .same _⟩
  have padded := spells.readsApart.padded before (after ⟨'"' :: (body ++ ['"']), by simp⟩)
  rw [toUTF8_toList, same]
  simpa using padded

/-- A JSON number of one line as its blanks, its sign and its numeral. -/
theorem OneLine.exists_numeral {text : String} (line : OneLine text) {n : NumberToken}
    (read : Document.read? text = some (.number n)) :
    ∃ left cs right, text.toList = left ++ ((if n.negative then ['-'] else []) ++ (cs ++ right)) ∧ Indent left ∧
      Indent right ∧ Numeral cs ∧ (n.fraction = [] → n.exponent = none → cs = n.whole) ∧ IsNumber n := by
  obtain ⟨left, c, inner, right, same, before, scanned, after⟩ := line.exists_scan read rfl
  obtain ⟨number, text, written, chars⟩ := Json.Token.scan_eq_number scanned
  have whole : c :: inner = (if n.negative then ['-'] else []) ++ ((n.whole ++ (fractionChars n.fraction ++ text)) ++ right) := by
    simpa using chars
  refine ⟨left, _, right, same.trans (congrArg (left ++ ·) whole), before,
    after ⟨_, whole.trans (List.append_assoc ..).symm⟩, .of_number number written, fun fraction exponent => ?_, number⟩
  rw [exponent] at written
  cases written
  rw [fraction, fractionChars]
  simp

theorem standsFor_numeral {text : String} {v : Scalar} {left cs right : List Char} {negative : Bool} {n : Number}
    (same : text.toList = left ++ ((if negative then ['-'] else []) ++ (cs ++ right))) (before : Indent left)
    (after : Indent right) (numeral : Numeral cs) (read : Number.read? cs = some n)
    (written : ∀ name, ∃ host, literal name v = .ok host)
    (value : ∃ digits, scalarLiteral v = .number negative n digits) : StandsFor text v := by
  obtain ⟨digits, value⟩ := value
  refine ⟨written, .number negative n (cs.map byte), ?_, value ▸ .number negative n _ _⟩
  rw [toUTF8_toList, same]
  have padded := (numeral.readsApart read negative).padded before after
  simpa using padded

theorem standsFor_int {text : String} (line : OneLine text) {n : NumberToken} {i : Int}
    (read : Document.read? text = some (.number n)) (value : n.value? = some (.int i)) (fits : i.natAbs < 2 ^ 63) :
    StandsFor text (.int (Int64.ofInt i)) := by
  obtain ⟨left, cs, right, same, before, after, numeral, digits, number⟩ := line.exists_numeral read
  obtain ⟨whole, integer, _⟩ := NumberToken.value?_eq_int.mp value
  obtain rfl := digits whole.fraction whole.exponent
  have size : Decimal.natOfDigits n.whole = i.natAbs := by
    rw [NumberToken.integer] at integer
    split at integer <;> omega
  have sign : n.negative = decide (i < 0) := by
    have unsigned := whole.unsigned
    rw [NumberToken.integer] at integer unsigned
    cases negative : n.negative with
    | true =>
      rw [negative] at integer unsigned
      have some : ¬ -(Decimal.natOfDigits n.whole : Int) = 0 := fun zero => by cases unsigned zero
      rw [if_pos rfl] at integer
      exact (decide_eq_true (by omega)).symm
    | false =>
      rw [negative, if_neg Bool.false_ne_true] at integer
      exact (decide_eq_false (by omega)).symm
  have read := Number.read?_digits number.nonempty number.whole (by omega)
  have back : (Int64.ofInt i).toInt = i := Int64.toInt_ofInt_of_le (by omega) (by omega)
  have other : Int64.ofInt i ≠ Int64.minValue := by
    intro least
    have := congrArg Int64.toInt least
    rw [back] at this
    have value : Int64.minValue.toInt = -9223372036854775808 := by decide
    omega
  refine standsFor_numeral same before after numeral read (fun _ => ⟨_, rfl⟩)
    ⟨(Decimal.digitChars i.natAbs).map byte, ?_⟩
  rw [scalarLiteral, if_neg other, back, sign, size]

theorem standsFor_float {text : String} (line : OneLine text) {n : NumberToken} {x : Float}
    (read : Document.read? text = some (.number n)) (value : number? text = some (.float x))
    (finite : x.isFinite = true) : StandsFor text (.float x) := by
  obtain ⟨left, cs, right, same, before, after, numeral, _, _⟩ := line.exists_numeral read
  rw [number?_eq numeral same before after] at value
  have written (name : String) : ∃ host, literal name (.float x) = .ok host := ⟨_, if_pos finite⟩
  cases negative : n.negative with
  | false =>
    rw [negative, if_neg nofun] at value
    rw [negative] at same
    have positive := ((numeral.isNegative value).resolve_left (by rintro rfl; cases finite)).2
    refine standsFor_numeral same before after numeral value written ⟨(magnitudeText x).map byte, ?_⟩
    rw [scalarLiteral, positive, readBack_eq finite positive]
  | true =>
    rw [negative, if_pos rfl] at value
    rw [negative] at same
    obtain ⟨m, magnitude, opposite⟩ := Option.map_eq_some_iff.mp value
    cases m with
    | int => cases opposite
    | float y =>
      obtain rfl : -y = x := by simpa [Guest.negateNumber] using opposite
      have infinite : (-Float.ofBits 0x7FF0000000000000).isFinite = false := by decide
      obtain ⟨finite', positive⟩ := (numeral.isNegative magnitude).resolve_left (by
        rintro rfl
        rw [infinite] at finite
        cases finite)
      refine standsFor_numeral same before after numeral magnitude written ⟨(magnitudeText (-y)).map byte, ?_⟩
      rw [scalarLiteral, Decimal.isNegative_neg finite', positive, readBack_neg finite', readBack_eq finite' positive]
      rfl

/-- A default that reads alike stands for the value that the JSON value gives the argument. -/
theorem exists_standsFor {text : String} {type : ScalarType} {d : Json} (line : OneLine text)
    (parsed : Json.parse? text = some d) (alike : ReadsAlike text type d) :
    ∃ v, Argument.coerce? type d = some v ∧ StandsFor text v := by
  obtain ⟨document, read, value⟩ := Option.bind_eq_some_iff.mp parsed
  cases alike with
  | boolean b =>
    rw [Document.toJson?_eq_bool] at value
    exact ⟨_, rfl, standsFor_boolean line (value ▸ read)⟩
  | @int i fits =>
    obtain ⟨n, rfl, value⟩ := Document.toJson?_eq_int.mp value
    have inside : Decimal.fitsInt64 i = true := by
      rw [Decimal.fitsInt64, Bool.and_eq_true, decide_eq_true_eq, decide_eq_true_eq]
      omega
    refine ⟨.int (Int64.ofInt i), ?_, standsFor_int line read value fits⟩
    rw [Argument.coerce?, Argument.intOfInteger?, if_pos inside]
    rfl
  | @floatOfInt i number =>
    obtain ⟨n, rfl, value⟩ := Document.toJson?_eq_int.mp value
    obtain ⟨_, _, low, high⟩ := NumberToken.value?_eq_int.mp value
    exact ⟨_, rfl, standsFor_float line read number (Decimal.isFinite_ofInt (by omega))⟩
  | float finite number =>
    obtain ⟨n, rfl, _⟩ := Document.toJson?_eq_float.mp value
    exact ⟨_, rfl, standsFor_float line read number finite⟩
  | string s shared =>
    rw [Document.toJson?_eq_str] at value
    exact ⟨_, rfl, standsFor_string line (value ▸ read) shared⟩

end Source

end ScriptTools
