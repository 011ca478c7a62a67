import ScriptTools.Guest.CodePoint
import ScriptTools.Guest.Token

/-!
Scripts become tokens. The readers work on bytes and count lines; where a reader fails, the tokens end
with the reason.
-/

namespace ScriptTools.Guest.Lexer

/-- Why there is no token: the line where that shows, and a message. -/
structure Fault where
  line : Nat
  message : String

/-- What a reader found, the line it reached and the bytes that follow; or a fault. -/
abbrev Reading (ε α : Type) := Except ε (α × Nat × List UInt8)

/-- A message about the bytes read so far. -/
def near (message : String) (bytes : List UInt8) : String := message ++ " near " ++ shownBytes bytes

/-- A message about the end of the text. -/
def nearEnd (message : String) : String := message ++ " near " ++ Token.endText

def isNewline (b : UInt8) : Bool := b == 10 || b == 13

/-- Blanks other than line breaks: tab, vertical tab, form feed and space. -/
def isGap (b : UInt8) : Bool := b == 32 || b == 9 || b == 11 || b == 12

def isDigit (b : UInt8) : Bool := 48 ≤ b && b ≤ 57

def isNameStart (b : UInt8) : Bool := (65 ≤ b && b ≤ 90) || (97 ≤ b && b ≤ 122) || b == 95

def isNameByte (b : UInt8) : Bool := isNameStart b || isDigit b

def hexValue? (b : UInt8) : Option Nat := Text.hexValue? (Char.ofNat b.toNat)

/-- Drops the second half of a line break of two different bytes. -/
def dropPair (first : UInt8) : List UInt8 → List UInt8
  | b :: rest => if isNewline b && b != first then rest else b :: rest
  | [] => []

theorem dropPair_length_le (first : UInt8) (cs : List UInt8) :
    (dropPair first cs).length ≤ cs.length := by
  cases cs with
  | nil => simp [dropPair]
  | cons b rest => simp only [dropPair]; split <;> simp

/-! Long brackets -/

/-- The level of a long bracket, read after its first bracket, and what follows the second one. -/
def openLevel? (level : Nat) : List UInt8 → Option (Nat × List UInt8)
  | 61 :: rest => openLevel? (level + 1) rest
  | 91 :: rest => some (level, rest)
  | _ => none

/-- What follows a closing bracket of a level, read after its first bracket. -/
def closeLevel? : Nat → List UInt8 → Option (List UInt8)
  | 0, 93 :: rest => some rest
  | level + 1, 61 :: rest => closeLevel? level rest
  | _, _ => none

/-- The text of a long bracket up to its end. Every line break in it becomes one line feed. A bracket
without end fails with the last line. -/
def readLong (level line : Nat) (out : ByteArray) : List UInt8 → Reading Nat ByteArray
  | [] => .error line
  | b :: rest =>
    if isNewline b then readLong level (line + 1) (out.push 10) (dropPair b rest)
    else if b == 93 then
      match closeLevel? level rest with
      | some rest => .ok (out, line, rest)
      | none => readLong level line (out.push b) rest
    else readLong level line (out.push b) rest
termination_by cs => cs.length
decreasing_by
  · have := dropPair_length_le b rest
    simp only [List.length_cons]
    omega
  all_goals simp only [List.length_cons]; omega

/-- The text of a long bracket; a line break right after the opening bracket is not part of it. -/
def readLongText (level line : Nat) : List UInt8 → Reading Nat ByteArray
  | b :: rest =>
    if isNewline b then readLong level (line + 1) ByteArray.empty (dropPair b rest)
    else readLong level line ByteArray.empty (b :: rest)
  | [] => .error line

/-- The fault of a long bracket that starts on one line and is not closed by the last one. -/
def unfinishedLong (what : String) (start last : Nat) : Fault :=
  ⟨last, nearEnd ("unfinished long " ++ what ++ " (starting at line " ++ toString start ++ ")")⟩

/-! Blanks and comments -/

def isLongOpening (cs : List UInt8) : Bool :=
  match cs with
  | 91 :: rest => (openLevel? 0 rest).isSome
  | _ => false

/-- The bytes after a comment, read after its two hyphens. -/
def skipComment (line : Nat) (cs : List UInt8) : Reading Fault Unit :=
  match cs with
  | 91 :: rest =>
    match openLevel? 0 rest with
    | some (level, rest) =>
      match readLongText level line rest with
      | .ok (_, line, rest) => .ok ((), line, rest)
      | .error last => .error (unfinishedLong "comment" line last)
    | none => .ok ((), line, rest.dropWhile fun b => !isNewline b)
  | _ => .ok ((), line, cs.dropWhile fun b => !isNewline b)

theorem openLevel?_length {level : Nat} {cs : List UInt8} {r : Nat × List UInt8}
    (h : openLevel? level cs = some r) : r.2.length < cs.length := by
  fun_induction openLevel? level cs with
  | case1 level rest ih => simp only [List.length_cons]; have := ih h; omega
  | case2 level rest => simp only [Option.some.injEq] at h; subst h; simp
  | case3 => simp at h

theorem closeLevel?_length {level : Nat} {cs r : List UInt8} (h : closeLevel? level cs = some r) :
    r.length < cs.length := by
  fun_induction closeLevel? level cs with
  | case1 rest => simp only [Option.some.injEq] at h; subst h; simp
  | case2 level rest ih => simp only [List.length_cons]; have := ih h; omega
  | case3 => simp at h

theorem readLong_length {level line : Nat} {out : ByteArray} {cs : List UInt8}
    {r : ByteArray × Nat × List UInt8} (h : readLong level line out cs = .ok r) :
    r.2.2.length < cs.length := by
  fun_induction readLong level line out cs with
  | case1 => simp at h
  | case2 line out b rest _ ih =>
    have := ih h
    have := dropPair_length_le b rest
    simp only [List.length_cons]
    omega
  | case3 line out b rest _ _ rest' hc =>
    simp only [Except.ok.injEq] at h
    subst h
    have := closeLevel?_length hc
    simp only [List.length_cons]
    omega
  | case4 line out b rest _ _ _ ih => have := ih h; simp only [List.length_cons]; omega
  | case5 line out b rest _ _ ih => have := ih h; simp only [List.length_cons]; omega

theorem readLongText_length {level line : Nat} {cs : List UInt8} {r : ByteArray × Nat × List UInt8}
    (h : readLongText level line cs = .ok r) : r.2.2.length < cs.length := by
  unfold readLongText at h
  split at h
  · rename_i b rest
    split at h
    · have := readLong_length h
      have := dropPair_length_le b rest
      simp only [List.length_cons]
      omega
    · exact readLong_length h
  · simp at h

theorem dropWhile_length_le (p : UInt8 → Bool) (cs : List UInt8) :
    (cs.dropWhile p).length ≤ cs.length :=
  (List.dropWhile_suffix p).sublist.length_le

theorem skipComment_length {line : Nat} {cs : List UInt8} {r : Unit × Nat × List UInt8}
    (h : skipComment line cs = .ok r) : r.2.2.length ≤ cs.length := by
  unfold skipComment at h
  split at h
  · rename_i rest
    split at h
    · rename_i level after ho
      split at h
      · rename_i hr
        simp only [Except.ok.injEq] at h
        subst h
        have := readLongText_length hr
        have := openLevel?_length ho
        simp only [List.length_cons] at *
        omega
      · simp at h
    · simp only [Except.ok.injEq] at h
      subst h
      have := dropWhile_length_le (fun b => !isNewline b) rest
      simp only [List.length_cons]
      omega
  · simp only [Except.ok.injEq] at h
    subst h
    exact dropWhile_length_le _ _

/-- Passes over blanks, line breaks and comments. -/
def skipBlanks (line : Nat) : List UInt8 → Reading Fault Unit
  | [] => .ok ((), line, [])
  | b :: rest =>
    if isNewline b then skipBlanks (line + 1) (dropPair b rest)
    else if isGap b then skipBlanks line rest
    else
      match b, rest with
      | 45, 45 :: body =>
        match _h : skipComment line body with
        | .ok (_, line, rest) => skipBlanks line rest
        | .error e => .error e
      | _, _ => .ok ((), line, b :: rest)
termination_by cs => cs.length
decreasing_by
  · have := dropPair_length_le b rest
    simp only [List.length_cons]
    omega
  · simp only [List.length_cons]; omega
  · have := skipComment_length _h
    simp only [List.length_cons] at *
    omega

/-! Strings in quotes -/

/-- Passes over the blanks and line breaks after an escaped `z`. -/
def skipEscapedBlanks (line : Nat) : List UInt8 → Nat × List UInt8
  | [] => (line, [])
  | b :: rest =>
    if isNewline b then skipEscapedBlanks (line + 1) (dropPair b rest)
    else if isGap b then skipEscapedBlanks line rest
    else (line, b :: rest)
termination_by cs => cs.length
decreasing_by
  · have := dropPair_length_le b rest
    simp only [List.length_cons]
    omega
  · simp only [List.length_cons]; omega

theorem skipEscapedBlanks_length_le (line : Nat) (cs : List UInt8) :
    (skipEscapedBlanks line cs).2.length ≤ cs.length := by
  fun_induction skipEscapedBlanks line cs with
  | case1 => simp
  | case2 line b rest _ ih =>
    have := dropPair_length_le b rest
    simp only [List.length_cons]
    omega
  | case3 line b rest _ _ ih => simp only [List.length_cons]; omega
  | case4 => simp

/-- Up to `count` more decimal digits after the number `n`. -/
def readDecimal (n : Nat) : Nat → List UInt8 → Nat × List UInt8
  | 0, cs => (n, cs)
  | _ + 1, [] => (n, [])
  | count + 1, b :: rest =>
    if isDigit b then readDecimal (n * 10 + (b.toNat - 48)) count rest else (n, b :: rest)

theorem readDecimal_length_le (n count : Nat) (cs : List UInt8) :
    (readDecimal n count cs).2.length ≤ cs.length := by
  fun_induction readDecimal n count cs with
  | case3 n count b rest _ ih => simp only [List.length_cons]; omega
  | _ => simp

/-- What is wrong with an escape, and the bytes after its backslash that show it. An escape without
bytes is cut off by the end of the text. -/
structure EscapeFault where
  message : String
  shown : List UInt8

/-- A fault that shows at the first of the bytes ahead, if there is one. -/
def EscapeFault.at_ (message : String) (before ahead : List UInt8) : EscapeFault :=
  ⟨message, before ++ ahead.take 1⟩

def hexExpected : String := "hexadecimal digit expected"

/-- The hexadecimal digits of an escaped code point up to its closing brace. The bytes of the escape so
far stand in `before`. -/
def readCodePoint (n : Nat) (any : Bool) (before : List UInt8) :
    List UInt8 → Except EscapeFault (Nat × List UInt8)
  | [] => .error ⟨if any then "missing '\x7d'" else hexExpected, before⟩
  | b :: rest =>
    if b == 125 && any then .ok (n, rest)
    else
      match hexValue? b with
      | none => .error ⟨if any then "missing '\x7d'" else hexExpected, before ++ [b]⟩
      | some d =>
        if CodePoint.limit ≤ n * 16 + d then .error ⟨"UTF-8 value too large", before ++ [b]⟩
        else readCodePoint (n * 16 + d) true (before ++ [b]) rest

theorem readCodePoint_length {n : Nat} {any : Bool} {before cs : List UInt8} {r : Nat × List UInt8}
    (h : readCodePoint n any before cs = .ok r) : r.2.length < cs.length := by
  fun_induction readCodePoint n any before cs with
  | case2 n any before b rest _ => simp only [Except.ok.injEq] at h; subst h; simp
  | case5 n any before b rest _ d _ _ ih => have := ih h; simp only [List.length_cons]; omega
  | _ => simp at h

/-- The byte of an escape of one letter. -/
def shortEscape? (b : UInt8) : Option UInt8 :=
  if b == 97 then some 7
  else if b == 98 then some 8
  else if b == 102 then some 12
  else if b == 110 then some 10
  else if b == 114 then some 13
  else if b == 116 then some 9
  else if b == 118 then some 11
  else if b == 92 || b == 34 || b == 39 then some b
  else none

/-- The byte of an escape by two hexadecimal digits, read after its `x`. -/
def readHexEscape : List UInt8 → Except EscapeFault (UInt8 × List UInt8)
  | x :: y :: rest =>
    match hexValue? x, hexValue? y with
    | some m, some n => .ok ((m * 16 + n).toUInt8, rest)
    | none, _ => .error ⟨hexExpected, [120, x]⟩
    | some _, none => .error ⟨hexExpected, [120, x, y]⟩
  | rest => .error ⟨hexExpected, 120 :: rest⟩

theorem readHexEscape_length {cs : List UInt8} {r : UInt8 × List UInt8}
    (h : readHexEscape cs = .ok r) : r.2.length < cs.length := by
  unfold readHexEscape at h
  split at h
  · split at h
    · simp only [Except.ok.injEq] at h
      subst h
      simp only [List.length_cons]
      omega
    · simp at h
    · simp at h
  · simp at h

/-- The bytes of an escaped code point, read after its `u`. -/
def readCodePointEscape : List UInt8 → Except EscapeFault (List UInt8 × List UInt8)
  | 123 :: rest =>
    match readCodePoint 0 false [117, 123] rest with
    | .ok (n, rest) => .ok (CodePoint.encode n, rest)
    | .error e => .error e
  | rest => .error (.at_ "missing '\x7b'" [117] rest)

theorem readCodePointEscape_length {cs : List UInt8} {r : List UInt8 × List UInt8}
    (h : readCodePointEscape cs = .ok r) : r.2.length < cs.length := by
  unfold readCodePointEscape at h
  split at h
  · split at h
    · rename_i hc
      simp only [Except.ok.injEq] at h
      subst h
      have := readCodePoint_length hc
      simp only [List.length_cons] at *
      omega
    · simp at h
  · simp at h

/-- The bytes that an escape stands for, read after its backslash. -/
def readEscape (line : Nat) : List UInt8 → Reading EscapeFault (List UInt8)
  | [] => .error ⟨"", []⟩
  | b :: rest =>
    match shortEscape? b with
    | some c => .ok ([c], line, rest)
    | none =>
      if isNewline b then .ok ([10], line + 1, dropPair b rest)
      else if b == 122 then
        let next := skipEscapedBlanks line rest
        .ok ([], next.1, next.2)
      else if b == 120 then
        match readHexEscape rest with
        | .ok (c, rest) => .ok ([c], line, rest)
        | .error e => .error e
      else if b == 117 then
        match readCodePointEscape rest with
        | .ok (bytes, rest) => .ok (bytes, line, rest)
        | .error e => .error e
      else if isDigit b then
        let d := readDecimal (b.toNat - 48) 2 rest
        if d.1 < 256 then .ok ([d.1.toUInt8], line, d.2)
        else
          .error (.at_ "decimal escape too large" (b :: rest.take (rest.length - d.2.length)) d.2)
      else .error ⟨"invalid escape sequence", [b]⟩

theorem readEscape_length {line : Nat} {cs : List UInt8} {r : List UInt8 × Nat × List UInt8}
    (h : readEscape line cs = .ok r) : r.2.2.length < cs.length := by
  unfold readEscape at h
  split at h
  · simp at h
  · rename_i b rest
    split at h
    · simp only [Except.ok.injEq] at h; subst h; simp
    · split at h
      · simp only [Except.ok.injEq] at h
        subst h
        have := dropPair_length_le b rest
        simp only [List.length_cons]
        omega
      · split at h
        · simp only [Except.ok.injEq] at h
          subst h
          have := skipEscapedBlanks_length_le line rest
          simp only [List.length_cons]
          omega
        · split at h
          · split at h
            · rename_i hx
              simp only [Except.ok.injEq] at h
              subst h
              have := readHexEscape_length hx
              simp only [List.length_cons] at *
              omega
            · simp at h
          · split at h
            · split at h
              · rename_i hu
                simp only [Except.ok.injEq] at h
                subst h
                have := readCodePointEscape_length hu
                simp only [List.length_cons] at *
                omega
              · simp at h
            · split at h
              · dsimp only at h
                split at h
                · simp only [Except.ok.injEq] at h
                  subst h
                  have := readDecimal_length_le (b.toNat - 48) 2 rest
                  simp only [List.length_cons]
                  omega
                · simp at h
              · simp at h

def appendBytes (out : ByteArray) (bytes : List UInt8) : ByteArray := bytes.foldl ByteArray.push out

def unfinishedString : String := "unfinished string"

/-- The fault of an escape in a string of which `out` was read. -/
def escapeFault (quote : UInt8) (line : Nat) (out : ByteArray) (e : EscapeFault) : Fault :=
  if e.shown.isEmpty then ⟨line, nearEnd unfinishedString⟩
  else ⟨line, near e.message (quote :: out.toList ++ 92 :: e.shown)⟩

/-- The text of a string up to its closing quote. -/
def readQuoted (quote : UInt8) (line : Nat) (out : ByteArray) : List UInt8 → Reading Fault ByteArray
  | [] => .error ⟨line, nearEnd unfinishedString⟩
  | b :: rest =>
    if b == quote then .ok (out, line, rest)
    else if isNewline b then .error ⟨line, near unfinishedString (quote :: out.toList)⟩
    else if b == 92 then
      match _h : readEscape line rest with
      | .ok (bytes, line, rest) => readQuoted quote line (appendBytes out bytes) rest
      | .error e => .error (escapeFault quote line out e)
    else readQuoted quote line (out.push b) rest
termination_by cs => cs.length
decreasing_by
  · have := readEscape_length _h
    simp only [List.length_cons] at *
    omega
  · simp only [List.length_cons]; omega

theorem readQuoted_length {quote : UInt8} {line : Nat} {out : ByteArray} {cs : List UInt8}
    {r : ByteArray × Nat × List UInt8} (h : readQuoted quote line out cs = .ok r) :
    r.2.2.length < cs.length := by
  fun_induction readQuoted quote line out cs with
  | case2 line out b rest _ => simp only [Except.ok.injEq] at h; subst h; simp
  | case4 line out b rest _ _ _ bytes line' rest' he ih =>
    have := ih h
    have := readEscape_length he
    simp only [List.length_cons] at *
    omega
  | case6 line out b rest _ _ _ ih => have := ih h; simp only [List.length_cons]; omega
  | _ => simp at h

/-! Numerals -/

/-- Whether a byte marks the exponent of a numeral. -/
def isExponentMark (hex : Bool) (b : UInt8) : Bool :=
  if hex then b == 80 || b == 112 else b == 69 || b == 101

def isSign (b : UInt8) : Bool := b == 45 || b == 43

/-- The bytes of a numeral after those in `out`, latest first. A sign goes on a numeral only after an
exponent mark, which `marked` says was the latest. A letter ends it and belongs to it. -/
def numeralBytes (hex marked : Bool) (out : List UInt8) : List UInt8 → List UInt8 × List UInt8
  | [] => (out, [])
  | b :: rest =>
    if marked && isSign b then numeralBytes hex false (b :: out) rest
    else if isExponentMark hex b then numeralBytes hex true (b :: out) rest
    else if (hexValue? b).isSome || b == 46 then numeralBytes hex false (b :: out) rest
    else if isNameStart b then (b :: out, rest)
    else (out, b :: rest)

theorem numeralBytes_length_le (hex marked : Bool) (out cs : List UInt8) :
    (numeralBytes hex marked out cs).2.length ≤ cs.length := by
  fun_induction numeralBytes hex marked out cs with
  | case1 => exact Nat.le_refl _
  | case6 => exact Nat.le_refl _
  | _ => simp only [List.length_cons]; omega

/-- A numeral that starts with `b`, and its text. -/
def readNumeral (line : Nat) (b : UInt8) (rest : List UInt8) :
    Reading Fault (Number × List UInt8) :=
  let (out, rest) :=
    match b, rest with
    | 48, 120 :: rest => numeralBytes true false [120, 48] rest
    | 48, 88 :: rest => numeralBytes true false [88, 48] rest
    | _, _ => numeralBytes false false [b] rest
  match Number.read? (out.reverse.map fun c => Char.ofNat c.toNat) with
  | some n => .ok ((n, out.reverse), line, rest)
  | none => .error ⟨line, near "malformed number" out.reverse⟩

/-! Tokens -/

/-- The token of a name, which may be a keyword. -/
def wordToken (bytes : List UInt8) : Token :=
  match Keyword.ofText? (bytes.map fun b => Char.ofNat b.toNat) with
  | some k => .keyword k
  | none => .name (appendBytes ByteArray.empty bytes)

/-- The longer mark when the byte `second` follows, else the shorter one. -/
def longerMark (second : UInt8) (long short : Mark) (rest : List UInt8) : Token × List UInt8 :=
  match rest with
  | c :: more => if c == second then (.mark long, more) else (.mark short, rest)
  | [] => (.mark short, rest)

theorem longerMark_length_le (second : UInt8) (long short : Mark) (rest : List UInt8) :
    (longerMark second long short rest).2.length ≤ rest.length := by
  unfold longerMark
  split
  · split <;> simp
  · simp

/-- The marks of one character. -/
def singleMark? (c : Char) : Option Mark :=
  match c with
  | '+' => some .plus
  | '-' => some .minus
  | '*' => some .star
  | '%' => some .percent
  | '^' => some .caret
  | '#' => some .hash
  | '&' => some .ampersand
  | '|' => some .bar
  | '(' => some .openParen
  | ')' => some .closeParen
  | '\x7b' => some .openBrace
  | '\x7d' => some .closeBrace
  | '[' => some .openBracket
  | ']' => some .closeBracket
  | ';' => some .semicolon
  | ',' => some .comma
  | _ => none

/-- The mark that starts with `b`, and what follows it. -/
def readMark (b : UInt8) (rest : List UInt8) : Token × List UInt8 :=
  match singleMark? (Char.ofNat b.toNat) with
  | some m => (.mark m, rest)
  | none =>
    match b, rest with
    | 60, 60 :: more => (.mark .shiftLeft, more)
    | 60, _ => longerMark 61 .lessEqual .less rest
    | 62, 62 :: more => (.mark .shiftRight, more)
    | 62, _ => longerMark 61 .greaterEqual .greater rest
    | 46, 46 :: 46 :: more => (.mark .ellipsis, more)
    | 46, _ => longerMark 46 .doubleDot .dot rest
    | 47, _ => longerMark 47 .doubleSlash .slash rest
    | 126, _ => longerMark 61 .notEqual .tilde rest
    | 61, _ => longerMark 61 .equal .assign rest
    | 58, _ => longerMark 58 .doubleColon .colon rest
    | _, _ => (.stray b, rest)

/-- Whether a numeral starts here. -/
def startsNumeral (b : UInt8) (rest : List UInt8) : Bool :=
  isDigit b || (b == 46 && (rest.head?.map isDigit).getD false)

/-- A bracket and the equals signs after it. -/
def delimiterBytes (rest : List UInt8) : List UInt8 := 91 :: rest.takeWhile (· == 61)

/-- The token that starts with `b`. -/
def readToken (line : Nat) (b : UInt8) (rest : List UInt8) : Reading Fault Token :=
  if isNameStart b then
    .ok (wordToken (b :: rest.takeWhile isNameByte), line, rest.dropWhile isNameByte)
  else if startsNumeral b rest then
    match readNumeral line b rest with
    | .ok ((n, text), line, rest) => .ok (.number n text, line, rest)
    | .error e => .error e
  else if b == 34 || b == 39 then
    match readQuoted b line ByteArray.empty rest with
    | .ok (s, line, rest) => .ok (.string s (.quoted b), line, rest)
    | .error e => .error e
  else if b == 91 then
    match openLevel? 0 rest with
    | some (level, rest) =>
      match readLongText level line rest with
      | .ok (s, line, rest) => .ok (.string s (.long level), line, rest)
      | .error last => .error (unfinishedLong "string" line last)
    | none =>
      match rest with
      | 61 :: _ => .error ⟨line, near "invalid long string delimiter" (delimiterBytes rest)⟩
      | _ => .ok (.mark .openBracket, line, rest)
  else
    let mark := readMark b rest
    .ok (mark.1, line, mark.2)

/-! Lengths -/

theorem readNumeral_length {line : Nat} {b : UInt8} {rest : List UInt8}
    {r : (Number × List UInt8) × Nat × List UInt8} (h : readNumeral line b rest = .ok r) :
    r.2.2.length ≤ rest.length := by
  unfold readNumeral at h
  split at h
  rename_i out after hb
  split at h
  · simp only [Except.ok.injEq] at h
    subst h
    split at hb
    all_goals
      have := congrArg (fun p => p.2.length) hb
      have := numeralBytes_length_le
      simp only [List.length_cons] at *
      grind
  · simp at h

theorem readMark_length (b : UInt8) (rest : List UInt8) : (readMark b rest).2.length ≤ rest.length := by
  unfold readMark
  repeat' split
  all_goals first
    | exact longerMark_length_le ..
    | simp only [List.length_cons]; omega

theorem readToken_length {line : Nat} {b : UInt8} {rest : List UInt8} {r : Token × Nat × List UInt8}
    (h : readToken line b rest = .ok r) : r.2.2.length ≤ rest.length := by
  unfold readToken at h
  split at h
  · simp only [Except.ok.injEq] at h
    subst h
    exact dropWhile_length_le _ _
  · split at h
    · split at h
      · rename_i hn
        simp only [Except.ok.injEq] at h
        subst h
        exact readNumeral_length hn
      · simp at h
    · split at h
      · split at h
        · rename_i hq
          simp only [Except.ok.injEq] at h
          subst h
          exact Nat.le_of_lt (readQuoted_length hq)
        · simp at h
      · split at h
        · split at h
          · rename_i ho
            split at h
            · rename_i hl
              simp only [Except.ok.injEq] at h
              subst h
              have := openLevel?_length ho
              have := readLongText_length hl
              simp only at *
              omega
            · simp at h
          · split at h
            · simp at h
            · simp only [Except.ok.injEq] at h
              subst h
              simp
        · simp only [Except.ok.injEq] at h
          subst h
          exact readMark_length b rest

theorem skipBlanks_length_le {line : Nat} {cs : List UInt8} {r : Unit × Nat × List UInt8}
    (h : skipBlanks line cs = .ok r) : r.2.2.length ≤ cs.length := by
  fun_induction skipBlanks line cs with
  | case1 => simp only [Except.ok.injEq] at h; subst h; simp
  | case2 line b rest _ ih =>
    have := ih h
    have := dropPair_length_le b rest
    simp only [List.length_cons]
    omega
  | case3 line b rest _ _ ih => have := ih h; simp only [List.length_cons]; omega
  | case4 _ _ _ _ _ hc _ _ ih =>
    have := ih h
    have := skipComment_length hc
    simp only [List.length_cons] at *
    omega
  | case5 => simp at h
  | case6 => simp only [Except.ok.injEq] at h; subst h; simp

/-! The text of a script -/

/-- Puts the tokens of a text before those in `done`, which stand in reverse. The last token is the end
of the text or the place where it is broken. -/
def tokensAfter (done : List Lexeme) (line : Nat) (cs : List UInt8) : List Lexeme :=
  match _hs : skipBlanks line cs with
  | .error e => (⟨.broken e.message, e.line⟩ :: done).reverse
  | .ok (_, line, []) => (⟨.eof, line⟩ :: done).reverse
  | .ok (_, line, b :: rest) =>
    match _ht : readToken line b rest with
    | .error e => (⟨.broken e.message, e.line⟩ :: done).reverse
    | .ok (token, line, rest) => tokensAfter (⟨token, line⟩ :: done) line rest
termination_by cs.length
decreasing_by
  have := skipBlanks_length_le _hs
  have := readToken_length _ht
  simp only [List.length_cons] at *
  omega

/-- The tokens of a script. -/
def tokens (source : String) : List Lexeme := tokensAfter [] 1 source.toUTF8.toList

end ScriptTools.Guest.Lexer
