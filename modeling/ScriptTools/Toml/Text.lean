import ScriptTools.Decimal.Read
import ScriptTools.Text.Basic
import ScriptTools.Timestamp
import ScriptTools.Toml.Basic

/-!
The words of TOML text: blanks and comments, strings in four styles, and scalars without quotes. Each
reader returns what follows.
-/

namespace ScriptTools.Toml

def isSpace (c : Char) : Bool := c == ' ' || c == '\t'

def skipSpaces (cs : List Char) : List Char := cs.dropWhile isSpace

/-- A character that may stand in a comment or between quotes. -/
def isPlain (c : Char) : Bool := c == '\t' || (0x20 ≤ c.toNat && c.toNat != 0x7F)

/-- A line break at the front of a text. -/
def readBreak? : List Char → Option (List Char)
  | '\n' :: rest => some rest
  | '\r' :: '\n' :: rest => some rest
  | _ => none

/-- Passes over a comment up to its line break. -/
def skipComment (cs : List Char) : List Char :=
  match cs with
  | '#' :: rest => rest.dropWhile isPlain
  | _ => cs

/-- Passes over spaces, comments and line breaks. The count bounds the number of lines. -/
def skipLines : Nat → List Char → List Char
  | 0, cs => cs
  | n + 1, cs =>
    let cs := skipComment (skipSpaces cs)
    match readBreak? cs with
    | some rest => skipLines n rest
    | none => cs

def skipAllLines (cs : List Char) : List Char := skipLines (cs.length + 1) cs

/-- The character whose number has exactly the given hexadecimal digits. -/
def readCodePoint? (digits : List Char) (count : Nat) : Option Char := do
  guard (digits.length = count)
  let n ← Text.natOfHex? digits
  if n < 0xD800 || (0xDFFF < n && n < 0x110000) then some (Char.ofNat n) else none

/-- The character that an escape stands for, after its backslash. -/
def readEscape? : List Char → Option (Char × List Char)
  | 'b' :: rest => some ('\x08', rest)
  | 't' :: rest => some ('\t', rest)
  | 'n' :: rest => some ('\n', rest)
  | 'f' :: rest => some ('\x0c', rest)
  | 'r' :: rest => some ('\r', rest)
  | '"' :: rest => some ('"', rest)
  | '\\' :: rest => some ('\\', rest)
  | 'u' :: rest => (readCodePoint? (rest.take 4) 4).map fun c => (c, rest.drop 4)
  | 'U' :: rest => (readCodePoint? (rest.take 8) 8).map fun c => (c, rest.drop 8)
  | _ => none

/-- Reads a string on one line after its opening quote. -/
def readBasic? : Nat → String → List Char → Option (String × List Char)
  | 0, _, _ => none
  | _ + 1, _, [] => none
  | n + 1, done, c :: rest =>
    if c == '"' then some (done, rest)
    else if c == '\\' then
      match readEscape? rest with
      | some (e, rest) => readBasic? n (done.push e) rest
      | none => none
    else if isPlain c then readBasic? n (done.push c) rest
    else none

/-- Reads a string without escapes on one line after its opening quote. -/
def readLiteral? (cs : List Char) : Option (String × List Char) :=
  let (body, rest) := cs.span fun c => c != '\'' && isPlain c
  match rest with
  | '\'' :: rest => some (String.ofList body, rest)
  | _ => none

/-- The end of a string of many lines: three quotes, before which up to two more belong to the text. -/
def readClosing? (quote : Char) (cs : List Char) : Option (Nat × List Char) :=
  let run := (cs.takeWhile (· == quote)).length
  if run < 3 then none else if run ≤ 5 then some (run - 3, cs.drop run) else some (2, cs.drop 5)

/-- Passes over blanks and line breaks after a backslash at the end of a line. -/
def skipContinued (cs : List Char) : Option (List Char) :=
  match readBreak? (skipSpaces cs) with
  | some rest => some (rest.dropWhile fun c => isSpace c || c == '\n' || c == '\r')
  | none => none

/-- Reads a string of many lines with or without escapes. -/
def readLong? (quote : Char) (escapes : Bool) : Nat → String → List Char → Option (String × List Char)
  | 0, _, _ => none
  | _ + 1, _, [] => none
  | n + 1, done, c :: rest =>
    if c == quote then
      match readClosing? quote (c :: rest) with
      | some (extra, rest) => some ((List.replicate extra quote).foldl String.push done, rest)
      | none => readLong? quote escapes n (done.push c) rest
    else if escapes && c == '\\' then
      match readEscape? rest with
      | some (e, rest) => readLong? quote escapes n (done.push e) rest
      | none =>
        match skipContinued rest with
        | some rest => readLong? quote escapes n done rest
        | none => none
    else
      match readBreak? (c :: rest) with
      | some rest => readLong? quote escapes n (done.push '\n') rest
      | none => if isPlain c then readLong? quote escapes n (done.push c) rest else none

/-- A line break right after the opening quotes does not count. -/
def dropFirstBreak (cs : List Char) : List Char := (readBreak? cs).getD cs

/-- Reads a string of any style. -/
def readString? (cs : List Char) : Option (String × List Char) :=
  match cs with
  | '"' :: '"' :: '"' :: rest => readLong? '"' true (rest.length + 1) "" (dropFirstBreak rest)
  | '\'' :: '\'' :: '\'' :: rest => readLong? '\'' false (rest.length + 1) "" (dropFirstBreak rest)
  | '"' :: rest => readBasic? (rest.length + 1) "" rest
  | '\'' :: rest => readLiteral? rest
  | _ => none

def isBareKeyChar (c : Char) : Bool := c.isAlphanum || c == '_' || c == '-'

/-- One part of a key. -/
def readKeyPart? (cs : List Char) : Option (String × List Char) :=
  match cs with
  | '"' :: rest => readBasic? (rest.length + 1) "" rest
  | '\'' :: rest => readLiteral? rest
  | _ =>
    let (body, rest) := cs.span isBareKeyChar
    if body.isEmpty then none else some (String.ofList body, rest)

/-- A key of one or more parts with dots between them. -/
def readKey? : Nat → List Char → Option (List String × List Char)
  | 0, _ => none
  | n + 1, cs => do
    let (part, rest) ← readKeyPart? (skipSpaces cs)
    match skipSpaces rest with
    | '.' :: rest =>
      let (parts, rest) ← readKey? n rest
      pure (part :: parts, rest)
    | rest => pure ([part], rest)

/-- Digits with underscores that stand between two of them. -/
def joinDigits? (isDigit : Char → Bool) : List Char → Option (List Char)
  | [] => none
  | [c] => if isDigit c then some [c] else none
  | c :: '_' :: rest => if isDigit c then (joinDigits? isDigit rest).map (c :: ·) else none
  | c :: rest => if isDigit c then (joinDigits? isDigit rest).map (c :: ·) else none

def isOctal (c : Char) : Bool := '0' ≤ c && c ≤ '7'

def isBinary (c : Char) : Bool := c == '0' || c == '1'

def integerOf? (i : Int) : Option Value := if Decimal.fitsInt64 i then some (.integer i) else none

/-- The number that digits of a base write. -/
def readBase? (base : Nat) (isDigit : Char → Bool) (cs : List Char) : Option Value := do
  let digits ← joinDigits? isDigit cs
  let n ← digits.foldlM (fun n c => (Text.hexValue? c).map (n * base + ·)) 0
  integerOf? n

/-- Decimal digits without a leading zero. -/
def readWhole? (cs : List Char) : Option (List Char) := do
  let digits ← joinDigits? Char.isDigit cs
  if digits.head? == some '0' && digits.length != 1 then none else some digits

/-- The parts of a float: whole digits, a fraction after a point, an exponent. -/
def readFloatParts? (cs : List Char) : Option Float := do
  let (mantissa, exponent) := cs.span fun c => c != 'e' && c != 'E'
  let (whole, fraction) := mantissa.span (· != '.')
  let whole ← readWhole? whole
  let fraction ←
    match fraction with
    | [] => some []
    | _ :: digits => joinDigits? Char.isDigit digits
  let e ←
    match exponent with
    | [] => some 0
    | _ :: digits =>
      let (negative, digits) := Decimal.readSign digits
      (joinDigits? Char.isDigit digits).map fun ds =>
        let n : Int := Decimal.natOfDigits ds
        if negative then -n else n
  pure (Decimal.ofScientific false (Decimal.natOfDigits (whole ++ fraction)) (e - fraction.length))

/-- A number after its sign. -/
def readNumber? (signed negative : Bool) (cs : List Char) : Option Value :=
  match cs with
  | ['i', 'n', 'f'] => some (.float (Decimal.nearest negative (Nat.pow 2 1024) 1))
  | ['n', 'a', 'n'] => some (.float (0.0 / 0.0))
  | '0' :: 'x' :: rest =>
    if signed then none
    else readBase? 16 (fun c => c.isDigit || (Text.hexValue? c).isSome) rest
  | '0' :: 'o' :: rest => if signed then none else readBase? 8 isOctal rest
  | '0' :: 'b' :: rest => if signed then none else readBase? 2 isBinary rest
  | _ =>
    match readWhole? cs with
    | some digits =>
      let n : Int := Decimal.natOfDigits digits
      integerOf? (if negative then -n else n)
    | none =>
      if cs.any fun c => c == '.' || c == 'e' || c == 'E' then
        (readFloatParts? cs).map fun x => .float (if negative then -x else x)
      else none

/-- The number of `count` digits, if it lies between two bounds. -/
def readField? (count low high : Nat) (cs : List Char) : Option (Nat × List Char) := do
  let ds := cs.take count
  guard (ds.length = count && ds.all Char.isDigit)
  let n := Decimal.natOfDigits ds
  guard (low ≤ n && n ≤ high)
  pure (n, cs.drop count)

def readChar? (mark : Char) : List Char → Option (List Char)
  | c :: rest => if c = mark then some rest else none
  | [] => none

/-- A date of four, two and two digits. -/
def readDate? (cs : List Char) : Option (List Char) := do
  let (year, cs) ← readField? 4 0 9999 cs
  let (month, cs) ← readField? 2 1 12 (← readChar? '-' cs)
  let (day, cs) ← readField? 2 1 31 (← readChar? '-' cs)
  guard (day ≤ CivilDay.daysInMonth year month)
  pure cs

/-- A time of day with an optional fraction. -/
def readTime? (cs : List Char) : Option (List Char) := do
  let (_, cs) ← readField? 2 0 23 cs
  let (_, cs) ← readField? 2 0 59 (← readChar? ':' cs)
  let (_, cs) ← readField? 2 0 60 (← readChar? ':' cs)
  match cs with
  | '.' :: rest =>
    let (ds, rest) := Decimal.spanDigits rest
    if ds.isEmpty then none else some rest
  | _ => some cs

/-- What may follow a date with a time: nothing, `Z`, or an offset. -/
def isOffset (cs : List Char) : Bool :=
  match cs with
  | [] => true
  | ['Z'] | ['z'] => true
  | sign :: rest =>
    (sign == '+' || sign == '-') &&
      (do
        let (_, rest) ← readField? 2 0 23 rest
        let (_, rest) ← readField? 2 0 59 (← readChar? ':' rest)
        pure rest) == some []

/-- A date, a time, or both. -/
def isMoment (cs : List Char) : Bool :=
  match readDate? cs with
  | some [] => true
  | some (c :: rest) =>
    (c == 'T' || c == 't' || c == ' ') && ((readTime? rest).map isOffset).getD false
  | none => readTime? cs == some []

def isScalarChar (c : Char) : Bool :=
  c.isAlphanum || c == '_' || c == '-' || c == '+' || c == '.' || c == ':'

/-- The characters of a scalar without quotes: a date may go on with its time after one space. -/
def spanScalar (cs : List Char) : List Char × List Char :=
  let (word, rest) := cs.span isScalarChar
  match rest with
  | ' ' :: d :: more =>
    if readDate? word == some [] && d.isDigit then
      let (time, rest) := (d :: more).span isScalarChar
      (word ++ ' ' :: time, rest)
    else (word, rest)
  | _ => (word, rest)

/-- The value of a scalar without quotes. -/
def scalarOf? (word : List Char) : Option Value :=
  match word with
  | ['t', 'r', 'u', 'e'] => some (.boolean true)
  | ['f', 'a', 'l', 's', 'e'] => some (.boolean false)
  | '+' :: rest => readNumber? true false rest
  | '-' :: rest => readNumber? true true rest
  | _ =>
    match readNumber? false false word with
    | some v => some v
    | none => if isMoment word then some (.moment (String.ofList word)) else none

end ScriptTools.Toml
