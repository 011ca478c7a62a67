import ScriptTools.Decimal.Fixed
import ScriptTools.Guest.Number
import ScriptTools.Guest.Pattern

/-!
Directives of formatted text: how one value is written, with flags, a width and a precision.
-/

namespace ScriptTools.Guest

/-- A directive without its letter. -/
structure Directive where
  left : Bool := false
  plus : Bool := false
  blank : Bool := false
  alternative : Bool := false
  zeros : Bool := false
  width : Nat := 0
  precision : Option Nat := none
deriving Repr

namespace Directive

def isFlag (c : Char) : Bool := "-+ #0".toList.contains c

/-- The characters between the percent sign and the letter. -/
def isPart (c : Char) : Bool := isFlag c || c.isDigit || c == '.'

/-- At most two digits at the front of a text. -/
def twoDigits : List Char → List Char × List Char
  | a :: b :: rest =>
    if a.isDigit then (if b.isDigit then ([a, b], rest) else ([a], b :: rest)) else ([], a :: b :: rest)
  | [a] => if a.isDigit then ([a], []) else ([], [a])
  | [] => ([], [])

def number (ds : List Char) : Nat := ds.foldl (fun n c => n * 10 + (c.toNat - 48)) 0

/-- Reads the part of a directive before its letter. Only some flags and not always a precision go with
a letter. -/
def read? (flags : String) (withPrecision : Bool) (text : List Char) : Option Directive :=
  let marks := text.takeWhile fun c => flags.toList.contains c
  let rest := text.drop marks.length
  let base : Directive :=
    { left := marks.contains '-', plus := marks.contains '+', blank := marks.contains ' '
      alternative := marks.contains '#', zeros := marks.contains '0' }
  let (width, rest) := if rest.head? == some '0' then ([], rest) else twoDigits rest
  match rest with
  | [] => some { base with width := number width }
  | '.' :: rest =>
    let (precision, rest) := twoDigits rest
    if withPrecision && rest.isEmpty then
      some { base with width := number width, precision := some (number precision) }
    else none
  | _ => none

/-- Fills a text up to the width. Zeros come between the sign and the rest. -/
def fill (d : Directive) (zeros : Bool) (sign body : List Char) : List Char :=
  let missing := d.width - (sign.length + body.length)
  if d.left then sign ++ body ++ List.replicate missing ' '
  else if zeros then sign ++ List.replicate missing '0' ++ body
  else List.replicate missing ' ' ++ sign ++ body

def signOf (d : Directive) (negative : Bool) : List Char :=
  if negative then ['-'] else if d.plus then ['+'] else if d.blank then [' '] else []

/-- Digits filled up with zeros to the precision. Zero has none when none are asked for. -/
def withPrecision (d : Directive) (digits : List Char) : List Char :=
  match d.precision with
  | none => digits
  | some p => if p = 0 && digits == ['0'] then [] else Decimal.padLeftZeros p digits

def decimal (d : Directive) (i : Int64) : List Char :=
  let n := i.toInt
  d.fill (d.zeros && d.precision.isNone) (d.signOf (n < 0))
    (d.withPrecision (Decimal.digitChars n.natAbs))

/-- An integer without sign in a base. -/
def unsigned (d : Directive) (base : Nat) (mark : List Char) (i : Int64) : List Char :=
  let n := i.toUInt64.toNat
  let digits := d.withPrecision (Nat.toDigits base n)
  let sign := if d.alternative && n != 0 then mark else []
  d.fill (d.zeros && d.precision.isNone) sign digits

/-- An octal integer; the alternative form starts with a zero. -/
def octal (d : Directive) (i : Int64) : List Char :=
  let digits := d.withPrecision (Nat.toDigits 8 i.toUInt64.toNat)
  let digits := if d.alternative && digits.head? != some '0' then '0' :: digits else digits
  d.fill (d.zeros && d.precision.isNone) [] digits

/-- A double written by a given way to write magnitudes. -/
def real (d : Directive) (x : Float) (magnitude : Decimal.Binary → List Char) : List Char :=
  let sign := d.signOf (Decimal.isNegative x || x.isNaN)
  if x.isNaN then d.fill false sign ['n', 'a', 'n']
  else if x.isInf then d.fill false sign ['i', 'n', 'f']
  else d.fill d.zeros sign (magnitude (.ofFloat x))

def fixed (d : Directive) (x : Float) : List Char :=
  d.real x (Decimal.fixedText (d.precision.getD 6) d.alternative)

def scientific (d : Directive) (x : Float) : List Char :=
  d.real x (Decimal.scientificText (d.precision.getD 6) d.alternative)

def general (d : Directive) (x : Float) : List Char :=
  d.real x (Decimal.generalText (d.precision.getD 6) d.alternative)

/-- A magnitude in hexadecimal with an exponent of two, exact or with some digits after the point. -/
def hexMagnitude (precision : Option Nat) (point : Bool) (b : Decimal.Binary) : List Char :=
  let (lead, fraction, e) : Nat × Nat × Int :=
    if b.significand = 0 then (0, 0, 0)
    else if b.significand < Nat.pow 2 52 then (0, b.significand, -1022)
    else (1, b.significand - Nat.pow 2 52, b.exponent + 52)
  let (whole, digits) : Nat × List Char :=
    match precision with
    | none => (lead, Decimal.dropTrailingZeros (Text.hexDigits 13 fraction))
    | some p =>
      if 13 ≤ p then (lead, Text.hexDigits 13 fraction ++ List.replicate (p - 13) '0')
      else
        let n := Decimal.roundHalfEven (lead * Nat.pow 2 52 + fraction) (Nat.pow 2 (52 - 4 * p))
        (n / Nat.pow 16 p, Text.hexDigits p n)
  let rest := if digits.isEmpty && !point then [] else '.' :: digits
  Decimal.digitChars whole ++ rest ++ 'p' :: (if e < 0 then '-' else '+')
    :: Decimal.digitChars e.natAbs

def hexReal (d : Directive) (x : Float) : List Char :=
  let sign := d.signOf (Decimal.isNegative x || x.isNaN)
  if x.isNaN || x.isInf then d.real x fun _ => []
  else d.fill d.zeros (sign ++ ['0', 'x']) (hexMagnitude d.precision d.alternative (.ofFloat x))

/-- Bytes cut to the precision and filled up to the width. -/
def bytes (d : Directive) (s : ByteArray) : ByteArray :=
  let s :=
    match d.precision with
    | some p => s.extract 0 p
    | none => s
  let gap := ByteArray.mk (Array.replicate (d.width - s.size) 32)
  if d.left then s ++ gap else gap ++ s

end Directive

/-- A string between quotes, in the form in which a script may contain it. -/
def quoteBytes (s : ByteArray) : ByteArray :=
  go s.toList (ByteArray.empty.push 34)
where
  go : List UInt8 → ByteArray → ByteArray
    | [], out => out.push 34
    | c :: rest, out =>
      if c == 34 || c == 92 || c == 10 then go rest ((out.push 92).push c)
      else if Pattern.isControl c then
        let digits := Decimal.digitChars c.toNat
        let digits :=
          if (rest.head?.map Pattern.isDigit).getD false then Decimal.padLeftZeros 3 digits else digits
        go rest ((out.push 92) ++ (String.ofList digits).toUTF8)
      else go rest (out.push c)

/-- A number in the form in which a script may contain it, with its exact value. -/
def literalNumber : Number → String
  | .int i => if i = Int64.minValue then "0x8000000000000000" else toString i.toInt
  | .float x =>
    if x.isNaN then "(0/0)"
    else if x.isInf then (if x < 0 then "-1e9999" else "1e9999")
    else String.ofList (Directive.hexReal {} x)

end ScriptTools.Guest
