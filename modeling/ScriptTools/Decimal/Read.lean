import ScriptTools.Decimal.Binary

/-!
Reading numbers written in decimal.
-/

namespace ScriptTools.Decimal

def digitValue (c : Char) : Nat := c.toNat - '0'.toNat

/-- The number that a list of digits writes. -/
def natOfDigits (ds : List Char) : Nat := ds.foldl (fun n c => n * 10 + digitValue c) 0

/-- Digits at the front of a text, and what follows them. -/
def spanDigits (cs : List Char) : List Char × List Char := cs.span Char.isDigit

/-- The optional sign at the front of a number: whether it is a minus, and the rest. -/
def readSign : List Char → Bool × List Char
  | '-' :: rest => (true, rest)
  | '+' :: rest => (false, rest)
  | cs => (false, cs)

/-- An integer: an optional sign and at least one digit. -/
def readInt? (cs : List Char) : Option Int :=
  let (negative, body) := readSign cs
  if body.isEmpty || !body.all Char.isDigit then none
  else
    let n : Int := natOfDigits body
    some (if negative then -n else n)

/-- The range of 64-bit integers. -/
def fitsInt64 (i : Int) : Bool := -9223372036854775808 ≤ i && i ≤ 9223372036854775807

/-- An exponent mark with its number, if the text goes on with one. -/
def readExponent? : List Char → Option Int
  | [] => some 0
  | c :: rest => if c == 'e' || c == 'E' then readInt? rest else none

/-- A double: a sign, then digits with at most one point and an optional exponent, or one of the words
`inf`, `infinity` and `nan` in any case. The nearest double is taken. -/
def readFloat? (cs : List Char) : Option Float :=
  let (negative, body) := readSign cs
  let word := String.ofList (body.map Char.toLower)
  if word = "inf" || word = "infinity" then some (nearest negative (Nat.pow 2 1024) 1)
  else if word = "nan" then some (Float.ofBits (if negative then 0xFFF8000000000000 else 0x7FF8000000000000))
  else
    let (whole, rest) := spanDigits body
    let (fraction, rest) :=
      match rest with
      | '.' :: more => spanDigits more
      | _ => ([], rest)
    if whole.isEmpty && fraction.isEmpty then none
    else
      (readExponent? rest).map fun e =>
        ofScientific negative (natOfDigits (whole ++ fraction)) (e - fraction.length)

end ScriptTools.Decimal
