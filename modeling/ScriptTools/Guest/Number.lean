import ScriptTools.Decimal.Fixed
import ScriptTools.Decimal.Read
import ScriptTools.Decimal.Whole
import ScriptTools.Text.Basic

/-!
Numbers of scripts: integers of 64 bits that wrap around, and doubles. Comparisons between the two are
exact, and an operation on two integers gives an integer unless it is a division or a power.
-/

namespace ScriptTools.Guest

inductive Number where
  | int (i : Int64)
  | float (x : Float)
deriving Inhabited, Repr

namespace Number

def toFloat : Number → Float
  | .int i => Decimal.ofInt i.toInt
  | .float x => x

/-- The integer with the same value, if there is one. -/
def toInt? : Number → Option Int64
  | .int i => some i
  | .float x => Decimal.whole? x

/-- The remainder of two magnitudes, exact. -/
def remainderMagnitude (negative : Bool) (a b : Decimal.Binary) : Float :=
  let e := min a.exponent b.exponent
  let m := a.significand * Nat.pow 2 (a.exponent - e).toNat
  let n := b.significand * Nat.pow 2 (b.exponent - e).toNat
  Decimal.nearest negative (m % n * Nat.pow 2 e.toNat) (Nat.pow 2 (-e).toNat)

/-- The remainder with the sign of the first operand. -/
def truncatedMod (a b : Float) : Float :=
  if a.isNaN || b.isNaN || a.isInf || b == 0 then 0.0 / 0.0
  else if b.isInf then a
  else remainderMagnitude (Decimal.isNegative a) (.ofFloat a) (.ofFloat b)

/-- The remainder with the sign of the second operand. -/
def floatMod (a b : Float) : Float :=
  let r := truncatedMod a b
  if (0 < r && b < 0) || (r < 0 && 0 < b) then r + b else r

/-- The quotient rounded down. -/
def intDiv (a b : Int64) : Int64 :=
  if b = -1 then 0 - a
  else
    let q := a / b
    if a % b != 0 && (a < 0) != (b < 0) then q - 1 else q

/-- The remainder with the sign of the second operand. -/
def intMod (a b : Int64) : Int64 :=
  if b = -1 then 0
  else
    let r := a % b
    if r != 0 && (r < 0) != (b < 0) then r + b else r

/-- A power; a square is a product, which is exact more often. -/
def floatPow (a b : Float) : Float := if b == 2 then a * a else Float.pow a b

/-- Shifts towards higher bits, or towards lower bits when the amount is negative; zeros come in. -/
def shiftLeft (a b : Int64) : Int64 :=
  if b ≤ -64 || 64 ≤ b then 0
  else if b < 0 then (a.toUInt64 >>> (0 - b).toUInt64).toInt64
  else (a.toUInt64 <<< b.toUInt64).toInt64

def shiftRight (a b : Int64) : Int64 :=
  if b = Int64.minValue then 0 else shiftLeft a (0 - b)

/-- The lower bound and the upper bound of doubles that may be rounded to integers. -/
def leastInt : Float := -9223372036854775808.0

def pastInt : Float := 9223372036854775808.0

def intLtFloat (i : Int64) (x : Float) : Bool :=
  if pastInt ≤ x then true else if leastInt ≤ x then i < x.ceil.toInt64 else false

def intLeFloat (i : Int64) (x : Float) : Bool :=
  if pastInt ≤ x then true else if leastInt ≤ x then i ≤ x.floor.toInt64 else false

def floatLtInt (x : Float) (i : Int64) : Bool :=
  if x < leastInt then true else if x < pastInt then x.floor.toInt64 < i else false

def floatLeInt (x : Float) (i : Int64) : Bool :=
  if x < leastInt then true else if x < pastInt then x.ceil.toInt64 ≤ i else false

def lt : Number → Number → Bool
  | .int a, .int b => a < b
  | .int a, .float b => intLtFloat a b
  | .float a, .int b => floatLtInt a b
  | .float a, .float b => a < b

def le : Number → Number → Bool
  | .int a, .int b => a ≤ b
  | .int a, .float b => intLeFloat a b
  | .float a, .int b => floatLeInt a b
  | .float a, .float b => a ≤ b

/-- Equality of values: an integer equals the double of the same value, and no NaN equals itself. -/
def eq : Number → Number → Bool
  | .int a, .int b => a == b
  | .int a, .float b => Decimal.whole? b == some a
  | .float a, .int b => Decimal.whole? a == some b
  | .float a, .float b => a == b

/-- The text of a double with fourteen significant digits; one that looks like an integer gets `.0`. -/
def floatText (x : Float) : String :=
  if x.isNaN then "-nan"
  else
    let text := Decimal.general 14 x
    if text.all fun c => c.isDigit || c == '-' then text ++ ".0" else text

def text : Number → String
  | .int i => toString i.toInt
  | .float x => floatText x

/-! Reading numerals -/

def isBlank (c : Char) : Bool := c == ' ' || ('\t' ≤ c && c ≤ '\r')

def hexDigits (cs : List Char) : List Char × List Char :=
  cs.span fun c => (Text.hexValue? c).isSome

/-- Hexadecimal digits as an integer that wraps around. -/
def wrapHex (ds : List Char) : Int64 :=
  ds.foldl (fun n c => n * 16 + Int64.ofNat ((Text.hexValue? c).getD 0)) 0

/-- Splits off a hexadecimal mark. -/
def dropHexMark? : List Char → Option (List Char)
  | '0' :: 'x' :: rest => some rest
  | '0' :: 'X' :: rest => some rest
  | _ => none

/-- The digits with a point, as digits before and after it and what follows. -/
def readPoint (digits : List Char → List Char × List Char) (cs : List Char) :
    List Char × List Char × List Char :=
  let (whole, rest) := digits cs
  match rest with
  | '.' :: more =>
    let (fraction, rest) := digits more
    (whole, fraction, rest)
  | _ => (whole, [], rest)

/-- The exponent after the digits of a numeral, all of the rest. -/
def readExponent? (mark : Char) : List Char → Option Int
  | [] => some 0
  | c :: rest => if c.toLower == mark then Decimal.readInt? rest else none

/-- A hexadecimal numeral with a point or an exponent of two. Exponents that leave the range of doubles
in any case are cut off. -/
def readHexFloat? (negative : Bool) (cs : List Char) : Option Float := do
  let (whole, fraction, rest) := readPoint hexDigits cs
  guard (!(whole.isEmpty && fraction.isEmpty))
  let e ← readExponent? 'p' rest
  let n ← Text.natOfHex? (whole ++ fraction)
  let bound : Int := 4 * cs.length + 3000
  let e := max (-bound) (min e bound) - 4 * fraction.length
  pure (Decimal.nearest negative (n * Nat.pow 2 e.toNat) (Nat.pow 2 (-e).toNat))

def readDecimalFloat? (negative : Bool) (cs : List Char) : Option Float := do
  let (whole, fraction, rest) := readPoint Decimal.spanDigits cs
  guard (!(whole.isEmpty && fraction.isEmpty))
  let e ← readExponent? 'e' rest
  pure (Decimal.ofScientific negative (Decimal.natOfDigits (whole ++ fraction))
    (e - fraction.length))

def negate (negative : Bool) (i : Int64) : Int64 := if negative then 0 - i else i

/-- An integer numeral. One in decimal must fit, one in hexadecimal wraps around. -/
def readInt? (negative : Bool) (cs : List Char) : Option Int64 :=
  match dropHexMark? cs with
  | some ds =>
    if ds.isEmpty || !ds.all (fun c => (Text.hexValue? c).isSome) then none
    else some (negate negative (wrapHex ds))
  | none =>
    if cs.isEmpty || !cs.all Char.isDigit then none
    else
      let n : Int := Decimal.natOfDigits cs
      let i := if negative then -n else n
      if Decimal.fitsInt64 i then some (Int64.ofInt i) else none

def readFloat? (negative : Bool) (cs : List Char) : Option Float :=
  match dropHexMark? cs with
  | some ds => readHexFloat? negative ds
  | none => readDecimalFloat? negative cs

/-- The number that a text is: blanks, a sign, a numeral, blanks. -/
def read? (cs : List Char) : Option Number :=
  let body := (cs.dropWhile isBlank).reverse.dropWhile isBlank |>.reverse
  let (negative, body) := Decimal.readSign body
  match readInt? negative body with
  | some i => some (.int i)
  | none => (readFloat? negative body).map .float

end Number

end ScriptTools.Guest
