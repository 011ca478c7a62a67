/-!
Doubles as exact numbers. A finite double is a whole number times a power of two, and every
quotient of naturals has a nearest double, ties going to the even significand.
-/

namespace ScriptTools.Decimal

/-- The magnitude `significand * 2 ^ exponent`. -/
structure Binary where
  significand : Nat
  exponent : Int
deriving Repr, DecidableEq

namespace Binary

/-- The magnitude of a finite double, read from its bits without the sign. -/
def ofBits (bits : UInt64) : Binary :=
  let biased := (bits >>> 52).toNat % 2048
  let fraction := bits.toNat % Nat.pow 2 52
  if biased = 0 then ⟨fraction, -1074⟩ else ⟨fraction + Nat.pow 2 52, biased - 1075⟩

def ofFloat (x : Float) : Binary := ofBits x.toBits

/-- The magnitude as a quotient of naturals. -/
def num (b : Binary) : Nat := b.significand * Nat.pow 2 b.exponent.toNat

def den (b : Binary) : Nat := Nat.pow 2 (-b.exponent).toNat

theorem den_pos (b : Binary) : 0 < b.den := Nat.two_pow_pos _

end Binary

/-- Whether the sign bit is set; it is also set for the negative zero. -/
def isNegative (x : Float) : Bool := x.toBits >>> 63 == 1

/-- The whole number nearest to `num / den`, a half going to the even neighbour. -/
def roundHalfEven (num den : Nat) : Nat :=
  let low := num / den
  let twice := 2 * (num % den)
  if twice < den then low
  else if den < twice then low + 1
  else if low % 2 = 0 then low else low + 1

/-- The bits of the double nearest to `num / den`. The significand and the biased exponent are added,
so that a significand rounded up to the next power of two carries into the exponent, and past the
largest exponent into infinity. -/
def nearestBits (num den : Nat) : UInt64 :=
  if num = 0 then 0
  else
    let guess : Int := (num.log2 : Int) - den.log2 - 53
    let scaled (e : Int) : Nat × Nat := (num * Nat.pow 2 (-e).toNat, den * Nat.pow 2 e.toNat)
    let wide := scaled guess
    let fitted := if wide.1 / wide.2 < Nat.pow 2 53 then guess else guess + 1
    let e := max fitted (-1074)
    let exact := scaled e
    let bits := (e + 1074).toNat * Nat.pow 2 52 + roundHalfEven exact.1 exact.2
    if bits < 0x7FF0000000000000 then UInt64.ofNat bits else 0x7FF0000000000000

/-- The double nearest to `num / den` with the given sign. -/
def nearest (negative : Bool) (num den : Nat) : Float :=
  let bits := nearestBits num den
  Float.ofBits (if negative then bits ||| 0x8000000000000000 else bits)

/-- The double nearest to `digits * 10 ^ exponent`. Exponents far outside the range of doubles are
settled by the number of digits alone. -/
def ofScientific (negative : Bool) (digits : Nat) (exponent : Int) : Float :=
  let size : Int := digits.log2 / 3 + 1
  if digits = 0 || exponent + size < -400 then nearest negative 0 1
  else if 400 < exponent then nearest negative (Nat.pow 2 1024) 1
  else nearest negative (digits * Nat.pow 10 exponent.toNat) (Nat.pow 10 (-exponent).toNat)

end ScriptTools.Decimal
