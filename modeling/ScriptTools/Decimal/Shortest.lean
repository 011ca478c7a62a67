import ScriptTools.Decimal.Binary

/-!
The shortest decimal that reads back as a given double. A decimal reads back when it lies between
the midpoints to the neighbouring doubles. For one digit, two digits, and so on up to seventeen, the
two neighbours of the value on the grid of that many digits are tested; the first grid with a hit
wins, and of two hits the nearer.
-/

namespace ScriptTools.Decimal

/-- Which of two decimals at the same distance is taken. -/
inductive Tie
  | even
  | up
deriving Repr, DecidableEq

/-- The decimal `digits * 10 ^ exponent`. -/
structure Scientific where
  digits : Nat
  exponent : Int
deriving Repr, DecidableEq

/-- The largest `k` with `10 ^ k ≤ num / den`, for a positive quotient. -/
def magnitude (num den : Nat) : Int :=
  let binary : Int := (num.log2 : Int) - den.log2
  let guess := binary * 30103 / 100000 - 1
  let reaches (k : Int) : Bool := den * Nat.pow 10 k.toNat ≤ num * Nat.pow 10 (-k).toNat
  if reaches (guess + 3) then guess + 3
  else if reaches (guess + 2) then guess + 2
  else if reaches (guess + 1) then guess + 1
  else guess

/-- The reals that round to a double, as multiples of `1 / den`. -/
structure Interval where
  low : Nat
  value : Nat
  high : Nat
  den : Nat
  closed : Bool

/-- The midpoints to the neighbours of a positive double. Below a power of two the doubles are twice as
dense, except at the smallest exponent. -/
def Interval.ofBinary (b : Binary) : Interval :=
  let m := b.significand
  let scale := Nat.pow 2 b.exponent.toNat
  let below := if m = Nat.pow 2 52 && b.exponent != -1074 then 4 * m - 1 else 4 * m - 2
  ⟨below * scale, 4 * m * scale, (4 * m + 2) * scale, 4 * b.den, m % 2 = 0⟩

namespace Interval

/-- Whether `d * 10 ^ k` lies in the interval. -/
def contains (i : Interval) (d : Nat) (k : Int) : Bool :=
  let point := d * Nat.pow 10 k.toNat * i.den
  let unit := Nat.pow 10 (-k).toNat
  if i.closed then i.low * unit ≤ point && point ≤ i.high * unit
  else i.low * unit < point && point < i.high * unit

/-- The best decimal on the grid of step `10 ^ k`, if one of the value's neighbours is a hit. -/
def onGrid (i : Interval) (tie : Tie) (k : Int) : Option Scientific :=
  let num := i.value * Nat.pow 10 (-k).toNat
  let den := i.den * Nat.pow 10 k.toNat
  let d := num / den
  match i.contains d k, i.contains (d + 1) k with
  | false, false => none
  | true, false => some ⟨d, k⟩
  | false, true => some ⟨d + 1, k⟩
  | true, true =>
    let twice := 2 * (num % den)
    let upper := den < twice || (twice = den && (tie = .up || d % 2 = 1))
    some (if upper then ⟨d + 1, k⟩ else ⟨d, k⟩)

end Interval

/-- The shortest decimal that reads back as the positive magnitude `b`. -/
def shortest (tie : Tie) (b : Binary) : Scientific :=
  let i := Interval.ofBinary b
  let top := magnitude i.value i.den
  match (List.range 17).findSome? fun (n : Nat) => i.onGrid tie (top - n) with
  | some s => s
  | none => ⟨b.num / b.den, 0⟩

end ScriptTools.Decimal
