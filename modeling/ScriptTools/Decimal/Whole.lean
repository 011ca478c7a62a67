import ScriptTools.Decimal.Read

/-!
Integers and the doubles that are whole numbers.
-/

namespace ScriptTools.Decimal

/-- The integer of 64 bits that a double is, if it is one. -/
def whole? (x : Float) : Option Int64 :=
  let b := Binary.ofFloat x
  let n : Int := b.num / b.den
  let i := if isNegative x then -n else n
  if x.isFinite && b.num % b.den == 0 && fitsInt64 i then some (Int64.ofInt i) else none

/-- The double nearest to an integer. -/
def ofInt (i : Int) : Float := nearest (i < 0) i.natAbs 1

end ScriptTools.Decimal
