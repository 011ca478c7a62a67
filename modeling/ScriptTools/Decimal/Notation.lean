import ScriptTools.Decimal.Shortest

/-!
Written forms of doubles. A layout says which decimal exponents are written positionally and how the
parts are marked; the digits are always the shortest that read back.
-/

namespace ScriptTools.Decimal

structure Layout where
  /-- The decimal exponents of the first digit that are written positionally; `none` is all. -/
  positional : Option (Int × Int)
  /-- Whether whole numbers written positionally end in `.0`. -/
  pointZero : Bool
  /-- Whether an exponent of zero or more has a plus sign. -/
  plusSign : Bool
  tie : Tie
deriving Repr

namespace Layout

/-- Positional from `1e-4` to below `1e16`, with at least one decimal. -/
def result : Layout := ⟨some (-4, 15), true, false, .up⟩

/-- Always positional, and no decimals for whole numbers. -/
def plain : Layout := ⟨none, false, false, .up⟩

/-- Positional from `1e-5` to below `1e16`, with at least one decimal, and `e+16` beyond. -/
def json : Layout := ⟨some (-5, 15), true, true, .even⟩

end Layout

/-- The decimal digits of a number, most significant first. -/
def digitChars (n : Nat) : List Char := Nat.toDigits 10 n

def dropTrailingZeros (ds : List Char) : List Char :=
  (ds.reverse.dropWhile (· == '0')).reverse

/-- Digits with the point after the first `1 + e` of them, zeros filling the gaps. -/
def placePoint (ds : List Char) (e : Int) (pointZero : Bool) : List Char :=
  if e < 0 then
    '0' :: '.' :: (List.replicate ((-e).toNat - 1) '0' ++ ds)
  else
    let whole := ds.take (e.toNat + 1)
    let rest := ds.drop (e.toNat + 1)
    let filled := whole ++ List.replicate (e.toNat + 1 - whole.length) '0'
    if rest.isEmpty then (if pointZero then filled ++ ['.', '0'] else filled)
    else filled ++ '.' :: rest

/-- One digit, the point and the others, and the exponent. -/
def placeExponent (ds : List Char) (e : Int) (plusSign : Bool) : List Char :=
  let mantissa :=
    match ds with
    | d :: more@(_ :: _) => d :: '.' :: more
    | _ => ds
  let sign := if e < 0 then ['-'] else if plusSign then ['+'] else []
  mantissa ++ 'e' :: (sign ++ digitChars e.natAbs)

/-- The text of a positive magnitude. -/
def Layout.magnitudeText (l : Layout) (b : Binary) : List Char :=
  let s := shortest l.tie b
  let all := digitChars s.digits
  let ds := dropTrailingZeros all
  let e : Int := all.length - 1 + s.exponent
  match l.positional with
  | none => placePoint ds e l.pointZero
  | some (least, most) =>
    if least ≤ e ∧ e ≤ most then placePoint ds e l.pointZero
    else placeExponent ds e l.plusSign

/-- The text of a double: `NaN`, `inf` and `-inf` when it is not finite. -/
def Layout.text (l : Layout) (x : Float) : String :=
  if x.isNaN then "NaN"
  else
    let sign := if isNegative x then ['-'] else []
    let b := Binary.ofFloat x
    if x.isInf then String.ofList (sign ++ ['i', 'n', 'f'])
    else if b.significand = 0 then
      String.ofList (sign ++ (if l.pointZero then ['0', '.', '0'] else ['0']))
    else String.ofList (sign ++ l.magnitudeText b)

end ScriptTools.Decimal
