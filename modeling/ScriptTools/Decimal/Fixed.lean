import ScriptTools.Decimal.Notation

/-!
Decimals with a chosen number of places, rounded from the exact value with a half going to the even
neighbour. All texts are of magnitudes; a sign is the caller's.
-/

namespace ScriptTools.Decimal

def padLeftZeros (width : Nat) (ds : List Char) : List Char :=
  List.replicate (width - ds.length) '0' ++ ds

/-- `places` digits after the point; the point is written when there are any, or when `keepPoint`. -/
def fixedText (places : Nat) (keepPoint : Bool) (b : Binary) : List Char :=
  let n := roundHalfEven (b.num * Nat.pow 10 places) b.den
  let ds := padLeftZeros (places + 1) (digitChars n)
  let whole := ds.take (ds.length - places)
  let rest := ds.drop (ds.length - places)
  if rest.isEmpty && !keepPoint then whole else whole ++ '.' :: rest

/-- The digits and the decimal exponent of a magnitude rounded to `places + 1` digits. -/
def roundedDigits (places : Nat) (b : Binary) : List Char × Int :=
  if b.significand = 0 then (List.replicate (places + 1) '0', 0)
  else
    let e := magnitude b.num b.den
    let shift := (places : Int) - e
    let n := roundHalfEven (b.num * Nat.pow 10 shift.toNat) (b.den * Nat.pow 10 (-shift).toNat)
    let ds := digitChars n
    if ds.length = places + 2 then (ds.take (places + 1), e + 1) else (ds, e)

/-- An exponent with a sign and at least two digits. -/
def exponentText (e : Int) : List Char :=
  (if e < 0 then '-' else '+') :: padLeftZeros 2 (digitChars e.natAbs)

def joinExponent (ds : List Char) (keepPoint : Bool) (e : Int) : List Char :=
  let mantissa :=
    match ds with
    | [] => []
    | [d] => if keepPoint then [d, '.'] else [d]
    | d :: more => d :: '.' :: more
  mantissa ++ 'e' :: exponentText e

/-- One digit before the point, `places` after it, and an exponent. -/
def scientificText (places : Nat) (keepPoint : Bool) (b : Binary) : List Char :=
  let (ds, e) := roundedDigits places b
  joinExponent ds keepPoint e

/-- `precision` significant digits, positional unless the exponent is below -4 or not below the
precision. Zeros at the end of the fraction are dropped unless `keepPoint`. -/
def generalText (precision : Nat) (keepPoint : Bool) (b : Binary) : List Char :=
  let p := max precision 1
  let (ds, e) := roundedDigits (p - 1) b
  let kept := if keepPoint then ds else ds.take 1 ++ dropTrailingZeros (ds.drop 1)
  if e < -4 ∨ (p : Int) ≤ e then joinExponent kept keepPoint e
  else if e < 0 then '0' :: '.' :: (List.replicate ((-e).toNat - 1) '0' ++ kept)
  else
    let whole := ds.take (e.toNat + 1)
    let rest := ds.drop (e.toNat + 1)
    let rest := if keepPoint then rest else dropTrailingZeros rest
    if rest.isEmpty && !keepPoint then whole else whole ++ '.' :: rest

/-- The text of a double with `precision` significant digits; `nan` and `inf` when not finite. -/
def general (precision : Nat) (x : Float) : String :=
  let sign := if isNegative x then ['-'] else []
  if x.isNaN then String.ofList (sign ++ ['n', 'a', 'n'])
  else if x.isInf then String.ofList (sign ++ ['i', 'n', 'f'])
  else String.ofList (sign ++ generalText precision false (Binary.ofFloat x))

end ScriptTools.Decimal
