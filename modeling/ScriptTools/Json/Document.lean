import ScriptTools.Decimal.Read
import ScriptTools.Json.Basic
import ScriptTools.Json.Token

/-!
JSON text as a tree: numbers as written, and the fields of an object in the order of the text with all
repetitions. A document becomes a value when its numbers are in range, its strings are texts and it is
not nested too deeply.
-/

namespace ScriptTools.Json

inductive Document where
  | null
  | boolean (b : Bool)
  | number (n : NumberToken)
  | string (s : Option String)
  | array (items : List Document)
  | object (fields : List (Option String × Document))
deriving Inhabited

namespace Document

/-- An open bracket with what stands between it and the place that is read, latest first. -/
inductive Open where
  | array (done : List Document)
  | object (done : List (Option String × Document)) (name : Option String)

/-- What may come next. -/
inductive Expects where
  | value
  | valueOrEnd
  | nameOrEnd
  | name
  | colon (name : Option String)
  | afterValue (d : Document)

/-- Reads a document token by token; `stack` holds the brackets that are open, innermost first, and
`fields` those of an object that waits for its next name. -/
def build (expects : Expects) (fields : List (Option String × Document)) (stack : List Open) :
    List Token → Option Document
  | [] =>
    match expects, stack with
    | .afterValue d, [] => some d
    | _, _ => none
  | t :: rest =>
    match expects with
    | .afterValue d =>
      match stack, t with
      | .array done :: stack, .comma => build .value [] (.array (d :: done) :: stack) rest
      | .array done :: stack, .endArray =>
        build (.afterValue (.array (d :: done).reverse)) [] stack rest
      | .object done name :: stack, .comma => build .name ((name, d) :: done) stack rest
      | .object done name :: stack, .endObject =>
        build (.afterValue (.object ((name, d) :: done).reverse)) [] stack rest
      | _, _ => none
    | .nameOrEnd =>
      match t with
      | .string s => build (.colon s) fields stack rest
      | .endObject => build (.afterValue (.object [])) [] stack rest
      | _ => none
    | .name =>
      match t with
      | .string s => build (.colon s) fields stack rest
      | _ => none
    | .colon name =>
      match t with
      | .colon => build .value [] (.object fields name :: stack) rest
      | _ => none
    | .value =>
      match t with
      | .null => build (.afterValue .null) [] stack rest
      | .boolean b => build (.afterValue (.boolean b)) [] stack rest
      | .number n => build (.afterValue (.number n)) [] stack rest
      | .string s => build (.afterValue (.string s)) [] stack rest
      | .beginArray => build .valueOrEnd [] stack rest
      | .beginObject => build .nameOrEnd [] stack rest
      | _ => none
    | .valueOrEnd =>
      match t with
      | .null => build (.afterValue .null) [] (.array [] :: stack) rest
      | .boolean b => build (.afterValue (.boolean b)) [] (.array [] :: stack) rest
      | .number n => build (.afterValue (.number n)) [] (.array [] :: stack) rest
      | .string s => build (.afterValue (.string s)) [] (.array [] :: stack) rest
      | .beginArray => build .valueOrEnd [] (.array [] :: stack) rest
      | .beginObject => build .nameOrEnd [] (.array [] :: stack) rest
      | .endArray => build (.afterValue (.array [])) [] stack rest
      | _ => none

/-- The document that a text is, if it is one. -/
def read? (text : String) : Option Document := do
  build .value [] [] (← Token.readAll? text)

end Document

namespace NumberToken

def bound : Nat := Nat.pow 2 64

/-- Takes in digits while the significand stays below 2^64: the significand, how many digits were taken
and the digits left. -/
def takeDigits (significand : Nat) (taken : Nat) : List Char → Nat × Nat × List Char
  | [] => (significand, taken, [])
  | c :: rest =>
    let next := significand * 10 + Decimal.digitValue c
    if next < bound then takeDigits next (taken + 1) rest else (significand, taken, c :: rest)

/-- The double `significand * 10 ^ exponent`, by one multiplication or division with a power of ten that
is itself a rounded double. Steps of 308 lead to smaller exponents. -/
def scale (steps : Nat) (x : Float) (exponent : Int) : Option Float :=
  if exponent.natAbs ≤ 308 then
    if 0 ≤ exponent then
      let y := x * Decimal.ofScientific false 1 exponent
      if y.isInf then none else some y
    else some (x / Decimal.ofScientific false 1 (-exponent))
  else if x == 0 then some x
  else if 0 ≤ exponent then none
  else
    match steps with
    | 0 => some 0
    | n + 1 => scale n (x / Decimal.ofScientific false 1 308) (exponent + 308)

/-- The largest exponent that is read as a number. -/
def exponentBound : Nat := Nat.pow 2 31

/-- The double of a significand of at most 64 bits and an exponent as written. -/
def finish (negative : Bool) (significand : Nat) (shift : Int) (exponent : Option (Bool × List Char)) :
    Option Float :=
  let sign (x : Float) : Float := if negative then -x else x
  let start := (UInt64.ofNat significand).toFloat
  match exponent with
  | none => (scale 4 start shift).map sign
  | some (down, digits) =>
    let e := Decimal.natOfDigits digits
    if exponentBound ≤ e then
      if significand != 0 && !down then none else some (sign 0)
    else (scale 4 start (if down then shift - e else shift + e)).map sign

/-- The value of a number. Digits that do not fit 64 bits are dropped; those before the point still
count for the exponent. -/
def value? (n : NumberToken) : Option Json :=
  let (significand, _, left) := takeDigits 0 0 n.whole
  if left.isEmpty && n.fraction.isEmpty && n.exponent.isNone then
    if !n.negative then some (.int significand)
    else if significand = 0 then some (.float (-0.0))
    else if significand ≤ Nat.pow 2 63 then some (.int (-(significand : Int)))
    else some (.float (-(UInt64.ofNat significand).toFloat))
  else
    let (significand, taken, _) := takeDigits significand 0 n.fraction
    (finish n.negative significand (left.length - taken) n.exponent).map .float

end NumberToken

namespace Document

/-- How deeply arrays and objects may be nested. -/
def depthLimit : Nat := 127

mutual

/-- The value of a document; `depth` more levels of nesting are allowed. -/
def toJson? (depth : Nat) : Document → Option Json
  | .null => some .null
  | .boolean b => some (.bool b)
  | .number n => n.value?
  | .string s => s.map .str
  | .array items =>
    match depth with
    | 0 => none
    | depth + 1 => (itemsToJson? depth items).map .arr
  | .object fields =>
    match depth with
    | 0 => none
    | depth + 1 => (fieldsToJson? depth fields).map Json.ofFields

def itemsToJson? (depth : Nat) : List Document → Option (List Json)
  | [] => some []
  | d :: rest => do
    let v ← toJson? depth d
    let vs ← itemsToJson? depth rest
    pure (v :: vs)

def fieldsToJson? (depth : Nat) : List (Option String × Document) → Option (List (String × Json))
  | [] => some []
  | (name, d) :: rest => do
    let name ← name
    let v ← toJson? depth d
    let vs ← fieldsToJson? depth rest
    pure ((name, v) :: vs)

end

end Document

/-- The value that a text writes. -/
def parse? (text : String) : Option Json := do
  (← Document.read? text).toJson? Document.depthLimit

end ScriptTools.Json
