import ScriptTools.Guest.Library.Parameter

/-!
The library of mathematical functions.
-/

namespace ScriptTools.Guest.Library

open Eval

variable {World : Type}

def pi : Float := 3.141592653589793

/-- A double as an integer if it is one of 64 bits. -/
def wholeValue (x : Float) : Value :=
  match Decimal.whole? x with
  | some i => .int i
  | none => .float x

/-- A function of one double. -/
def runReal (b : Builtin) (f : Float → Float) (args : List Value) : Eval World (List Value) := do
  return [.float (f (← floatArg b args 1))]

def runAbs (args : List Value) : Eval World (List Value) := do
  match ← numberArg .mathAbs args 1 with
  | .int i => return [.int (if i < 0 then 0 - i else i)]
  | .float x => return [.float x.abs]

def runFloor (args : List Value) : Eval World (List Value) := do
  match ← numberArg .mathFloor args 1 with
  | .int i => return [.int i]
  | .float x => return [wholeValue x.floor]

def runCeil (args : List Value) : Eval World (List Value) := do
  match ← numberArg .mathCeil args 1 with
  | .int i => return [.int i]
  | .float x => return [wholeValue x.ceil]

def runFmod (args : List Value) : Eval World (List Value) := do
  let a ← numberArg .mathFmod args 1
  let b ← numberArg .mathFmod args 2
  match a, b with
  | .int a, .int b =>
    check .mathFmod 2 (b != 0) "zero"
    return [.int (if b = -1 then 0 else a % b)]
  | a, b => return [.float (Number.truncatedMod a.toFloat b.toFloat)]

/-- The whole part and the fraction, with one sign. An integer is its own whole part. -/
def runModf (args : List Value) : Eval World (List Value) := do
  match arg args 1 with
  | .number (.int i) => return [.int i, .float 0.0]
  | _ =>
    let x ← floatArg .mathModf args 1
    let whole := if x < 0 then x.ceil else x.floor
    let fraction := if x == whole then 0.0 else x - whole
    return [.float whole, .float fraction]

def runTointeger (args : List Value) : Eval World (List Value) := do
  match ← anyArg .mathTointeger args 1 with
  | .number n =>
    match n.toInt? with
    | some i => return [.int i]
    | none => return [.nil]
  | .string s =>
    match (Value.readNumber? s).bind Number.toInt? with
    | some i => return [.int i]
    | none => return [.nil]
  | _ => return [.nil]

def runMathType (args : List Value) : Eval World (List Value) := do
  match ← anyArg .mathType args 1 with
  | .number (.int _) => return [.text "integer"]
  | .number (.float _) => return [.text "float"]
  | _ => return [.nil]

def runUlt (args : List Value) : Eval World (List Value) := do
  let a ← intArg .mathUlt args 1
  let b ← intArg .mathUlt args 2
  return [.bool (a.toUInt64 < b.toUInt64)]

def runLog (args : List Value) : Eval World (List Value) := do
  let x ← floatArg .mathLog args 1
  if isMissing args 2 then return [.float x.log]
  else
    let base ← floatArg .mathLog args 2
    if base == 2 then return [.float x.log2]
    else if base == 10 then return [.float x.log10]
    else return [.float (x.log / base.log)]

def runAtan (args : List Value) : Eval World (List Value) := do
  let y ← floatArg .mathAtan args 1
  let x ← if isMissing args 2 then pure 1.0 else floatArg .mathAtan args 2
  return [.float (Float.atan2 y x)]

def runPow (args : List Value) : Eval World (List Value) := do
  let x ← floatArg .mathPow args 1
  let y ← floatArg .mathPow args 2
  return [.float (Float.pow x y)]

/-- The argument that comes first in an order, which scripts may extend; of equal ones the earliest. -/
def runBest (b : Builtin) (before : Value → Value → Eval World Bool) (args : List Value) :
    Eval World (List Value) := do
  let first ← anyArg b args 1
  let best ← args.tail.foldlM (fun best v => do return if ← before v best then v else best) first
  return [best]

/-- The fraction from one half on and the exponent of two of a double. -/
def runFrexp (args : List Value) : Eval World (List Value) := do
  let x ← floatArg .mathFrexp args 1
  let (m, e) := x.frExp
  return [.float m, .int (Int64.ofInt e)]

def runLdexp (args : List Value) : Eval World (List Value) := do
  let x ← floatArg .mathLdexp args 1
  let e ← intArg .mathLdexp args 2
  return [.float (x.scaleB e.toInt)]

/-! Random numbers -/

def rotate (x : UInt64) (n : UInt64) : UInt64 := (x <<< n) ||| (x >>> (64 - n))

abbrev RandomState := UInt64 × UInt64 × UInt64 × UInt64

/-- The next random bits and the state after them. -/
def nextRandom (s : RandomState) : UInt64 × RandomState :=
  let (a, b, c, d) := s
  let bits := rotate (b * 5) 7 * 9
  let c := c ^^^ a
  let d := d ^^^ b
  (bits, (a ^^^ d, b ^^^ c, c ^^^ (b <<< 17), rotate d 45))

/-- The state for a seed, after some bits were thrown away. -/
def seeded (m n : UInt64) : RandomState :=
  (List.range 16).foldl (fun s _ => (nextRandom s).2) (m, 0xff, n, 0)

def random : Eval World UInt64 := fun s =>
  let start := if s.random == (0, 0, 0, 0) then seeded 0 0 else s.random
  let (bits, next) := nextRandom start
  .done bits { s with random := next }

/-- The least number of the form `2 ^ k - 1` that is not below another. -/
def lowMask (n : UInt64) : UInt64 :=
  let n := n ||| (n >>> 1)
  let n := n ||| (n >>> 2)
  let n := n ||| (n >>> 4)
  let n := n ||| (n >>> 8)
  let n := n ||| (n >>> 16)
  n ||| (n >>> 32)

/-- Random bits cut down to a number up to a bound; others are drawn until they fit. -/
def project (bound mask bits : UInt64) : Nat → Eval World UInt64
  | 0 => return 0
  | n + 1 => do
    let x := bits &&& mask
    if x ≤ bound then return x else project bound mask (← random) n

def runRandom (args : List Value) : Eval World (List Value) := do
  let bits ← random
  let range (low high : Int64) : Eval World (List Value) := do
    check .mathRandom args.length (low ≤ high) "interval is empty"
    let bound := high.toUInt64 - low.toUInt64
    let n ← project bound (lowMask bound) bits 1000
    return [.int (n + low.toUInt64).toInt64]
  match args.length with
  | 0 => return [.float ((bits >>> 11).toFloat / 9007199254740992.0)]
  | 1 =>
    let high ← intArg .mathRandom args 1
    if high = 0 then return [.int bits.toInt64] else range 1 high
  | 2 =>
    let low ← intArg .mathRandom args 1
    let high ← intArg .mathRandom args 2
    range low high
  | _ => fault "wrong number of arguments"

def runRandomseed (args : List Value) : Eval World (List Value) := do
  let (m, n) ←
    if args.isEmpty then pure ((0, 0) : UInt64 × UInt64)
    else
      let m ←
        match ← numberArg .mathRandomseed args 1 with
        | .int i => pure i.toUInt64
        | .float x =>
          pure (match Decimal.whole? x with
            | some i => i.toUInt64
            | none => x.toBits)
      let n ← optInt .mathRandomseed args 2 0
      pure (m, n.toUInt64)
  modify fun s => { s with random := seeded m n }
  return [.int m.toInt64, .int n.toInt64]

end ScriptTools.Guest.Library
