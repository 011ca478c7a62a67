import ScriptTools.Guest.Format
import ScriptTools.Guest.Library.Parameter

/-!
The library of strings, without patterns. Places count from `1`, or from the end when they are negative.
-/

namespace ScriptTools.Guest.Library

open Eval

variable {World : Type}

/-- The first place of a range. -/
def startPlace (i : Int64) (length : Nat) : Nat :=
  let n := i.toInt
  if 0 < n then n.toNat
  else if n = 0 then 1
  else if n < -(length : Int) then 1
  else ((length : Int) + n + 1).toNat

/-- The last place of a range. -/
def endPlace (i : Int64) (length : Nat) : Nat :=
  let n := i.toInt
  if (length : Int) < n then length
  else if 0 ≤ n then n.toNat
  else if n < -(length : Int) then 0
  else ((length : Int) + n + 1).toNat

def runLen (args : List Value) : Eval World (List Value) := do
  return [.ofNat (← stringArg .stringLen args 1).size]

def runSub (args : List Value) : Eval World (List Value) := do
  let s ← stringArg .stringSub args 1
  let first := startPlace (← intArg .stringSub args 2) s.size
  let last := endPlace (← optInt .stringSub args 3 (-1)) s.size
  return [← newString (s.extract (first - 1) last)]

def runReverse (args : List Value) : Eval World (List Value) := do
  let s ← stringArg .stringReverse args 1
  return [← newString ⟨s.data.reverse⟩]

def mapBytes (f : UInt8 → UInt8) (s : ByteArray) : ByteArray := ⟨s.data.map f⟩

def runLower (args : List Value) : Eval World (List Value) := do
  return [← newString (mapBytes Pattern.toLower (← stringArg .stringLower args 1))]

def runUpper (args : List Value) : Eval World (List Value) := do
  return [← newString (mapBytes Pattern.toUpper (← stringArg .stringUpper args 1))]

/-- A string `n` times after `out`, each time after a separator. -/
def repeatInto (s separator : ByteArray) (out : ByteArray) : Nat → ByteArray
  | 0 => out
  | n + 1 => repeatInto s separator (out ++ separator ++ s) n

/-- The most bytes that a string may be repeated or laid out to. -/
def sizeLimit : Nat := 2147483647

def runRep (args : List Value) : Eval World (List Value) := do
  let s ← stringArg .stringRep args 1
  let n := (← intArg .stringRep args 2).toInt
  let separator ← optString .stringRep args 3 ByteArray.empty
  if n ≤ 0 then return [.string ByteArray.empty]
  let count := n.toNat
  if sizeLimit / count < s.size + separator.size then fault "resulting string too large"
  let total := s.size * count + separator.size * (count - 1)
  allocate (total + 25)
  if total = 0 then return [.string ByteArray.empty]
  return [.string (repeatInto s separator s (count - 1))]

def runByte (args : List Value) : Eval World (List Value) := do
  let s ← stringArg .stringByte args 1
  let i ← optInt .stringByte args 2 1
  let first := startPlace i s.size
  let last := endPlace (← optInt .stringByte args 3 i) s.size
  if last < first then return []
  return ((s.extract (first - 1) last).toList.map fun b => .ofNat b.toNat)

def runChar (args : List Value) : Eval World (List Value) := do
  let bytes ← (List.range args.length).mapM fun i => do
    let n ← intArg .stringChar args (i + 1)
    check .stringChar (i + 1) (0 ≤ n && n < 256) "value out of range"
    return n.toUInt64.toUInt8
  return [← newString ⟨bytes.toArray⟩]

def runDump (args : List Value) : Eval World (List Value) := do
  let _ ← functionArg .stringDump args 1
  fault "unable to dump given function"

/-! Formatted text -/

/-- The letters of directives with the flags that go with each and whether a precision does. -/
def directiveRule? (letter : Char) : Option (String × Bool) :=
  match letter with
  | 'd' | 'i' => some ("-+0 ", true)
  | 'u' => some ("-0", true)
  | 'c' | 'p' => some ("-", false)
  | 'x' | 'X' | 'o' => some ("-#0", true)
  | 'a' | 'A' | 'f' | 'e' | 'E' | 'g' | 'G' => some ("-+#0 ", true)
  | 's' => some ("-", true)
  | _ => none

def textBytes (cs : List Char) : ByteArray := (String.ofList cs).toUTF8

def upperText (cs : List Char) : List Char := cs.map Char.toUpper

/-- An argument in the form in which a script may contain it. -/
def literalOf (v : Value) (i : Nat) : Eval World ByteArray :=
  match v with
  | .string s => return quoteBytes s
  | .number n => return (literalNumber n).toUTF8
  | .nil | .bool _ => textOf v
  | _ => badArgument .stringFormat i "value has no literal form"

/-- The text of one argument. -/
def formatValue (letter : Char) (d : Directive) (modified : Bool) (args : List Value) (i : Nat) :
    Eval World ByteArray := do
  let b := Builtin.stringFormat
  match letter with
  | 'd' | 'i' => return textBytes (d.decimal (← intArg b args i))
  | 'u' => return textBytes (d.unsigned 10 [] (← intArg b args i))
  | 'x' => return textBytes (d.unsigned 16 ['0', 'x'] (← intArg b args i))
  | 'X' => return textBytes (upperText (d.unsigned 16 ['0', 'x'] (← intArg b args i)))
  | 'o' => return textBytes (d.octal (← intArg b args i))
  | 'c' => return d.bytes ⟨#[(← intArg b args i).toUInt64.toUInt8]⟩
  | 'f' => return textBytes (d.fixed (← floatArg b args i))
  | 'e' => return textBytes (d.scientific (← floatArg b args i))
  | 'E' => return textBytes (upperText (d.scientific (← floatArg b args i)))
  | 'g' => return textBytes (d.general (← floatArg b args i))
  | 'G' => return textBytes (upperText (d.general (← floatArg b args i)))
  | 'a' => return textBytes (d.hexReal (← floatArg b args i))
  | 'A' => return textBytes (upperText (d.hexReal (← floatArg b args i)))
  | 'p' =>
    match arg args i with
    | .ref r => return d.bytes (textBytes ("0x5581".toList ++ Text.hexDigits 8 (refNumber r)))
    | _ => return d.bytes "(null)".toUTF8
  | _ =>
    let s ← textOf (arg args i)
    if !modified then return s
    check b i (!s.toList.contains 0) "string contains zeros"
    if d.precision.isNone && 100 ≤ s.size then return s else return d.bytes s

/-- Reads an argument whose directive is wrong. Only texts, integers and decimal numbers are read first,
and faults in them are found before that of the directive. -/
def readFirst (letter : Char) (args : List Value) (i : Nat) : Eval World Unit := do
  let b := Builtin.stringFormat
  match letter with
  | 'd' | 'i' | 'u' | 'o' | 'x' | 'X' => discard (intArg b args i)
  | 'f' | 'e' | 'E' | 'g' | 'G' => discard (floatArg b args i)
  | 's' => check b i (!(← textOf (arg args i)).toList.contains 0) "string contains zeros"
  | _ => pure ()

/-- Writes a text with directives. The count bounds the bytes that are left. -/
def formatFrom (args : List Value) : Nat → Nat → List UInt8 → ByteArray → Eval World ByteArray
  | 0, _, _, out => return out
  | _, _, [], out => return out
  | n + 1, i, c :: rest, out =>
    if c != 37 then formatFrom args n i rest (out.push c)
    else
      match rest with
      | 37 :: rest => formatFrom args n i rest (out.push 37)
      | _ => do
        let i := i + 1
        if args.length < i then badArgument .stringFormat i "no value"
        let chars := rest.map fun b => Char.ofNat b.toNat
        let part := chars.takeWhile Directive.isPart
        let rest := rest.drop part.length
        if 21 ≤ part.length then fault "invalid format string to 'format'"
        let letter := (chars.drop part.length).head?.getD '\x00'
        let shown := "%" ++ String.ofList (part ++ if letter == '\x00' then [] else [letter])
        if letter == 'q' then
          if !part.isEmpty then fault "specifier '%q' cannot have modifiers"
          let text ← literalOf (arg args i) i
          formatFrom args n i rest.tail (out ++ text)
        else
          match directiveRule? letter with
          | none => fault ("invalid conversion '" ++ shown ++ "' to 'format'")
          | some (flags, withPrecision) =>
            match Directive.read? flags withPrecision part with
            | none =>
              readFirst letter args i
              fault ("invalid conversion specification: '" ++ shown ++ "'")
            | some d =>
              let text ← formatValue letter d (!part.isEmpty) args i
              formatFrom args n i rest.tail (out ++ text)

def runFormat (args : List Value) : Eval World (List Value) := do
  let s ← stringArg .stringFormat args 1
  return [← newString (← formatFrom args (s.size + 1) 1 s.toList ByteArray.empty)]

/-! Arithmetic on strings -/

/-- An operation on strings that spell numbers, or the metamethod of the second operand. -/
def runStringArith (name : String) (op : Number → Number → Option Number) (zero : String)
    (args : List Value) : Eval World (List Value) := do
  let a := arg args 1
  let b := arg args 2
  match a.toNumber?, b.toNumber? with
  | some x, some y =>
    match op x y with
    | some n => return [.number n]
    | none => errorAt .native zero
  | _, _ =>
    let f ←
      match b with
      | .string _ => pure .nil
      | _ => metamethod b name
    match f with
    | .nil =>
      fault ("attempt to perform arithmetic on a " ++ a.typeName ++ " value")
    | f => call .native f [a, b]

def runArithOp (op : ArithOp) (args : List Value) : Eval World (List Value) :=
  runStringArith ("__" ++ op.event) op.apply op.zeroMessage args

def runStringUnm (args : List Value) : Eval World (List Value) :=
  runStringArith "__unm" (fun x _ => some (negateNumber x)) "" args

end ScriptTools.Guest.Library
