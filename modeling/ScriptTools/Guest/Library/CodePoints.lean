import ScriptTools.Guest.CodePoint
import ScriptTools.Guest.Library.Strings

/-!
The library of text in UTF-8. Places are those of bytes.
-/

namespace ScriptTools.Guest.Library

open Eval

variable {World : Type}

/-- The pattern of one sequence of bytes that may be a character. -/
def charPattern : ByteArray :=
  "[".toUTF8.push 0 ++ "-".toUTF8.push 0x7F ++ ⟨#[0xC2, 45, 0xFD]⟩ ++ "][".toUTF8
    ++ ⟨#[0x80, 45, 0xBF]⟩ ++ "]*".toUTF8

/-- A place that may be counted from the end; zero if it is before the start. -/
def relativePlace (i : Int64) (length : Nat) : Int :=
  let n := i.toInt
  if 0 ≤ n then n else if n < -(length : Int) then 0 else (length : Int) + n + 1

def isTailAt (s : ByteArray) (i : Nat) : Bool := ((s[i]?).map CodePoint.isContinuation).getD false

/-- The number that the bytes at a place stand for, and the place after them. -/
def codeAt? (strict : Bool) (s : ByteArray) (i : Nat) : Option (Nat × Nat) :=
  let bytes := (s.extract i (i + 6)).toList
  (CodePoint.decode? strict bytes).map fun (n, rest) => (n, i + bytes.length - rest.length)

def runUtf8Char (args : List Value) : Eval World (List Value) := do
  let codes ← (List.range args.length).mapM fun i => do
    let code := (← intArg .utf8Char args (i + 1)).toUInt64.toNat
    check .utf8Char (i + 1) (code < CodePoint.limit) "value out of range"
    return CodePoint.encode code
  return [← newString ⟨codes.flatten.toArray⟩]

def codesFrom (strict : Bool) (s : ByteArray) (i stop : Nat) (done : List Value) :
    Nat → Eval World (List Value)
  | 0 => return done.reverse
  | n + 1 => do
    if stop ≤ i then return done.reverse
    match codeAt? strict s i with
    | some (code, next) => codesFrom strict s next stop (.ofNat code :: done) n
    | none => fault "invalid UTF-8 code"

def runCodepoint (args : List Value) : Eval World (List Value) := do
  let s ← stringArg .utf8Codepoint args 1
  let first := relativePlace (← optInt .utf8Codepoint args 2 1) s.size
  let last := relativePlace (← optInt .utf8Codepoint args 3 (Int64.ofInt first)) s.size
  let strict := !(arg args 4).truth
  check .utf8Codepoint 2 (1 ≤ first) "out of bounds"
  check .utf8Codepoint 3 (last ≤ s.size) "out of bounds"
  if last < first then return []
  codesFrom strict s (first - 1).toNat last.toNat [] (s.size + 1)

/-- Counts characters up to a place; or tells the place of bytes that are none. -/
def countFrom (strict : Bool) (s : ByteArray) (i : Nat) (last : Int) (count : Nat) : Nat → List Value
  | 0 => [.ofNat count]
  | n + 1 =>
    if last < i then [.ofNat count]
    else
      match codeAt? strict s i with
      | some (_, next) => countFrom strict s next last (count + 1) n
      | none => [.nil, .ofNat (i + 1)]

def runUtf8Len (args : List Value) : Eval World (List Value) := do
  let s ← stringArg .utf8Len args 1
  let first := relativePlace (← optInt .utf8Len args 2 1) s.size
  let last := relativePlace (← optInt .utf8Len args 3 (-1)) s.size
  let strict := !(arg args 4).truth
  check .utf8Len 2 (1 ≤ first && first - 1 ≤ s.size) "initial position out of bounds"
  check .utf8Len 3 (last - 1 < s.size) "final position out of bounds"
  return countFrom strict s (first - 1).toNat (last - 1) 0 (s.size + 1)

/-- The first place of the sequence of bytes that a place is in. -/
def sequenceStart (s : ByteArray) : Nat → Nat
  | 0 => 0
  | i + 1 => if isTailAt s (i + 1) then sequenceStart s i else i + 1

/-- The first place from `i` on where no sequence goes on. The count bounds the steps. -/
def skipTail (s : ByteArray) (i : Nat) : Nat → Nat
  | 0 => i
  | n + 1 => if isTailAt s i then skipTail s (i + 1) n else i

/-- The place a number of characters back. -/
def stepBack (s : ByteArray) : Nat → Nat → Option Nat
  | i, 0 => some i
  | 0, _ + 1 => none
  | i + 1, n + 1 => stepBack s (sequenceStart s i) n

/-- The place a number of characters on. -/
def stepOn (s : ByteArray) (i : Nat) : Nat → Option Nat
  | 0 => some i
  | n + 1 => if i < s.size then stepOn s (skipTail s (i + 1) s.size) n else none

def runOffset (args : List Value) : Eval World (List Value) := do
  let s ← stringArg .utf8Offset args 1
  let n := (← intArg .utf8Offset args 2).toInt
  let default := if 0 < n then 1 else s.size + 1
  let place := relativePlace (← optInt .utf8Offset args 3 (Int64.ofNat default)) s.size
  check .utf8Offset 3 (1 ≤ place && place - 1 ≤ s.size) "position out of bounds"
  let i := (place - 1).toNat
  if n = 0 then return [.ofNat (sequenceStart s i + 1)]
  if isTailAt s i then fault "initial position is a continuation byte"
  let steps := n.natAbs
  let target :=
    if s.size + 1 < steps then none
    else if n < 0 then stepBack s i steps
    else stepOn s i (steps - 1)
  match target with
  | some i => return [.ofNat (i + 1)]
  | none => return [.nil]

def runCodes (args : List Value) : Eval World (List Value) := do
  let s ← stringArg .utf8Codes args 1
  check .utf8Codes 1 (!isTailAt s 0) "invalid UTF-8 code"
  let step := if (arg args 2).truth then Builtin.utf8LaxStep else Builtin.utf8Step
  return [.builtin step, arg args 1, .int 0]

/-- One step of a loop over characters. -/
def runCodesStep (b : Builtin) (strict : Bool) (args : List Value) : Eval World (List Value) := do
  let s ← stringArg b args 1
  let n := ((arg args 2).toInt?.getD 0).toUInt64.toNat
  let i := if n < s.size then skipTail s n s.size else n
  if s.size ≤ i then return []
  match codeAt? strict s i with
  | some (code, next) =>
    if isTailAt s next then fault "invalid UTF-8 code"
    return [.ofNat (i + 1), .ofNat code]
  | none => fault "invalid UTF-8 code"

end ScriptTools.Guest.Library
