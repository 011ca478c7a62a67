import ScriptTools.Guest.Library.Strings
import ScriptTools.Guest.Packing

/-!
The functions of the library of strings that pack values into bytes and read them back.
-/

namespace ScriptTools.Guest.Library

open Eval

variable {World : Type}

/-- The bytes of a format, which ends before a zero. -/
def formatArg (b : Builtin) (args : List Value) : Eval World (List UInt8) := do
  return (← stringArg b args 1).toList.takeWhile (· != 0)

def packingStep (b : Builtin) (l : Packing.Layout) (total : Nat) (format : List UInt8) :
    Eval World (Option Packing.Step) :=
  match Packing.next? l total format with
  | .ok step => return step
  | .error (.plain message) => fault message
  | .error (.argument message) => badArgument b 1 message

def bytesOf (bytes : List UInt8) : ByteArray := ⟨bytes.toArray⟩

def realBytes (l : Packing.Layout) (size bits : Nat) : ByteArray :=
  bytesOf (Packing.intBytes l size bits)

/-- The bytes of an integer of the script, which has to fit. -/
def packInt (l : Packing.Layout) (signed : Bool) (size : Nat) (args : List Value) (i : Nat) :
    Eval World ByteArray := do
  let b := Builtin.stringPack
  let n ← intArg b args i
  if size < 8 then
    if signed then
      let limit : Int := Nat.pow 2 (8 * size - 1)
      check b i (-limit ≤ n.toInt && n.toInt < limit) "integer overflow"
    else check b i (n.toUInt64.toNat < Nat.pow 2 (8 * size)) "unsigned overflow"
  let wide : Int := if signed then n.toInt else n.toUInt64.toNat
  return bytesOf (Packing.intBytes l size wide)

/-- The bytes of an argument; none if the item takes no argument. -/
def packItem (l : Packing.Layout) (item : Packing.Item) (args : List Value) (i : Nat) :
    Eval World (Option ByteArray) := do
  let b := Builtin.stringPack
  match item with
  | .int signed size => return some (← packInt l signed size args i)
  | .single => return some (realBytes l 4 (← floatArg b args i).toFloat32.toBits.toNat)
  | .double => return some (realBytes l 8 (← floatArg b args i).toBits.toNat)
  | .chars size =>
    let s ← stringArg b args i
    check b i (s.size ≤ size) "string longer than given size"
    return some (s ++ bytesOf (List.replicate (size - s.size) 0))
  | .counted size =>
    let s ← stringArg b args i
    check b i (8 ≤ size || s.size < Nat.pow 2 (8 * size)) "string length does not fit in given size"
    return some (bytesOf (Packing.intBytes l size s.size) ++ s)
  | .zeroEnded =>
    let s ← stringArg b args i
    check b i (!s.toList.contains 0) "string contains zeros"
    return some (s.push 0)
  | .padding | .align | .none => return none

/-- Packs the arguments from `i` on. The count bounds the options of the format. -/
def packFrom (args : List Value) : Nat → Packing.Layout → Nat → List UInt8 → ByteArray →
    Eval World ByteArray
  | 0, _, _, _, out => return out
  | n + 1, l, i, format, out => do
    match ← packingStep .stringPack l out.size format with
    | none => return out
    | some step =>
      let out := out ++ bytesOf (List.replicate step.gap 0)
      match ← packItem step.layout step.item args i with
      | some bytes => packFrom args n step.layout (i + 1) step.rest (out ++ bytes)
      | none =>
        let out := if step.item = .padding then out.push 0 else out
        packFrom args n step.layout i step.rest out

def runStringPack (args : List Value) : Eval World (List Value) := do
  let format ← formatArg .stringPack args
  return [← newString (← packFrom args (format.length + 1) {} 2 format ByteArray.empty)]

def packedSize : Nat → Packing.Layout → Nat → List UInt8 → Eval World Nat
  | 0, _, total, _ => return total
  | n + 1, l, total, format => do
    match ← packingStep .stringPacksize l total format with
    | none => return total
    | some step =>
      let fixed :=
        match step.item with
        | .counted _ | .zeroEnded => false
        | _ => true
      check .stringPacksize 1 fixed "variable-length format"
      let total := total + step.gap + step.item.size
      check .stringPacksize 1 (total ≤ sizeLimit) "format result too large"
      packedSize n step.layout total step.rest

def runPacksize (args : List Value) : Eval World (List Value) := do
  let format ← formatArg .stringPacksize args
  return [.ofNat (← packedSize (format.length + 1) {} 0 format)]

/-- The part of a string from one place up to another. -/
def slice (data : ByteArray) (start stop : Nat) : List UInt8 := (data.extract start stop).toList

def unpackInt (l : Packing.Layout) (signed : Bool) (bytes : List UInt8) : Eval World Int := do
  let n := Packing.readInt l signed bytes
  if Packing.fits signed bytes.length n then return n
  else fault (toString bytes.length ++ "-byte integer does not fit into Lua Integer")

/-- The value of an item at a place, and the place after it. -/
def unpackItem (l : Packing.Layout) (item : Packing.Item) (data : ByteArray) (start : Nat) :
    Eval World (Option Value × Nat) := do
  let b := Builtin.stringUnpack
  let stop := start + item.size
  match item with
  | .int signed _ =>
    return (some (.int (Int64.ofInt (← unpackInt l signed (slice data start stop)))), stop)
  | .single =>
    let bits := (Packing.readInt l false (slice data start stop)).toNat.toUInt32
    return (some (.float (Float32.ofBits bits).toFloat), stop)
  | .double =>
    let bits := (Packing.readInt l false (slice data start stop)).toNat.toUInt64
    return (some (.float (Float.ofBits bits)), stop)
  | .chars _ => return (some (← newString (data.extract start stop)), stop)
  | .counted _ =>
    let length := (← unpackInt l false (slice data start stop)).toNat
    check b 2 (length ≤ data.size - stop) "data string too short"
    return (some (← newString (data.extract stop (stop + length))), stop + length)
  | .zeroEnded =>
    let text := (slice data start data.size).takeWhile (· != 0)
    check b 2 (start + text.length < data.size) "unfinished string for format 'z'"
    return (some (← newString (bytesOf text)), start + text.length + 1)
  | .padding | .align | .none => return (none, stop)

/-- Reads values from a place on, and the place after the last. The count bounds the options of the
format. -/
def unpackFrom (data : ByteArray) : Nat → Packing.Layout → Nat → List UInt8 → List Value →
    Eval World (List Value)
  | 0, _, place, _, done => return (Value.ofNat (place + 1) :: done).reverse
  | n + 1, l, place, format, done => do
    match ← packingStep .stringUnpack l place format with
    | none => return (Value.ofNat (place + 1) :: done).reverse
    | some step =>
      check .stringUnpack 2 (step.gap + step.item.size ≤ data.size - place) "data string too short"
      let (v, place) ← unpackItem step.layout step.item data (place + step.gap)
      unpackFrom data n step.layout place step.rest (v.toList ++ done)

def runStringUnpack (args : List Value) : Eval World (List Value) := do
  let format ← formatArg .stringUnpack args
  let data ← stringArg .stringUnpack args 2
  let place := startPlace (← optInt .stringUnpack args 3 1) data.size - 1
  check .stringUnpack 3 (place ≤ data.size) "initial position out of string"
  unpackFrom data (format.length + 1) {} place format []

end ScriptTools.Guest.Library
