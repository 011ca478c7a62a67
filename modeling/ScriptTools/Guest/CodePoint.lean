/-!
UTF-8 in its extended form: numbers below `2 ^ 31` in one to six bytes.
-/

namespace ScriptTools.Guest.CodePoint

def limit : Nat := Nat.pow 2 31

/-- A continuation byte with the low six bits of a number. -/
def tailByte (n : Nat) : UInt8 := (0x80 + n % 64).toUInt8

/-- The last `count` continuation bytes of a number, and `rest` after them. -/
def tailBytes (n : Nat) : Nat → List UInt8 → List UInt8
  | 0, rest => rest
  | count + 1, rest => tailBytes (n / 64) count (tailByte n :: rest)

/-- The leading byte before `count` continuation bytes. -/
def leadByte (n count : Nat) : UInt8 :=
  (256 - Nat.pow 2 (7 - count) + n / Nat.pow 64 count).toUInt8

/-- How many continuation bytes a number needs. -/
def tailCount (n : Nat) : Nat :=
  if n < 0x80 then 0
  else if n < 0x800 then 1
  else if n < 0x10000 then 2
  else if n < 0x200000 then 3
  else if n < 0x4000000 then 4
  else 5

def encode (n : Nat) : List UInt8 :=
  match tailCount n with
  | 0 => [n.toUInt8]
  | count => leadByte n count :: tailBytes n count []

def isContinuation (b : UInt8) : Bool := b &&& 0xC0 == 0x80

/-- How many continuation bytes a leading byte announces. -/
def announced? (lead : UInt8) : Option Nat :=
  if lead < 0x80 then some 0
  else if lead < 0xC0 then none
  else if lead < 0xE0 then some 1
  else if lead < 0xF0 then some 2
  else if lead < 0xF8 then some 3
  else if lead < 0xFC then some 4
  else if lead < 0xFE then some 5
  else none

/-- Takes in `count` continuation bytes. -/
def decodeTail? (n : Nat) : Nat → List UInt8 → Option (Nat × List UInt8)
  | 0, rest => some (n, rest)
  | _ + 1, [] => none
  | count + 1, b :: rest =>
    if isContinuation b then decodeTail? (n * 64 + b.toNat % 64) count rest else none

/-- The number at the front of a sequence of bytes, in its shortest form. When `strict`, surrogates and
numbers above U+10FFFF are refused. -/
def decode? (strict : Bool) : List UInt8 → Option (Nat × List UInt8)
  | [] => none
  | lead :: rest => do
    let count ← announced? lead
    let start := if count = 0 then lead.toNat else lead.toNat % Nat.pow 2 (6 - count)
    let (n, rest) ← decodeTail? start count rest
    guard (tailCount n = count)
    guard (!strict || (n ≤ 0x10FFFF && !(0xD800 ≤ n && n ≤ 0xDFFF)))
    pure (n, rest)

end ScriptTools.Guest.CodePoint
