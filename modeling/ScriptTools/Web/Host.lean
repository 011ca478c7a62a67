import ScriptTools.Text.Basic
import ScriptTools.Text.Utf8
import ScriptTools.Web.Punycode

/-!
Hosts of web addresses: domain names, and addresses of the fourth and the sixth version, in their one
written form.
-/

namespace ScriptTools.Web

inductive UrlError where
  | relative
  | emptyHost
  | badDomain
  | badPort
  | badIpv4
  | badIpv6
deriving DecidableEq, Repr

def UrlError.message : UrlError → String
  | .relative => "relative URL without a base"
  | .emptyHost => "empty host"
  | .badDomain => "invalid international domain name"
  | .badPort => "invalid port number"
  | .badIpv4 => "invalid IPv4 address"
  | .badIpv6 => "invalid IPv6 address"

namespace Host

/-- The bytes of a text in which `%` and two hexadecimal digits stand for a byte. -/
def percentDecode : List UInt8 → List UInt8
  | [] => []
  | 37 :: a :: b :: rest =>
    match Text.hexValue? (Char.ofNat a.toNat), Text.hexValue? (Char.ofNat b.toNat) with
    | some x, some y => UInt8.ofNat (x * 16 + y) :: percentDecode rest
    | _, _ => 37 :: percentDecode (a :: b :: rest)
  | c :: rest => c :: percentDecode rest

/-- ASCII characters that no domain name has. -/
def isForbidden (c : Char) : Bool :=
  c.toNat ≤ 0x20 || c.toNat == 0x7F || "%#/:<>?@[\\]^|".toList.contains c

/-- Characters that are dropped from names: the soft hyphen, joiners and marks of order. -/
def isDropped (c : Char) : Bool :=
  [0xAD, 0x200B, 0x2060, 0xFEFF].contains c.toNat

/-- The lower-case form of the letters of the common alphabets, ASCII for wide forms, and a dot for the
marks that end a label. -/
def foldChar (c : Char) : Char :=
  let n := c.toNat
  if 0x41 ≤ n && n ≤ 0x5A then Char.ofNat (n + 32)
  else if 0xC0 ≤ n && n ≤ 0xDE && n != 0xD7 then Char.ofNat (n + 32)
  else if 0x100 ≤ n && n ≤ 0x137 && n % 2 == 0 then Char.ofNat (n + 1)
  else if 0x391 ≤ n && n ≤ 0x3A9 then Char.ofNat (n + 32)
  else if 0x410 ≤ n && n ≤ 0x42F then Char.ofNat (n + 32)
  else if 0x400 ≤ n && n ≤ 0x40F then Char.ofNat (n + 80)
  else if 0xFF21 ≤ n && n ≤ 0xFF3A then Char.ofNat (n - 0xFF21 + 97)
  else if 0xFF01 ≤ n && n ≤ 0xFF5E then Char.ofNat (n - 0xFEE0)
  else if n == 0x3002 || n == 0xFF61 then '.'
  else c

def splitDots (cs : List Char) : List (List Char) :=
  cs.foldr (fun c parts =>
    if c = '.' then [] :: parts
    else
      match parts with
      | p :: rest => (c :: p) :: rest
      | [] => [[c]]) [[]]

def joinDots : List (List Char) → List Char
  | [] => []
  | [p] => p
  | p :: rest => p ++ '.' :: joinDots rest

/-- A domain name in lower-case ASCII. -/
def domain? (cs : List Char) : Except UrlError (List Char) :=
  let folded := (cs.filter fun c => !isDropped c).map foldChar
  if folded.any isForbidden || folded.contains Text.replacement then .error .badDomain
  else .ok (joinDots ((splitDots folded).map Punycode.encodeLabel))

/-- A part of an address of the fourth version: decimal, octal after `0`, hexadecimal after `0x`. -/
def ipv4Number? (cs : List Char) : Option Nat :=
  let digits (base : Nat) (ds : List Char) : Option Nat :=
    ds.foldlM (fun n c =>
      match Text.hexValue? c with
      | some d => if d < base then some (n * base + d) else none
      | none => none) 0
  match cs with
  | [] => none
  | '0' :: 'x' :: ds | '0' :: 'X' :: ds => digits 16 ds
  | '0' :: d :: ds => digits 8 (d :: ds)
  | _ => digits 10 cs

/-- The parts of a name, without an empty one at its end. -/
def ipv4Parts (cs : List Char) : List (List Char) :=
  let parts := splitDots cs
  if parts.getLast? == some [] && parts.length != 1 then parts.dropLast else parts

/-- Whether a name must be read as an address of the fourth version. -/
def endsInNumber (cs : List Char) : Bool :=
  match (ipv4Parts cs).getLast? with
  | some last =>
    (!last.isEmpty && last.all Char.isDigit) ||
      (match last with
       | '0' :: 'x' :: ds | '0' :: 'X' :: ds => ds.all fun c => (Text.hexValue? c).isSome
       | _ => false)
  | none => false

/-- The value of an address: all parts but the last are bytes, and the last fills what is left. -/
def ipv4Value? (cs : List Char) : Option Nat := do
  let parts := ipv4Parts cs
  guard (parts.length ≤ 4)
  let numbers ← parts.mapM ipv4Number?
  let last ← numbers.getLast?
  let bytes := numbers.dropLast
  guard (bytes.all (· < 256) && last < Nat.pow 256 (5 - numbers.length))
  let high := bytes.foldl (fun n b => n * 256 + b) 0
  pure (high * Nat.pow 256 (5 - numbers.length) + last)

def ipv4Text (n : Nat) : String :=
  ".".intercalate ([n / Nat.pow 2 24, n / Nat.pow 2 16 % 256, n / 256 % 256, n % 256].map toString)

def hexPiece? (cs : List Char) : Option Nat :=
  if cs.isEmpty || 4 < cs.length then none
  else cs.foldlM (fun n c => (Text.hexValue? c).map (n * 16 + ·)) 0

/-- The two pieces that a dotted address at the end stands for. -/
def dottedPieces? (cs : List Char) : Option (List Nat) := do
  let parts := splitDots cs
  guard (parts.length = 4)
  let bytes ← parts.mapM fun p => do
    guard (!p.isEmpty && p.length ≤ 3 && p.all Char.isDigit && (p.head? != some '0' || p.length = 1))
    ipv4Number? p
  guard (bytes.all (· < 256))
  match bytes with
  | [a, b, c, d] => pure [a * 256 + b, c * 256 + d]
  | _ => none

def splitColons (cs : List Char) : List (List Char) :=
  cs.foldr (fun c parts =>
    if c = ':' then [] :: parts
    else
      match parts with
      | p :: rest => (c :: p) :: rest
      | [] => [[c]]) [[]]

/-- The pieces of one side of an address; only at its very end may a dotted address stand. -/
def pieces? (atEnd : Bool) (cs : List Char) : Option (List Nat) :=
  if cs.isEmpty then some []
  else
    let parts := splitColons cs
    match parts.getLast? with
    | none => some []
    | some last =>
      if atEnd && last.contains '.' then do
        let first ← parts.dropLast.mapM hexPiece?
        let rest ← dottedPieces? last
        pure (first ++ rest)
      else parts.mapM hexPiece?

/-- Cuts a text at its first two colons in a row. -/
def cutDoubleColon (before : List Char) : List Char → Option (List Char × List Char)
  | ':' :: ':' :: rest => some (before.reverse, rest)
  | c :: rest => cutDoubleColon (c :: before) rest
  | [] => none

/-- The eight pieces of an address of the sixth version. -/
def ipv6Pieces? (cs : List Char) : Option (List Nat) :=
  match cutDoubleColon [] cs with
  | none => do
    let ps ← pieces? true cs
    guard (ps.length = 8)
    pure ps
  | some (left, right) => do
    let front ← pieces? false left
    let back ← pieces? true right
    guard (front.length + back.length ≤ 7)
    pure (front ++ List.replicate (8 - front.length - back.length) 0 ++ back)

/-- The length of the run of zeros at the front. -/
def zeroRun (ps : List Nat) : Nat := (ps.takeWhile (· == 0)).length

/-- Where the longest run of at least two zeros starts, and its length; of equals the first. -/
def longestRun (ps : List Nat) : Nat × Nat :=
  (List.range ps.length).foldl (fun best i =>
    let run := zeroRun (ps.drop i)
    if 2 ≤ run && best.2 < run then (i, run) else best) (0, 0)

def hexText (n : Nat) : String := String.ofList (Nat.toDigits 16 n)

def ipv6Text (ps : List Nat) : String :=
  let (start, run) := longestRun ps
  let join (l : List Nat) : String := ":".intercalate (l.map hexText)
  if run = 0 then "[" ++ join ps ++ "]"
  else "[" ++ join (ps.take start) ++ "::" ++ join (ps.drop (start + run)) ++ "]"

/-- The written form of a host that is not empty. -/
def read (cs : List Char) : Except UrlError String :=
  match cs with
  | '[' :: rest =>
    if rest.getLast? == some ']' then
      match ipv6Pieces? rest.dropLast with
      | some ps => .ok (ipv6Text ps)
      | none => .error .badIpv6
    else .error .badIpv6
  | _ =>
    let bytes := percentDecode (String.ofList cs).toUTF8.toList
    match domain? (Text.ofBytesRepaired (ByteArray.mk bytes.toArray)).toList with
    | .error e => .error e
    | .ok name =>
      if name.isEmpty then .error .emptyHost
      else if endsInNumber name then
        match ipv4Value? name with
        | some n => .ok (ipv4Text n)
        | none => .error .badIpv4
      else .ok (String.ofList name)

end Host

end ScriptTools.Web
