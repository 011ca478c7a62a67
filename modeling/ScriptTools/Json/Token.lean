import ScriptTools.Text.Basic

/-!
The tokens of JSON text. A number keeps its parts as written, because how it was written decides
whether it is an integer.
-/

namespace ScriptTools.Json

/-- A number as written: digits before and after the point, and the exponent with its minus sign. -/
structure NumberToken where
  negative : Bool
  whole : List Char
  fraction : List Char
  exponent : Option (Bool × List Char)
deriving Repr, DecidableEq

/-- A string token has no text when it escapes half of a surrogate pair. -/
inductive Token where
  | beginArray
  | endArray
  | beginObject
  | endObject
  | colon
  | comma
  | null
  | boolean (b : Bool)
  | number (n : NumberToken)
  | string (s : Option String)
deriving Repr, DecidableEq

namespace Token

def hex4? (a b c d : Char) : Option Nat := do
  let w ← Text.hexValue? a
  let x ← Text.hexValue? b
  let y ← Text.hexValue? c
  let z ← Text.hexValue? d
  pure (((w * 16 + x) * 16 + y) * 16 + z)

/-- The character of an escape of one letter. -/
def shortEscape? : Char → Option Char
  | '"' => some '"'
  | '\\' => some '\\'
  | '/' => some '/'
  | 'b' => some '\x08'
  | 'f' => some '\x0c'
  | 'n' => some '\n'
  | 'r' => some '\r'
  | 't' => some '\t'
  | _ => none

/-- A string being read: its text so far, the first half of a surrogate pair that waits for the second,
and whether a half was left alone. -/
structure Scan where
  text : String := ""
  half : Option Nat := none
  broken : Bool := false

namespace Scan

def push (s : Scan) (c : Char) : Scan :=
  { text := s.text.push c, half := none, broken := s.broken || s.half.isSome }

/-- Takes in one unit of sixteen bits. -/
def pushUnit (s : Scan) (u : Nat) : Scan :=
  if 0xD800 ≤ u && u < 0xDC00 then
    { s with half := some u, broken := s.broken || s.half.isSome }
  else if 0xDC00 ≤ u && u < 0xE000 then
    match s.half with
    | some high =>
      { s with
        text := s.text.push (Char.ofNat (0x10000 + (high - 0xD800) * 0x400 + (u - 0xDC00)))
        half := none }
    | none => { s with broken := true }
  else s.push (Char.ofNat u)

def finish (s : Scan) : Option String :=
  if s.broken || s.half.isSome then none else some s.text

end Scan

/-- Reads a string after its opening quote. -/
def scanString (s : Scan) : List Char → Option (Option String × List Char)
  | [] => none
  | '"' :: rest => some (s.finish, rest)
  | '\\' :: 'u' :: a :: b :: c :: d :: rest =>
    match hex4? a b c d with
    | some u => scanString (s.pushUnit u) rest
    | none => none
  | '\\' :: e :: rest =>
    match shortEscape? e with
    | some c => scanString (s.push c) rest
    | none => none
  | c :: rest => if c.toNat < 0x20 || c == '\\' then none else scanString (s.push c) rest

/-- Reads the exponent of a number, if there is one. -/
def scanExponent (cs : List Char) : Option (Option (Bool × List Char) × List Char) :=
  match cs with
  | [] => some (none, [])
  | e :: rest =>
    if e == 'e' || e == 'E' then
      let (negative, rest) :=
        match rest with
        | '-' :: more => (true, more)
        | '+' :: more => (false, more)
        | _ => (false, rest)
      let (digits, rest) := rest.span Char.isDigit
      if digits.isEmpty then none else some (some (negative, digits), rest)
    else some (none, cs)

/-- Reads a number after its sign: no leading zeros, and digits on both sides of the point. -/
def scanNumber (negative : Bool) (cs : List Char) : Option (NumberToken × List Char) := do
  let (whole, rest) := cs.span Char.isDigit
  if whole.isEmpty || (whole.head? == some '0' && whole.length != 1) then none
  let (fraction, rest) ←
    match rest with
    | '.' :: more =>
      let (digits, rest) := more.span Char.isDigit
      if digits.isEmpty then none else some (digits, rest)
    | _ => some ([], rest)
  let (exponent, rest) ← scanExponent rest
  pure (⟨negative, whole, fraction, exponent⟩, rest)

/-- Reads one token that starts with `c`. -/
def scan (c : Char) (rest : List Char) : Option (Token × List Char) :=
  match c with
  | '[' => some (.beginArray, rest)
  | ']' => some (.endArray, rest)
  | '{' => some (.beginObject, rest)
  | '}' => some (.endObject, rest)
  | ':' => some (.colon, rest)
  | ',' => some (.comma, rest)
  | '"' => (scanString {} rest).map fun (s, rest) => (.string s, rest)
  | '-' => (scanNumber true rest).map fun (n, rest) => (.number n, rest)
  | 'n' =>
    match rest with
    | 'u' :: 'l' :: 'l' :: rest => some (.null, rest)
    | _ => none
  | 't' =>
    match rest with
    | 'r' :: 'u' :: 'e' :: rest => some (.boolean true, rest)
    | _ => none
  | 'f' =>
    match rest with
    | 'a' :: 'l' :: 's' :: 'e' :: rest => some (.boolean false, rest)
    | _ => none
  | c => if c.isDigit then (scanNumber false (c :: rest)).map fun (n, rest) => (.number n, rest)
    else none

def isSpace (c : Char) : Bool := c == ' ' || c == '\t' || c == '\n' || c == '\r'

/-- The tokens of a text, in front of which stand those of `done` in reverse. The count bounds the
number of characters left. -/
def readFrom : Nat → List Token → List Char → Option (List Token)
  | _, done, [] => some done.reverse
  | 0, _, _ :: _ => none
  | n + 1, done, c :: rest =>
    if isSpace c then readFrom n done rest
    else
      match scan c rest with
      | some (t, rest) => readFrom n (t :: done) rest
      | none => none

/-- The tokens of a text, if it has only tokens and blanks. -/
def readAll? (text : String) : Option (List Token) :=
  let cs := text.toList
  readFrom cs.length [] cs

end Token

end ScriptTools.Json
