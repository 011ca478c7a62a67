import ScriptTools.Decimal.Notation
import ScriptTools.Json.Basic
import ScriptTools.Text.Basic

/-!
JSON text of values: compact, or indented by two spaces. Only quotes, backslashes and control
characters are escaped.
-/

namespace ScriptTools.Json

/-- A character as it stands between quotes. -/
def escapeChar (c : Char) : List Char :=
  match c with
  | '"' => ['\\', '"']
  | '\\' => ['\\', '\\']
  | '\x08' => ['\\', 'b']
  | '\x0c' => ['\\', 'f']
  | '\n' => ['\\', 'n']
  | '\r' => ['\\', 'r']
  | '\t' => ['\\', 't']
  | c =>
    if c.toNat < 0x20 then ['\\', 'u', '0', '0', Text.hexDigit (c.toNat / 16), Text.hexDigit (c.toNat % 16)]
    else [c]

/-- A text between quotes. -/
def quoted (s : String) : String :=
  (s.foldl (fun (done : String) c => (escapeChar c).foldl String.push done) "\"").push '"'

/-- A double; JSON has no text for one that is not finite, and `null` stands for it. -/
def floatText (x : Float) : String :=
  if x.isFinite then Decimal.Layout.json.text x else "null"

mutual

/-- Appends the text of a value, without blanks. -/
def write (out : String) : Json → String
  | .null => out ++ "null"
  | .bool b => out ++ (if b then "true" else "false")
  | .int i => out ++ toString i
  | .float x => out ++ floatText x
  | .str s => out ++ quoted s
  | .arr [] => out ++ "[]"
  | .arr (v :: rest) => (writeItems (write (out.push '[') v) rest).push ']'
  | .obj [] => out ++ "\x7b\x7d"
  | .obj ((name, v) :: rest) =>
    (writeFields (write (out ++ "\x7b" ++ quoted name ++ ":") v) rest).push '}'

def writeItems (out : String) : List Json → String
  | [] => out
  | v :: rest => writeItems (write (out.push ',') v) rest

def writeFields (out : String) : List (String × Json) → String
  | [] => out
  | (name, v) :: rest => writeFields (write (out ++ "," ++ quoted name ++ ":") v) rest

end

/-- The text of a value without blanks. -/
def compact (v : Json) : String := write "" v

def indentation (depth : Nat) : String := String.ofList ('\n' :: List.replicate (2 * depth) ' ')

mutual

/-- Appends the text of a value with one item or field a line. -/
def writePretty (depth : Nat) (out : String) : Json → String
  | .null => out ++ "null"
  | .bool b => out ++ (if b then "true" else "false")
  | .int i => out ++ toString i
  | .float x => out ++ floatText x
  | .str s => out ++ quoted s
  | .arr [] => out ++ "[]"
  | .arr (v :: rest) =>
    let first := writePretty (depth + 1) (out ++ "[" ++ indentation (depth + 1)) v
    writePrettyItems (depth + 1) first rest ++ indentation depth ++ "]"
  | .obj [] => out ++ "\x7b\x7d"
  | .obj ((name, v) :: rest) =>
    let start := out ++ "\x7b" ++ indentation (depth + 1) ++ quoted name ++ ": "
    let first := writePretty (depth + 1) start v
    writePrettyFields (depth + 1) first rest ++ indentation depth ++ "\x7d"

def writePrettyItems (depth : Nat) (out : String) : List Json → String
  | [] => out
  | v :: rest => writePrettyItems depth (writePretty depth (out ++ "," ++ indentation depth) v) rest

def writePrettyFields (depth : Nat) (out : String) : List (String × Json) → String
  | [] => out
  | (name, v) :: rest =>
    let start := out ++ "," ++ indentation depth ++ quoted name ++ ": "
    writePrettyFields depth (writePretty depth start v) rest

end

/-- The text of a value with one item or field a line. -/
def pretty (v : Json) : String := writePretty 0 "" v

end ScriptTools.Json
