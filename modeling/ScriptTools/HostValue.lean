import ScriptTools.Decimal.Notation
import ScriptTools.Decimal.Whole
import ScriptTools.Json.Basic
import ScriptTools.Scalar

/-!
The values that pass between host and script.
-/

namespace ScriptTools

/-- A value on the host's side. The entries of a map stand in ascending order of their keys. -/
inductive HostValue where
  | nil
  | bool (b : Bool)
  | number (x : Float)
  | str (s : String)
  | list (items : List HostValue)
  | map (entries : List (String × HostValue))
deriving Inhabited, Repr

namespace HostValue

def typeName : HostValue → String
  | .nil => "nil"
  | .bool _ => "boolean"
  | .number _ => "number"
  | .str _ => "string"
  | .list _ => "list"
  | .map _ => "map"

def integer? : HostValue → Option Int64
  | .number x => Decimal.whole? x
  | _ => none

def str? : HostValue → Option String
  | .str s => some s
  | _ => none

def get? (key : String) : HostValue → Option HostValue
  | .map entries => entries.lookup key
  | _ => none

def numberJson (x : Float) : Json :=
  match Decimal.whole? x with
  | some i => .int i.toInt
  | none => if x.isFinite then .float x else .null

def numberText (x : Float) : String :=
  match Decimal.whole? x with
  | some i => toString i.toInt
  | none => Decimal.Layout.plain.text x

mutual

/-- The value as JSON; numbers that are not finite become `null`. -/
def toJson : HostValue → Json
  | .nil => .null
  | .bool b => .bool b
  | .number x => numberJson x
  | .str s => .str s
  | .list items => .arr (jsonItems items)
  | .map entries => .obj (jsonEntries entries)

def jsonItems : List HostValue → List Json
  | [] => []
  | v :: rest => v.toJson :: jsonItems rest

def jsonEntries : List (String × HostValue) → List (String × Json)
  | [] => []
  | (key, v) :: rest => (key, v.toJson) :: jsonEntries rest

end

mutual

/-- Appends the text that is shown for a value. -/
def writeText (out : String) : HostValue → String
  | .nil => out ++ "nil"
  | .bool b => out ++ Scalar.boolText b
  | .number x => out ++ numberText x
  | .str s => out ++ s
  | .list [] => out ++ "[]"
  | .list (v :: rest) => (writeItems (writeText (out.push '[') v) rest).push ']'
  | .map [] => out ++ "\x7b\x7d"
  | .map ((key, v) :: rest) =>
    (writeEntries (writeText (out ++ "\x7b" ++ key ++ ": ") v) rest).push '}'

def writeItems (out : String) : List HostValue → String
  | [] => out
  | v :: rest => writeItems (writeText (out ++ ", ") v) rest

def writeEntries (out : String) : List (String × HostValue) → String
  | [] => out
  | (key, v) :: rest => writeEntries (writeText (out ++ ", " ++ key ++ ": ") v) rest

end

def text (v : HostValue) : String := writeText "" v

/-- The value as one of a declared type. Nothing is converted: a string is no number, and a number with
a fraction is no integer. -/
def scalar? (type : ScalarType) (v : HostValue) : Option Scalar :=
  match type, v with
  | .string, .str s => some (.string s)
  | .int, .number x => (Decimal.whole? x).map .int
  | .float, .number x => if x.isFinite then some (.float x) else none
  | .boolean, .bool b => some (.boolean b)
  | _, _ => none

/-- The map with the given entries; of entries with one key the last counts. -/
def ofEntries (entries : List (String × HostValue)) : HostValue := .map (Json.sortFields entries)

end HostValue

end ScriptTools
