import ScriptTools.Decimal.Whole
import ScriptTools.HostValue
import ScriptTools.Json.Printer
import ScriptTools.Tool.Basic

/-!
Raw arguments of a call become values of the declared types.
-/

namespace ScriptTools

inductive ArgumentError where
  | missing (name : String)
  | unknown (name : String)
  | invalid (name : String) (expected : ScalarType) (value : Json)
  | mismatch (name : String) (expected found : ScalarType)
deriving Repr

namespace ArgumentError

def message : ArgumentError → String
  | .missing name => "missing required argument: " ++ name
  | .unknown name => "unknown parameter: " ++ name
  | .invalid name expected value =>
    "invalid value for argument '" ++ name ++ "': expected " ++ expected.name ++ ", got "
      ++ value.compact
  | .mismatch name expected found =>
    "parameter '" ++ name ++ "' is " ++ found.name ++ " but the argument is declared "
      ++ expected.name

end ArgumentError

/-- The bound arguments in the order of declaration, and the names that no argument has. -/
structure Arguments where
  bindings : List Binding
  ignored : List String

namespace Argument

def readInt? (s : String) : Option Int64 := do
  let i ← Decimal.readInt? (Text.trimChars s.toList)
  if Decimal.fitsInt64 i then some (Int64.ofInt i) else none

def intOfInteger? (i : Int) : Option Int64 :=
  if Decimal.fitsInt64 i then some (Int64.ofInt i) else none

def floatOfInteger (i : Int) : Float := Decimal.ofInt i

/-- The value of a declared type that a JSON value stands for. Strings may spell numbers and booleans,
and numbers and booleans may stand for their text. -/
def coerce? : ScalarType → Json → Option Scalar
  | .string, .str s => some (.string s)
  | .string, .int i => some (.string (toString i))
  | .string, .float x => some (.string (Json.floatText x))
  | .string, .bool b => some (.string (Scalar.boolText b))
  | .int, .int i => (intOfInteger? i).map .int
  | .int, .float x => (Decimal.whole? x).map .int
  | .int, .str s => (readInt? s).map .int
  | .float, .int i => some (.float (floatOfInteger i))
  | .float, .float x => some (.float x)
  | .float, .str s => (Decimal.readFloat? (Text.trimChars s.toList)).map .float
  | .boolean, .bool b => some (.boolean b)
  | .boolean, .str s =>
    if s = "true" then some (.boolean true) else if s = "false" then some (.boolean false) else none
  | _, _ => none

/-- The binding of one argument; none when it is left out or `null` and not required. -/
def read (raw : List (String × Json)) (a : Argument) : Except ArgumentError (Option Binding) :=
  match raw.lookup a.name with
  | none | some .null => if a.required then .error (.missing a.name) else .ok none
  | some v =>
    match coerce? a.type v with
    | some s => .ok (some ⟨a.name, s⟩)
    | none => .error (.invalid a.name a.type v)

end Argument

namespace Tool

/-- Reads the arguments of a call in the order of declaration; the first fault ends it. The fields stand
in ascending order of names, and so do the ignored names. -/
def readArguments (t : Tool) (raw : List (String × Json)) : Except ArgumentError Arguments := do
  let bound ← t.args.mapM (Argument.read raw)
  pure ⟨bound.filterMap fun b => b, (raw.map (·.1)).filter fun name => (t.arg? name).isNone⟩

end Tool

end ScriptTools
