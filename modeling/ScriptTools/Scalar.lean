import ScriptTools.Decimal.Notation
import ScriptTools.Json.Basic

/-!
The four declared types of arguments and results, and their values.
-/

namespace ScriptTools

/-- The declared type of an argument or of a result. -/
inductive ScalarType where
  | string
  | int
  | float
  | boolean
deriving DecidableEq, Repr, Inhabited

namespace ScalarType

def all : List ScalarType := [.string, .int, .float, .boolean]

def name : ScalarType → String
  | .string => "String"
  | .int => "Int"
  | .float => "Float"
  | .boolean => "Boolean"

def ofName? (s : String) : Option ScalarType := all.find? fun t => t.name = s

theorem ofName?_name (t : ScalarType) : ofName? t.name = some t := by cases t <;> decide

/-- The name of the type in a JSON schema. -/
def schemaName : ScalarType → String
  | .string => "string"
  | .int => "integer"
  | .float => "number"
  | .boolean => "boolean"

end ScalarType

/-- A value of one of the declared types. -/
inductive Scalar where
  | string (s : String)
  | int (i : Int64)
  | float (x : Float)
  | boolean (b : Bool)
deriving Repr, Inhabited

namespace Scalar

def type : Scalar → ScalarType
  | .string _ => .string
  | .int _ => .int
  | .float _ => .float
  | .boolean _ => .boolean

def toJson : Scalar → Json
  | .string s => .str s
  | .int i => .int i.toInt
  | .float x => if x.isFinite then .float x else .null
  | .boolean b => .bool b

def boolText (b : Bool) : String := if b then "true" else "false"

/-- The text that is shown for a value. -/
def text : Scalar → String
  | .string s => s
  | .int i => toString i.toInt
  | .float x => Decimal.Layout.plain.text x
  | .boolean b => boolText b

/-- The value with the name of its type beside it. -/
def taggedFields (v : Scalar) : List (String × Json) :=
  [("type", .str v.type.name), ("value", v.toJson)]

def tagged (v : Scalar) : Json := .obj v.taggedFields

end Scalar

/-- A value bound to the name of an argument. -/
structure Binding where
  name : String
  value : Scalar
deriving Repr, Inhabited

namespace Binding

def tagged (b : Binding) : Json := .obj [("name", .str b.name), ("value", b.value.tagged)]

end Binding

end ScriptTools
