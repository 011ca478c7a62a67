import ScriptTools.Json.Printer
import ScriptTools.Text.Escaped

/-!
Reading JSON values as records, with the fault of a value that is no such record. The members of an
object are read in ascending order of their names, and those that are missing are found last.
-/

namespace ScriptTools.Rpc

inductive ShapeError where
  | wrongType (found : Json) (expected : String)
  | missing (field : String)
  | wrongLength (length : Nat) (expected : String)
  | noVariant (type : String)
deriving Repr

namespace ShapeError

/-- What kind of value was found. -/
def kindText : Json → String
  | .null => "null"
  | .bool b => "boolean `" ++ (if b then "true" else "false") ++ "`"
  | .int i => "integer `" ++ toString i ++ "`"
  | .float x => "floating point `" ++ Json.floatText x ++ "`"
  | .str s => "string " ++ Text.shown s
  | .arr _ => "sequence"
  | .obj _ => "map"

def message : ShapeError → String
  | .wrongType found expected => "invalid type: " ++ kindText found ++ ", expected " ++ expected
  | .missing field => "missing field `" ++ field ++ "`"
  | .wrongLength n expected => "invalid length " ++ toString n ++ ", expected " ++ expected
  | .noVariant type => "data did not match any variant of untagged enum " ++ type

end ShapeError

abbrev Shaped (α : Type) := Except ShapeError α

def readString : Json → Shaped String
  | .str s => .ok s
  | v => .error (.wrongType v "a string")

/-- A value that may be `null`. -/
def readOption {α : Type} (read : Json → Shaped α) : Json → Shaped (Option α)
  | .null => .ok none
  | v => (read v).map some

def readFields : Json → Shaped (List (String × Json))
  | .obj fields => .ok fields
  | v => .error (.wrongType v "a map")

/-- Reads a member that may be left out. -/
def optionalMember {α : Type} (read : Json → Shaped (Option α)) : Option Json → Shaped (Option α)
  | none => .ok none
  | some v => read v

/-- More items than a record has members. -/
def checkLength (items : List Json) (members : Nat) : Shaped Unit :=
  if items.length ≤ members then .ok ()
  else .error (.wrongLength items.length "fewer elements in array")

/-- A member that must be there, of a record written as an array of `length` items. -/
def itemMember {α : Type} (read : Json → Shaped α) (type : String) (members index : Nat) :
    Option Json → Shaped α
  | some v => read v
  | none =>
    .error (.wrongLength index
      ("struct " ++ type ++ " with " ++ toString members ++ " elements"))

/-- A member that must be there, of a record written as an object. -/
def fieldMember {α : Type} (name : String) : Option α → Shaped α
  | some a => .ok a
  | none => .error (.missing name)

end ScriptTools.Rpc
