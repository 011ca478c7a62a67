/-!
JSON values. The fields of an object are written in the order in which they stand; free-form objects
are built by `Json.ofFields`, in ascending order of the names and with each name once.
-/

namespace ScriptTools

/-- A JSON value. A number written without fraction and exponent is an integer when it fits 64 bits,
signed or not; all others are doubles. -/
inductive Json where
  | null
  | bool (b : Bool)
  | int (i : Int)
  | float (x : Float)
  | str (s : String)
  | arr (items : List Json)
  | obj (fields : List (String × Json))
deriving Inhabited, Repr

namespace Json

/-- Of neighbours with one name, keeps the last. -/
def keepLast {α : Type} : List (String × α) → List (String × α)
  | [] => []
  | [field] => [field]
  | field :: next :: rest =>
    if field.1 = next.1 then keepLast (next :: rest) else field :: keepLast (next :: rest)

/-- Fields in ascending order of names; of fields with one name the last written counts. -/
def sortFields {α : Type} (fields : List (String × α)) : List (String × α) :=
  keepLast (fields.mergeSort fun a b => a.1 ≤ b.1)

/-- The object with the given fields, in whatever order. -/
def ofFields (fields : List (String × Json)) : Json := .obj (sortFields fields)

/-- The field of a name, if the value is an object that has it. -/
def get? (name : String) : Json → Option Json
  | .obj fields => fields.lookup name
  | _ => none

/-- A number for a count or an index. -/
def ofNat (n : Nat) : Json := .int n

def ofOption {α : Type} (f : α → Json) : Option α → Json
  | none => .null
  | some a => f a

end Json

end ScriptTools
