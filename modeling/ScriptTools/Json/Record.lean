import ScriptTools.Json.Document

/-!
Documents as records with named members. A record is written as an object, in which unknown names are
passed over and known names may not repeat, or as an array of its members in order, from whose end
members may be left out.
-/

namespace ScriptTools.Json.Document

/-- The member of a name, if no other has it. -/
def member? (fields : List (Option String × Document)) (name : String) : Option (Option Document) :=
  match fields.filter fun f => f.1 == some name with
  | [] => some none
  | [field] => some (some field.2)
  | _ => none

/-- The members of a record, each present or not. -/
def members? (names : List String) : Document → Option (List (Option Document))
  | .object fields =>
    if fields.all fun f => f.1.isSome then names.mapM (member? fields) else none
  | .array items =>
    if items.length ≤ names.length then
      some (items.map some ++ List.replicate (names.length - items.length) none)
    else none
  | _ => none

def string? : Document → Option String
  | .string s => s
  | _ => none

def boolean? : Document → Option Bool
  | .boolean b => some b
  | _ => none

/-- A name standing for a choice: the name itself, or an object with that one name and `null`. -/
def choice? : Document → Option String
  | .string s => s
  | .object [(some name, .null)] => some name
  | _ => none

end ScriptTools.Json.Document
