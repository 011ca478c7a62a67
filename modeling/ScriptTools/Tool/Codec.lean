import ScriptTools.Json.Printer
import ScriptTools.Json.Record
import ScriptTools.Tool.Basic

/-!
The stored form of tools: JSON records with members in a fixed order.
-/

namespace ScriptTools

open Json (Document)

namespace Argument

def memberNames : List String := ["name", "type", "description", "required", "defaultValue"]

def toJson (a : Argument) : Json :=
  .obj ([("name", .str a.name), ("type", .str a.type.name), ("description", .str a.description),
    ("required", .bool a.required)]
    ++ (a.defaultValue.map fun d => ("defaultValue", Json.str d)).toList)

/-- The default as written: `null` stands for none. -/
def readDefault? : Document → Option (Option String)
  | .null => some none
  | d => d.string?.map some

/-- Reads a record. Type and name must be there; the other members have defaults. -/
def ofDocument? (d : Document) : Option Argument := do
  match ← d.members? memberNames with
  | [name, type, description, required, defaultValue] =>
    let name ← (← name).string?
    let type ← ScalarType.ofName? (← (← type).choice?)
    let description ← (description.map Document.string?).getD (some "")
    let required ← (required.map Document.boolean?).getD (some true)
    let defaultValue ← (defaultValue.map readDefault?).getD (some none)
    pure { name, type, description, required, defaultValue }
  | _ => none

end Argument

namespace Tool

def memberNames : List String :=
  ["id", "name", "description", "code", "args", "returnType", "createdAt", "updatedAt"]

def toJson (t : Tool) : Json :=
  .obj [("id", .str t.id.text), ("name", .str t.name), ("description", .str t.description),
    ("code", .str t.code), ("args", .arr (t.args.map Argument.toJson)),
    ("returnType", .str t.returnType.name), ("createdAt", .str t.createdAt.text),
    ("updatedAt", .str t.updatedAt.text)]

/-- The stored text of a tool. -/
def encode (t : Tool) : String := t.toJson.compact

def readArgs? : Document → Option (List Argument)
  | .array items => items.mapM Argument.ofDocument?
  | _ => none

/-- Reads a record. Description and arguments may be left out. -/
def ofDocument? (d : Document) : Option Tool := do
  match ← d.members? memberNames with
  | [id, name, description, code, args, returnType, createdAt, updatedAt] =>
    let id ← ToolId.read? (← (← id).string?)
    let name ← (← name).string?
    let description ← (description.map Document.string?).getD (some "")
    let code ← (← code).string?
    let args ← (args.map readArgs?).getD (some [])
    let returnType ← ScalarType.ofName? (← (← returnType).choice?)
    let createdAt ← Timestamp.read? (← (← createdAt).string?)
    let updatedAt ← Timestamp.read? (← (← updatedAt).string?)
    pure { id, name, description, code, args, returnType, createdAt, updatedAt }
  | _ => none

/-- The tool that a stored text holds. -/
def decode? (text : String) : Option Tool := (Document.read? text).bind ofDocument?

end Tool

end ScriptTools
