import ScriptTools.Json.Document
import ScriptTools.Tool.Basic

/-!
What a caller is told about a tool: its name, its description and a JSON schema of its arguments.
-/

namespace ScriptTools

structure ToolSpec where
  name : String
  description : String
  inputSchema : Json

namespace Argument

/-- The schema of an argument. The default is shown when its literal is also JSON. -/
def schema (a : Argument) : Json :=
  let description := if a.description = "" then [] else [("description", Json.str a.description)]
  let default := (a.defaultValue.bind Json.parse?).map fun d => ("default", d)
  Json.ofFields (("type", .str a.type.schemaName) :: description ++ default.toList)

end Argument

namespace Tool

def spec (t : Tool) : ToolSpec where
  name := t.name
  description := t.description
  inputSchema := Json.ofFields
    [("type", .str "object"),
      ("properties", Json.ofFields (t.args.map fun a => (a.name, a.schema))),
      ("required", .arr ((t.args.filter (·.required)).map fun a => .str a.name))]

end Tool

namespace ToolSpec

def toJson (s : ToolSpec) : Json :=
  Json.ofFields
    [("name", .str s.name), ("description", .str s.description), ("inputSchema", s.inputSchema)]

end ToolSpec

end ScriptTools
