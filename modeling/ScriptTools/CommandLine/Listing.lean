import ScriptTools.Json.Printer
import ScriptTools.Tool.Schema

/-!
What is shown of tools: a table with one tool a row, and a page about one tool.
-/

namespace ScriptTools.CommandLine

/-- The text up to its first line break. -/
def firstLine (s : String) : String :=
  let line := s.toList.takeWhile (· != '\n')
  let cut := s.toList.length != line.length && line.getLast? == some '\r'
  String.ofList (if cut then line.dropLast else line)

/-- A text with blanks after it up to a width. -/
def padRight (width : Nat) (s : String) : String :=
  s ++ String.ofList (List.replicate (width - s.length) ' ')

/-- The columns of a row; only the last may be of any width. -/
def row (name type args updated description : String) : String :=
  padRight 24 name ++ "  " ++ padRight 8 type ++ "  " ++ padRight 4 args ++ "  "
    ++ padRight 16 updated ++ "  " ++ description ++ "\n"

def toolRow (t : Tool) : String :=
  row t.name t.returnType.name (toString t.args.length) t.updatedAt.toMinute (firstLine t.description)

/-- The table of the tools of a store. -/
def table (tools : List Tool) : String :=
  if tools.isEmpty then "No needles found.\n"
  else
    row "NAME" "RETURNS" "ARGS" "UPDATED" "DESCRIPTION"
      ++ String.ofList (List.replicate 80 '-') ++ "\n" ++ String.join (tools.map toolRow)

/-- The line about an argument: its default, or that it may be left out, and its description. -/
def argumentLine (a : Argument) : String :=
  let optional :=
    match a.defaultValue, a.required with
    | some default, _ => " = " ++ default
    | none, false => " (optional)"
    | none, true => ""
  let description := if a.description = "" then "" else "  - " ++ a.description
  "  " ++ a.name ++ ": " ++ a.type.name ++ optional ++ description ++ "\n"

/-- The page about a tool. -/
def page (t : Tool) : String :=
  let description := if t.description = "" then "" else "Description: " ++ t.description ++ "\n"
  let arguments :=
    if t.args.isEmpty then "" else "\nArguments:\n" ++ String.join (t.args.map argumentLine)
  "Name:        " ++ t.name ++ "\nID:          " ++ t.id.text ++ "\n" ++ description
    ++ "Returns:     " ++ t.returnType.name ++ "\nUpdated:     " ++ t.updatedAt.spaced ++ "\n"
    ++ arguments ++ "\nInput schema:\n" ++ t.spec.inputSchema.pretty ++ "\n\nCode:\n" ++ t.code ++ "\n"

end ScriptTools.CommandLine
