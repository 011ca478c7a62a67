import ScriptTools.Text.Basic
import ScriptTools.Toml.Parser
import ScriptTools.Tool.Codec

/-!
Definitions: the part of a tool that its author writes, in a file of TOML or JSON.
-/

namespace ScriptTools

open Json (Document)

structure Definition where
  name : String
  description : String := ""
  code : String
  args : List Argument := []
  returnType : ScalarType
deriving DecidableEq, Repr

namespace Definition

/-- The only one of two spellings of a member that is used. -/
def either {α : Type} : Option α → Option α → Option α
  | some a, none => some a
  | none, some a => some a
  | _, _ => none

/-- The result type stands under one of two names in an object. -/
def members? (d : Document) : Option (List (Option Document)) :=
  match d with
  | .object _ => do
    match ← d.members? ["name", "description", "code", "args", "returnType", "return_type"] with
    | [name, description, code, args, camel, snake] =>
      pure [name, description, code, args, either camel snake]
    | _ => none
  | _ => d.members? ["name", "description", "code", "args", "returnType"]

def ofDocument? (d : Document) : Option Definition := do
  match ← members? d with
  | [name, description, code, args, returnType] =>
    let name ← (← name).string?
    let description ← (description.map Document.string?).getD (some "")
    let code ← (← code).string?
    let args ← (args.map Tool.readArgs?).getD (some [])
    let returnType ← ScalarType.ofName? (← (← returnType).choice?)
    pure { name, description, code, args, returnType }
  | _ => none

/-- Whether a file name ends in `.json` in any case; a dot at its front begins no ending. -/
def isJsonFile (name : String) : Bool :=
  let reversed := name.toList.reverse
  let ending := reversed.takeWhile (· != '.')
  let stem := (reversed.drop ending.length).drop 1
  ending.map Char.toLower == ['n', 'o', 's', 'j'] && !stem.isEmpty

/-- The last name in a path. -/
def fileName (path : String) : String :=
  ((Text.parts '/' path).filter fun part => part ≠ "" && part ≠ ".").getLastD ""

/-- The definition in a file at the given path. -/
def load? (path content : String) : Option Definition :=
  if isJsonFile (fileName path) then (Document.read? content).bind ofDocument?
  else (Toml.parse? content).bind fun v => ofDocument? v.toDocument

/-- The tool of a definition. An existing tool keeps its identifier, name and time of creation. -/
def toTool (d : Definition) (existing : Option Tool) (freshId : ToolId) (now : Timestamp) : Tool :=
  match existing with
  | some t =>
    { t with
      code := d.code
      returnType := d.returnType
      updatedAt := now
      description := d.description
      args := d.args }
  | none =>
    { id := freshId
      name := d.name
      description := d.description
      code := d.code
      args := d.args
      returnType := d.returnType
      createdAt := now
      updatedAt := now }

end Definition

end ScriptTools
