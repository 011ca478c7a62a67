import ScriptTools.Scalar
import ScriptTools.Text.Basic
import ScriptTools.Timestamp
import ScriptTools.Tool.Id

/-!
Tools: a name, declared arguments, a declared result type and the code of the body.
-/

namespace ScriptTools

/-- A declared argument. The default is a literal of the script language, bound when the argument is
left out. -/
structure Argument where
  name : String
  type : ScalarType
  description : String := ""
  required : Bool := true
  defaultValue : Option String := none
deriving DecidableEq, Repr, Inhabited

structure Tool where
  id : ToolId
  name : String
  description : String := ""
  code : String
  args : List Argument := []
  returnType : ScalarType
  createdAt : Timestamp
  updatedAt : Timestamp
deriving DecidableEq, Repr, Inhabited

/-- What can be wrong with a tool by itself. -/
inductive Tool.Defect where
  | emptyName
  | emptyArgumentName (tool : String)
  | repeatedArgument (tool argument : String)
deriving DecidableEq, Repr

namespace Tool.Defect

def message : Tool.Defect → String
  | .emptyName => "invalid needle: name must not be empty"
  | .emptyArgumentName tool =>
    "invalid needle: needle '" ++ tool ++ "' has an argument with an empty name"
  | .repeatedArgument tool argument =>
    "invalid needle: needle '" ++ tool ++ "' declares argument '" ++ argument ++ "' more than once"

end Tool.Defect

namespace Tool

/-- The declared argument of a name; the first, if there are several. -/
def arg? (t : Tool) (name : String) : Option Argument := t.args.find? fun a => a.name = name

/-- Checks the names of arguments in order; `seen` holds the names before them. -/
def validateArgs (tool : String) (seen : List String) : List Argument → Except Defect Unit
  | [] => .ok ()
  | a :: rest =>
    if a.name = "" then .error (.emptyArgumentName tool)
    else if seen.contains a.name then .error (.repeatedArgument tool a.name)
    else validateArgs tool (a.name :: seen) rest

/-- A tool has a name that is not blank, and arguments with distinct names that are not empty. -/
def validate (t : Tool) : Except Defect Unit :=
  if (Text.trimChars t.name.toList).isEmpty then .error .emptyName
  else validateArgs t.name [] t.args

end Tool

end ScriptTools
