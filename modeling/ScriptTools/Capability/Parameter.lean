import ScriptTools.HostError
import ScriptTools.HostValue

/-!
How functions of the host read their arguments. Numbers may stand for their text.
-/

namespace ScriptTools.Capability

/-- An argument that is a text; the first has the index zero. -/
def textArg (call : String) (args : List HostValue) (i : Nat) : Except HostError String :=
  match args[i]? with
  | some (.str s) => .ok s
  | some v@(.number _) => .ok v.text
  | some v => .error (.invalidArgument
      (call ++ ": argument #" ++ toString (i + 1) ++ " must be a string, got " ++ v.typeName))
  | none => .error (.invalidArgument (call ++ ": argument #" ++ toString (i + 1) ++ " is missing"))

def badTable (call : String) (i : Nat) (found : HostValue) : HostError :=
  .invalidArgument
    (call ++ ": argument #" ++ toString (i + 1) ++ " must be a table of strings, got " ++ found.typeName)

/-- The text of a value in a table of texts. -/
def entryText (call : String) (i : Nat) : HostValue → Except HostError String
  | .str s => .ok s
  | v@(.number _) | v@(.bool _) => .ok v.text
  | v => .error (badTable call i v)

/-- An argument that is a table of texts, and may be left out. -/
def textTableArg (call : String) (args : List HostValue) (i : Nat) :
    Except HostError (List (String × String)) :=
  match args[i]? with
  | none | some .nil | some (.list []) => .ok []
  | some (.map entries) => entries.mapM fun (key, v) => return (key, ← entryText call i v)
  | some v => .error (badTable call i v)

end ScriptTools.Capability
