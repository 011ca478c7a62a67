import ScriptTools.Tool.Definition
import ScriptTools.Tool.Store

/-!
Stores as their authors change them: a definition adds a tool or gives a new version of the one with its
name, and a name removes a tool.
-/

namespace ScriptTools.Store

/-- A store after a definition, with the tool as it is now, and whether it is a new version. -/
structure Revision where
  store : Store
  tool : Tool
  isUpdate : Bool

/-- Why a definition does not come into a store. -/
inductive DefineError where
  | query (e : QueryError)
  | save (e : StoreError)
deriving DecidableEq, Repr

def DefineError.message : DefineError → String
  | .query e => e.message
  | .save e => e.message

/-- Adds the tool of a definition, or updates the tool of that name. -/
def define (s : Store) (d : Definition) (freshId : ToolId) (now : Timestamp) :
    Except DefineError Revision :=
  match s.find d.name with
  | .error e => .error (.query e)
  | .ok existing =>
    let tool := d.toTool existing freshId now
    match s.save tool with
    | .error e => .error (.save e)
    | .ok store => .ok { store, tool, isUpdate := existing.isSome }

/-- Removes the tool of a name, if there is one. -/
def remove (s : Store) (name : String) : Except QueryError (Option (Store × Tool)) :=
  (s.find name).map fun found => found.map fun t => ((s.delete t.id).2, t)

end ScriptTools.Store
