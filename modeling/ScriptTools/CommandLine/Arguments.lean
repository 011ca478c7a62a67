import ScriptTools.Json.Document

/-!
The arguments of a call as they are typed: a JSON object, and pairs that are laid over it.
-/

namespace ScriptTools.CommandLine

inductive ArgumentFault where
  | badJson
  | notAnObject
  | noEquals (pair : String)
  | emptyKey (pair : String)
deriving DecidableEq, Repr

def ArgumentFault.message : ArgumentFault → String
  | .badJson => "invalid argument: --json"
  | .notAnObject => "invalid argument: --json must be a JSON object"
  | .noEquals pair => "invalid argument: expected KEY=VALUE, got '" ++ pair ++ "'"
  | .emptyKey pair => "invalid argument: missing key in '" ++ pair ++ "'"

def baseFields : Option String → Except ArgumentFault (List (String × Json))
  | none => .ok []
  | some text =>
    match Json.parse? text with
    | none => .error .badJson
    | some (.obj fields) => .ok fields
    | some _ => .error .notAnObject

/-- A pair is cut at its first equals sign. -/
def readPair (pair : String) : Except ArgumentFault (String × Json) :=
  let (key, rest) := pair.toList.span (· != '=')
  match rest with
  | [] => .error (.noEquals pair)
  | _ :: value =>
    if key.isEmpty then .error (.emptyKey pair)
    else .ok (String.ofList key, .str (String.ofList value))

/-- The arguments of a call: those of the JSON text, over which the pairs are laid. -/
def arguments (json : Option String) (pairs : List String) :
    Except ArgumentFault (List (String × Json)) := do
  let base ← baseFields json
  let given ← pairs.mapM readPair
  pure (Json.sortFields (base ++ given))

end ScriptTools.CommandLine
