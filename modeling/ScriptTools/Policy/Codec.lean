import ScriptTools.Json.Record
import ScriptTools.Policy.Basic
import ScriptTools.Toml.Parser

/-!
Policies as records with the members `allow` and `deny`, in JSON or TOML.
-/

namespace ScriptTools.Policy

open Json (Document)

def strings? : Document → Option (List String)
  | .array items => items.mapM Document.string?
  | _ => none

def accesses? : Document → Option (List Access)
  | .array items => items.mapM fun d => d.choice?.bind Access.ofKey?
  | _ => none

/-- A list member; it is empty when left out. -/
def listMember? {α : Type} (read : Document → Option (List α)) (d : Option Document) :
    Option (List α) :=
  (d.map read).getD (some [])

def allowRules? (d : Document) : Option (List String × List String × List String) := do
  match ← d.members? ["fs_read", "fs_write", "net_http"] with
  | [read, write, http] =>
    pure (← listMember? strings? read, ← listMember? strings? write, ← listMember? strings? http)
  | _ => none

def denyRules? (d : Document) : Option (List Access) := do
  match ← d.members? ["all"] with
  | [all] => listMember? accesses? all
  | _ => none

/-- The policy of the two tables, each of which may be left out. -/
def ofTables? (allow deny : Option Document) : Option Policy := do
  let (fsRead, fsWrite, netHttp) ← (allow.map allowRules?).getD (some ([], [], []))
  let denied ← (deny.map denyRules?).getD (some [])
  pure { fsRead, fsWrite, netHttp, denied }

def ofDocument? (d : Document) : Option Policy := do
  match ← d.members? ["allow", "deny"] with
  | [allow, deny] => ofTables? allow deny
  | _ => none

/-- Why a text gives no policy. -/
inductive LoadError where
  | unreadable
  | invalid (d : Defect)
deriving DecidableEq, Repr

/-- The policy that a TOML text writes. -/
def load (toml : String) : Except LoadError Policy :=
  match (Toml.parse? toml).bind fun v => ofDocument? v.toDocument with
  | none => .error .unreadable
  | some p =>
    match p.validate with
    | .ok () => .ok p
    | .error d => .error (.invalid d)

end ScriptTools.Policy
