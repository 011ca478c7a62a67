import ScriptTools.Text.Basic
import ScriptTools.Tool.Store

/-!
The text of a store: its rows, one a line, each an array of its columns.
-/

namespace ScriptTools.Store

open Json (Document)

def Row.toJson (r : Row) : Json := .arr [.str r.id, .str r.name, .str r.data, .str r.createdAt, .str r.updatedAt]

def Row.ofDocument? : Document → Option Row
  | .array [id, name, data, createdAt, updatedAt] => do
    pure ⟨← id.string?, ← name.string?, ← data.string?, ← createdAt.string?, ← updatedAt.string?⟩
  | _ => none

/-- The rows, each with a line end. -/
def encode (s : Store) : String := String.join (s.rows.map fun r => r.toJson.compact ++ "\n")

/-- The store of some rows, whose identifiers and names must be unique. -/
def ofRows? (rows : List Row) : Option Store :=
  if unique : (rows.map Row.id).Nodup ∧ (rows.map Row.name).Nodup then some ⟨rows, unique.1, unique.2⟩ else none

/-- The store that a text holds. -/
def decode? (text : String) : Option Store := do
  let lines := (Text.parts '\n' text).filter (· ≠ "")
  ofRows? (← lines.mapM fun line => (Document.read? line).bind Row.ofDocument?)

end ScriptTools.Store
