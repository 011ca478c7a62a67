import ScriptTools.Decimal.Notation
import ScriptTools.Json.Document

/-!
TOML values, and tables while they are being written. A table remembers how it came into being,
because that decides whether a later line may add to it.
-/

namespace ScriptTools.Toml

inductive Value where
  | string (s : String)
  | integer (i : Int)
  | float (x : Float)
  | boolean (b : Bool)
  | moment (text : String)
  | array (items : List Value)
  | table (entries : List (String × Value))
deriving Inhabited

/-- An entry of a table that is being written. -/
inductive Node where
  | value (v : Value)
  /-- `implicit`: not named by a header of its own; `dotted`: made by a key with dots. -/
  | table (implicit dotted : Bool) (entries : List (String × Node))
  /-- An array of tables, the latest first. -/
  | tables (latest : List (List (String × Node)))
deriving Inhabited

abbrev Entries := List (String × Node)

namespace Entries

/-- Puts a node under a name, in the place of an older one. -/
def put (name : String) (n : Node) : Entries → Entries
  | [] => [(name, n)]
  | (k, old) :: rest => if k = name then (k, n) :: rest else (k, old) :: put name n rest

/-- Adds a value under a name that is not taken. -/
def add? (name : String) (v : Value) (entries : Entries) : Option Entries :=
  if (entries.lookup name).isSome then none else some (entries ++ [(name, .value v)])

/-- Adds a value under a key with dots. The tables on the way must be new or made by such keys. -/
def addAt? (key : List String) (v : Value) (entries : Entries) : Option Entries :=
  match key with
  | [] => none
  | [name] => add? name v entries
  | name :: rest =>
    match entries.lookup name with
    | none => (addAt? rest v []).map fun inner => entries ++ [(name, .table true true inner)]
    | some (.table implicit dotted inner) =>
      if implicit && (dotted || rest.length != 1) then
        (addAt? rest v inner).map fun inner => put name (.table implicit dotted inner) entries
      else none
    | some _ => none

/-- Changes the table that a header path leads to. Missing tables on the way are made. -/
def descend? (change : Entries → Option Entries) (path : List String) (entries : Entries) :
    Option Entries :=
  match path with
  | [] => change entries
  | name :: rest =>
    match entries.lookup name with
    | none => (descend? change rest []).map fun inner => entries ++ [(name, .table true false inner)]
    | some (.table implicit dotted inner) =>
      (descend? change rest inner).map fun inner => put name (.table implicit dotted inner) entries
    | some (.tables (latest :: older)) =>
      (descend? change rest latest).map fun latest => put name (.tables (latest :: older)) entries
    | some _ => none

/-- Opens the table of a header. It must be new, or known only as a step to other tables. -/
def openTable? (path : List String) (entries : Entries) : Option Entries :=
  match path.getLast? with
  | none => none
  | some name =>
    descend? (fun parent =>
      match parent.lookup name with
      | none => some (parent ++ [(name, .table false false [])])
      | some (.table true false inner) => some (put name (.table false false inner) parent)
      | some _ => none) path.dropLast entries

/-- Starts the next table of an array of tables. -/
def openNext? (path : List String) (entries : Entries) : Option Entries :=
  match path.getLast? with
  | none => none
  | some name =>
    descend? (fun parent =>
      match parent.lookup name with
      | none => some (parent ++ [(name, .tables [[]])])
      | some (.tables done) => some (put name (.tables ([] :: done)) parent)
      | some _ => none) path.dropLast entries

end Entries

mutual

def Node.freeze : Node → Value
  | .value v => v
  | .table _ _ entries => .table (freezeEntries entries)
  | .tables latest => .array (freezeTables latest).reverse

def freezeEntries : List (String × Node) → List (String × Value)
  | [] => []
  | (name, n) :: rest => (name, n.freeze) :: freezeEntries rest

def freezeTables : List (List (String × Node)) → List Value
  | [] => []
  | entries :: rest => .table (freezeEntries entries) :: freezeTables rest

end

/-- An integer as JSON writes it. -/
def integerToken (i : Int) : Json.NumberToken := ⟨i < 0, Decimal.digitChars i.natAbs, [], none⟩

/-- A number that is no integer. -/
def floatToken : Json.NumberToken := ⟨false, ['0'], ['0'], none⟩

mutual

/-- The document of the same shape. A moment is a record with a member that no other record has, and of
a float only its being one is kept, as no setting is a float. -/
def Value.toDocument : Value → Json.Document
  | .string s => .string (some s)
  | .integer i => .number (integerToken i)
  | .float _ => .number floatToken
  | .boolean b => .boolean b
  | .moment text => .object [(some "$moment", .string (some text))]
  | .array items => .array (documentItems items)
  | .table entries => .object (documentEntries entries)

def documentItems : List Value → List Json.Document
  | [] => []
  | v :: rest => v.toDocument :: documentItems rest

def documentEntries : List (String × Value) → List (Option String × Json.Document)
  | [] => []
  | (name, v) :: rest => (some name, v.toDocument) :: documentEntries rest

end

end ScriptTools.Toml
