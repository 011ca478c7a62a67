import ScriptTools.Toml.Text

/-!
Reading TOML documents.
-/

namespace ScriptTools.Toml

/-- How deeply arrays and inline tables may be nested. -/
def depthLimit : Nat := 80

/-- Reads the items of an array after its opening bracket, given a reader of values. -/
def readItems? (value : List Char → Option (Value × List Char)) :
    Nat → List Value → List Char → Option (List Value × List Char)
  | 0, _, _ => none
  | n + 1, done, cs =>
    match skipAllLines cs with
    | ']' :: rest => some (done.reverse, rest)
    | cs => do
      let (v, rest) ← value cs
      match skipAllLines rest with
      | ',' :: rest => readItems? value n (v :: done) rest
      | ']' :: rest => some ((v :: done).reverse, rest)
      | _ => none

/-- Reads the entries of an inline table, which stands on one line, after its opening brace or a
comma. -/
def readInline? (value : List Char → Option (Value × List Char)) :
    Nat → Entries → List Char → Option (Entries × List Char)
  | 0, _, _ => none
  | n + 1, done, cs => do
    let (key, rest) ← readKey? (cs.length + 1) cs
    match rest with
    | '=' :: rest =>
      let (v, rest) ← value (skipSpaces rest)
      let done ← done.addAt? key v
      match skipSpaces rest with
      | ',' :: rest => readInline? value n done rest
      | '}' :: rest => some (done, rest)
      | _ => none
    | _ => none

/-- Reads a value; `depth` more levels of nesting are allowed. -/
def readValue? : Nat → List Char → Option (Value × List Char)
  | depth, cs =>
    match cs with
    | '"' :: _ | '\'' :: _ => (readString? cs).map fun (s, rest) => (.string s, rest)
    | '[' :: rest =>
      match depth with
      | 0 => none
      | depth + 1 =>
        (readItems? (readValue? depth) (rest.length + 1) [] rest).map fun (items, rest) =>
          (.array items, rest)
    | '{' :: rest =>
      match depth with
      | 0 => none
      | depth + 1 =>
        match skipSpaces rest with
        | '}' :: rest => some (.table [], rest)
        | _ =>
          (readInline? (readValue? depth) (rest.length + 1) [] rest).map fun (entries, rest) =>
            (.table (freezeEntries entries), rest)
    | _ =>
      let (word, rest) := spanScalar cs
      (scalarOf? word).map fun v => (v, rest)

/-- A document so far: all entries, and the path of the header that is open. -/
structure Progress where
  entries : Entries := []
  header : List String := []

namespace Progress

def add? (p : Progress) (key : List String) (v : Value) : Option Progress := do
  let entries ← p.entries.descend? (fun table => table.addAt? key v) p.header
  pure { p with entries }

end Progress

/-- Reads one header or one key with its value. -/
def readStatement? (p : Progress) (cs : List Char) : Option (Progress × List Char) :=
  match cs with
  | '[' :: '[' :: rest => do
    let (path, rest) ← readKey? (rest.length + 1) rest
    match rest with
    | ']' :: ']' :: rest =>
      let entries ← p.entries.openNext? path
      pure (⟨entries, path⟩, rest)
    | _ => none
  | '[' :: rest => do
    let (path, rest) ← readKey? (rest.length + 1) rest
    match rest with
    | ']' :: rest =>
      let entries ← p.entries.openTable? path
      pure (⟨entries, path⟩, rest)
    | _ => none
  | _ => do
    let (key, rest) ← readKey? (cs.length + 1) cs
    match rest with
    | '=' :: rest =>
      let (v, rest) ← readValue? depthLimit (skipSpaces rest)
      let p ← p.add? key v
      pure (p, rest)
    | _ => none

/-- Reads the statements of a document, one a line. The count bounds the number of lines. -/
def readStatements? : Nat → Progress → List Char → Option Progress
  | 0, _, _ => none
  | n + 1, p, cs =>
    match skipAllLines cs with
    | [] => some p
    | cs => do
      let (p, rest) ← readStatement? p cs
      match skipComment (skipSpaces rest) with
      | [] => some p
      | rest => readStatements? n p (← readBreak? rest)

/-- The table that a text writes. -/
def parse? (text : String) : Option Value := do
  let cs := text.toList
  let cs := if cs.head? == some '\uFEFF' then cs.tail else cs
  let p ← readStatements? (cs.length + 1) {} cs
  pure (.table (freezeEntries p.entries))

end ScriptTools.Toml
