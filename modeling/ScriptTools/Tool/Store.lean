import ScriptTools.Tool.Codec

/-!
A store of tools: the rows of a table in which no two have one identifier or one name. The record of a tool
is a text in its row; its identifier, its name and its times stand beside it in columns of their own.
-/

namespace ScriptTools

/-- A row of the table. -/
structure Store.Row where
  id : String
  name : String
  data : String
  createdAt : String
  updatedAt : String
deriving DecidableEq, Repr, Inhabited

/-- The rows in the order in which they came; identifiers are the key of the table, and names are unique. -/
structure Store where
  rows : List Store.Row := []
  ids : (rows.map Store.Row.id).Nodup := by exact List.nodup_nil
  names : (rows.map Store.Row.name).Nodup := by exact List.nodup_nil
deriving Repr

instance : Inhabited Store := ⟨{}⟩

/-- Why a tool is not saved. -/
inductive StoreError where
  | invalid (d : Tool.Defect)
  | duplicateName (name : String)
deriving DecidableEq, Repr

/-- Why a row is not read: its data is no record. -/
inductive QueryError where
  | undecodable
deriving DecidableEq, Repr

namespace StoreError

def message : StoreError → String
  | .invalid d => d.message
  | .duplicateName name => "a needle named '" ++ name ++ "' already exists"

end StoreError

/-- The reader's own account of what is wrong is left out. -/
def QueryError.message : QueryError → String
  | .undecodable => "serialization error"

namespace Store

namespace Row

/-- The row of a tool. -/
def ofTool (t : Tool) : Row where
  id := t.id.text
  name := t.name
  data := t.encode
  createdAt := t.createdAt.offsetText
  updatedAt := t.updatedAt.offsetText

/-- The tool in a row. Only the record is read. -/
def tool (r : Row) : Except QueryError Tool :=
  match Tool.decode? r.data with
  | some t => .ok t
  | none => .error .undecodable

/-- A row that takes over what another holds, except for the time of creation in its column. -/
def updated (old new : Row) : Row := { old with name := new.name, data := new.data, updatedAt := new.updatedAt }

end Row

/-- The rows after one is put among them: over the row with its identifier, or else at the end. -/
def put (r : Row) : List Row → List Row
  | [] => [r]
  | u :: rest => if u.id = r.id then u.updated r :: rest else u :: put r rest

/-- A row after one is put in was there before, or is the new one but for its time of creation. -/
theorem mem_put {r u : Row} {rows : List Row} (member : u ∈ put r rows) :
    u ∈ rows ∨ u.id = r.id ∧ u.name = r.name ∧ u.data = r.data := by
  induction rows with
  | nil => simp_all [put]
  | cons v rest ih =>
    unfold put at member
    split at member
    next same =>
      rcases List.mem_cons.mp member with rfl | later
      · exact .inr ⟨same, rfl, rfl⟩
      · exact .inl (.tail _ later)
    next =>
      rcases List.mem_cons.mp member with rfl | later
      · exact .inl (.head _)
      · exact (ih later).imp_left (.tail _)

theorem ids_put {r : Row} {rows : List Row} (ids : (rows.map Row.id).Nodup) : ((put r rows).map Row.id).Nodup := by
  induction rows with
  | nil => simp [put]
  | cons v rest ih =>
    obtain ⟨fresh, later⟩ := List.nodup_cons.mp ids
    unfold put
    split
    next => exact ids
    next other =>
      refine List.nodup_cons.mpr ⟨fun member => ?_, ih later⟩
      obtain ⟨u, member, same⟩ := List.mem_map.mp member
      rcases mem_put member with old | ⟨new, _, _⟩
      · exact fresh (same ▸ List.mem_map_of_mem old)
      · exact other (same.symm.trans new)

/-- Names stay unique when no other row has the name of the new one. -/
theorem names_put {r : Row} {rows : List Row} (ids : (rows.map Row.id).Nodup) (names : (rows.map Row.name).Nodup)
    (free : ∀ u ∈ rows, u.name = r.name → u.id = r.id) : ((put r rows).map Row.name).Nodup := by
  induction rows with
  | nil => simp [put]
  | cons v rest ih =>
    obtain ⟨freshId, ids⟩ := List.nodup_cons.mp ids
    obtain ⟨fresh, names⟩ := List.nodup_cons.mp names
    unfold put
    split
    next same =>
      refine List.nodup_cons.mpr ⟨fun member => ?_, names⟩
      obtain ⟨u, member, taken⟩ := List.mem_map.mp member
      exact freshId (same.trans (free u (.tail _ member) taken).symm ▸ List.mem_map_of_mem member)
    next other =>
      refine List.nodup_cons.mpr ⟨fun member => ?_, ih ids names fun u member => free u (.tail _ member)⟩
      obtain ⟨u, member, same⟩ := List.mem_map.mp member
      rcases mem_put member with old | ⟨_, new, _⟩
      · exact fresh (same ▸ List.mem_map_of_mem old)
      · exact other (free v (.head _) (same.symm.trans new))

/-- The only row with a key is found by it. -/
theorem find?_of_nodup {key : Row → String} {rows : List Row} (keys : (rows.map key).Nodup) {r : Row} (member : r ∈ rows) :
    rows.find? (fun u => key u = key r) = some r := by
  induction rows with
  | nil => cases member
  | cons v rest ih =>
    obtain ⟨fresh, keys⟩ := List.nodup_cons.mp keys
    rcases List.mem_cons.mp member with rfl | later
    · exact List.find?_cons_of_pos (by simp)
    · have other : key v ≠ key r := fun same => fresh (same ▸ List.mem_map_of_mem later)
      rw [List.find?_cons_of_neg (by simpa using other)]
      exact ih keys later

variable (s : Store)

/-- The identifier in the row of a name. -/
def owner? (name : String) : Option String := (s.rows.find? fun r => r.name = name).map Row.id

theorem id_eq_of_owner? {name id : String} (free : (s.owner? name).any (· ≠ id) = false) :
    ∀ u ∈ s.rows, u.name = name → u.id = id := by
  rintro u member rfl
  rw [owner?, find?_of_nodup s.names member] at free
  simpa using free

/-- Adds a tool, or gives the one with its identifier another record. The name must not belong to another
tool. -/
def save (t : Tool) : Except StoreError Store :=
  match t.validate with
  | .error d => .error (.invalid d)
  | .ok () =>
    if free : (s.owner? t.name).any (· ≠ t.id.text) = false then
      .ok ⟨put (.ofTool t) s.rows, ids_put s.ids, names_put s.ids s.names (s.id_eq_of_owner? free)⟩
    else .error (.duplicateName t.name)

/-- The tool in the row that is chosen, if there is one. -/
def query (chosen : Row → Bool) : Except QueryError (Option Tool) :=
  match s.rows.find? chosen with
  | some r => r.tool.map some
  | none => .ok none

def get (id : ToolId) : Except QueryError (Option Tool) := s.query fun r => r.id = id.text

def find (name : String) : Except QueryError (Option Tool) := s.query fun r => r.name = name

/-- All tools in ascending order of their names. -/
def list : Except QueryError (List Tool) := (s.rows.mergeSort fun a b => a.name ≤ b.name).mapM Row.tool

/-- Removes the row of an identifier, and says whether there was one. -/
def delete (id : ToolId) : Bool × Store :=
  (s.rows.any fun r => r.id = id.text,
    ⟨s.rows.filter fun r => r.id ≠ id.text, s.ids.sublist (List.filter_sublist.map _),
      s.names.sublist (List.filter_sublist.map _)⟩)

/-- The tool of an identifier, where its row can be read. -/
def get? (id : ToolId) : Option Tool := (s.get id).toOption.join

/-- The tool of a name, where its row can be read. -/
def find? (name : String) : Option Tool := (s.find name).toOption.join

/-- All tools, where their rows can be read. -/
def tools : List Tool := s.list.toOption.getD []

end Store

end ScriptTools
