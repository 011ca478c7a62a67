import Mathlib.Data.List.Nodup
import Mathlib.Data.String.Basic
import Mathlib.Logic.Function.Basic
import ScriptTools.Proofs.Tool.Codec
import ScriptTools.Tool.Store

/-!
What the rows of a store stand for: a map from identifiers to tools, in which no two tools have one name.
-/

namespace ScriptTools.Store

/-- A row in which a tool stands: its record, and its identifier and name beside it. -/
structure Row.Holds (r : Row) (t : Tool) : Prop where
  id : r.id = t.id.text
  name : r.name = t.name
  data : r.data = t.encode
  timed : t.IsTimed

namespace Row.Holds

variable {r : Row} {t u : Tool}

theorem tool_eq (holds : r.Holds t) : r.tool = .ok t := by
  rw [tool, holds.data, Tool.decode?_encode holds.timed]

theorem unique (first : r.Holds t) (second : r.Holds u) : t = u :=
  Except.ok.inj (first.tool_eq.symm.trans second.tool_eq)

end Row.Holds

/-- A map from identifiers to tools. -/
abbrev Contents := ToolId → Option Tool

/-- The rows of a store hold the tools of a map. -/
structure Represents (s : Store) (m : Contents) : Prop where
  row : ∀ r ∈ s.rows, ∃ t, m t.id = some t ∧ r.Holds t
  tool : ∀ id t, m id = some t → t.id = id ∧ ∃ r ∈ s.rows, r.Holds t

theorem represents_empty : ({} : Store).Represents fun _ => none := ⟨nofun, nofun⟩

/-- Rows with one key are one row. -/
theorem row_eq {key : Row → String} {rows : List Row} (keys : (rows.map key).Nodup) {r u : Row} (left : r ∈ rows)
    (right : u ∈ rows) (same : key r = key u) : r = u :=
  List.inj_on_of_nodup_map keys left right same

/-- The new row is among the rows, but for its time of creation. -/
theorem exists_mem_put (r : Row) (rows : List Row) :
    ∃ u ∈ put r rows, u.id = r.id ∧ u.name = r.name ∧ u.data = r.data := by
  induction rows with
  | nil => exact ⟨r, by simp [put], rfl, rfl, rfl⟩
  | cons v rows ih =>
    unfold put
    split
    next same => exact ⟨v.updated r, by simp, same, rfl, rfl⟩
    next =>
      obtain ⟨u, member, new⟩ := ih
      exact ⟨u, .tail _ member, new⟩

theorem mem_put_of_ne {r u : Row} {rows : List Row} (member : u ∈ rows) (other : u.id ≠ r.id) : u ∈ put r rows := by
  induction rows with
  | nil => cases member
  | cons v rows ih =>
    unfold put
    rcases List.mem_cons.mp member with rfl | later
    · rw [if_neg other]
      exact .head _
    · split
      · exact .tail _ later
      · exact .tail _ (ih later)

/-- Since identifiers are unique, every other row has another identifier than the new one. -/
theorem mem_put_cases {r u : Row} {rows : List Row} (ids : (rows.map Row.id).Nodup) (member : u ∈ put r rows) :
    u ∈ rows ∧ u.id ≠ r.id ∨ u.id = r.id ∧ u.name = r.name ∧ u.data = r.data := by
  rcases mem_put member with old | new
  · by_cases same : u.id = r.id
    · obtain ⟨v, placed, new⟩ := exists_mem_put r rows
      rw [row_eq (ids_put ids) member placed (same.trans new.1.symm)]
      exact .inr new
    · exact .inl ⟨old, same⟩
  · exact .inr new

/-- Rows that are read one after another give the tools in them. -/
theorem mapM_tool {rows : List Row} (held : ∀ r ∈ rows, ∃ t, r.Holds t) :
    ∃ ts, rows.mapM Row.tool = .ok ts ∧ ts.map Tool.name = rows.map Row.name ∧
      ∀ t, t ∈ ts ↔ ∃ r ∈ rows, r.Holds t := by
  induction rows with
  | nil => exact ⟨[], rfl, rfl, by simp⟩
  | cons r rows ih =>
    obtain ⟨t, holds⟩ := held r (by simp)
    obtain ⟨ts, read, names, members⟩ := ih fun u member => held u (by simp [member])
    refine ⟨t :: ts, ?_, by simp [names, holds.name], fun u => ?_⟩
    · rw [List.mapM_cons, holds.tool_eq, read]
      rfl
    · have first : u = t ↔ r.Holds u := ⟨fun same => same ▸ holds, fun other => other.unique holds⟩
      simp only [List.mem_cons, first, members, exists_eq_or_imp]

variable {s : Store} {m : Contents}

/-- A query by a key of the table finds the tool in the row with the key. -/
theorem query_of_mem {key : Row → String} (keys : (s.rows.map key).Nodup) {r : Row} {t : Tool} (member : r ∈ s.rows)
    (holds : r.Holds t) : s.query (fun u => key u = key r) = .ok (some t) := by
  rw [query, find?_of_nodup keys member]
  simp only [holds.tool_eq, Except.map]

theorem query_of_forall {chosen : Row → Bool} (others : ∀ r ∈ s.rows, chosen r = false) : s.query chosen = .ok none := by
  rw [query, List.find?_eq_none.mpr fun r member => by simp [others r member]]

namespace Represents

/-- No two tools have one name. -/
theorem id_eq_of_name (represents : s.Represents m) {a b : ToolId} {t u : Tool} (first : m a = some t) (second : m b = some u)
    (same : t.name = u.name) : a = b := by
  obtain ⟨rfl, r, left, holds⟩ := represents.tool a t first
  obtain ⟨rfl, v, right, holds'⟩ := represents.tool b u second
  have row : r = v := row_eq s.names left right (by rw [holds.name, holds'.name, same])
  subst row
  rw [holds.unique holds']

theorem get_eq (represents : s.Represents m) (id : ToolId) : s.get id = .ok (m id) := by
  cases found : m id with
  | none =>
    refine query_of_forall fun r member => ?_
    obtain ⟨t, here, holds⟩ := represents.row r member
    rw [decide_eq_false_iff_not, holds.id]
    intro same
    rw [ToolId.text_injective same, found] at here
    cases here
  | some t =>
    obtain ⟨rfl, r, member, holds⟩ := represents.tool id t found
    have read := query_of_mem s.ids member holds
    rwa [holds.id] at read

theorem find_some (represents : s.Represents m) {id : ToolId} {t : Tool} (found : m id = some t) :
    s.find t.name = .ok (some t) := by
  obtain ⟨_, r, member, holds⟩ := represents.tool id t found
  have read := query_of_mem s.names member holds
  rwa [holds.name] at read

theorem find_none (represents : s.Represents m) {name : String} (free : ∀ id t, m id = some t → t.name ≠ name) :
    s.find name = .ok none := by
  refine query_of_forall fun r member => ?_
  obtain ⟨t, here, holds⟩ := represents.row r member
  rw [decide_eq_false_iff_not, holds.name]
  exact free t.id t here

theorem get_iff (represents : s.Represents m) {id : ToolId} {t : Tool} : s.get id = .ok (some t) ↔ m id = some t := by
  rw [represents.get_eq, Except.ok.injEq]

theorem find_iff (represents : s.Represents m) {name : String} {t : Tool} :
    s.find name = .ok (some t) ↔ m t.id = some t ∧ t.name = name := by
  constructor
  · intro found
    by_cases used : ∃ id u, m id = some u ∧ u.name = name
    · obtain ⟨id, u, here, rfl⟩ := used
      rw [represents.find_some here] at found
      cases found
      obtain ⟨rfl, _⟩ := represents.tool id t here
      exact ⟨here, rfl⟩
    · rw [represents.find_none fun id u here same => used ⟨id, u, here, same⟩] at found
      cases found
  · rintro ⟨here, rfl⟩
    exact represents.find_some here

/-- Every tool is listed once, and names ascend. -/
theorem list_eq (represents : s.Represents m) :
    ∃ ts, s.list = .ok ts ∧ ts.Pairwise (fun t u => t.name < u.name) ∧ ∀ t, t ∈ ts ↔ m t.id = some t := by
  have order : (s.rows.mergeSort fun a b => a.name ≤ b.name).Perm s.rows := List.mergeSort_perm _ _
  have ascending : (s.rows.mergeSort fun a b => a.name ≤ b.name).Pairwise fun a b => decide (a.name ≤ b.name) = true :=
    List.pairwise_mergeSort (fun a b c => by simpa using le_trans) (fun a b => by simpa using le_total a.name b.name) _
  have distinct : ((s.rows.mergeSort fun a b => a.name ≤ b.name).map Row.name).Nodup :=
    (order.map Row.name).nodup_iff.mpr s.names
  obtain ⟨ts, read, names, members⟩ := mapM_tool fun r member =>
    (represents.row r (order.mem_iff.mp member)).imp fun t held => held.2
  refine ⟨ts, read, ?_, fun t => ?_⟩
  · have strict := (List.pairwise_map.mpr (ascending.imp of_decide_eq_true)).and distinct
    rw [← names, List.pairwise_map] at strict
    exact strict.imp fun both => lt_of_le_of_ne both.1 both.2
  · rw [members]
    constructor
    · rintro ⟨r, member, holds⟩
      obtain ⟨u, found, other⟩ := represents.row r (order.mem_iff.mp member)
      rwa [holds.unique other]
    · intro found
      obtain ⟨_, r, member, holds⟩ := represents.tool t.id t found
      exact ⟨r, order.mem_iff.mpr member, holds⟩

theorem save_taken (represents : s.Represents m) {t : Tool} (valid : t.validate = .ok ()) {id : ToolId} {u : Tool}
    (found : m id = some u) (same : u.name = t.name) (other : id ≠ t.id) : s.save t = .error (.duplicateName t.name) := by
  obtain ⟨rfl, r, member, holds⟩ := represents.tool id u found
  have owner : s.owner? t.name = some u.id.text := by
    have row := find?_of_nodup s.names member
    rw [holds.name, same] at row
    rw [owner?, row, Option.map_some, holds.id]
  have taken : (s.owner? t.name).any (· ≠ t.id.text) ≠ false := by
    have : u.id.text ≠ t.id.text := ToolId.text_injective.ne other
    simp [owner, this]
  rw [save, valid]
  exact dif_neg taken

theorem save_free (represents : s.Represents m) {t : Tool} (timed : t.IsTimed) (valid : t.validate = .ok ())
    (free : ∀ id u, m id = some u → u.name = t.name → id = t.id) :
    ∃ after, s.save t = .ok after ∧ after.Represents (Function.update m t.id (some t)) := by
  have owner : (s.owner? t.name).any (· ≠ t.id.text) = false := by
    cases found : s.rows.find? fun r => r.name = t.name with
    | none => simp [owner?, found]
    | some r =>
      obtain ⟨u, here, holds⟩ := represents.row r (List.mem_of_find?_eq_some found)
      have named : r.name = t.name := by simpa using List.find?_some found
      have same : r.id = t.id.text := by rw [holds.id, free u.id u here (holds.name ▸ named)]
      simp [owner?, found, same]
  refine ⟨_, by rw [save, valid]; exact dif_pos owner, fun r member => ?_, fun id u found => ?_⟩
  · rcases mem_put_cases s.ids member with ⟨old, other⟩ | ⟨id, name, data⟩
    · obtain ⟨u, here, holds⟩ := represents.row r old
      have apart : u.id ≠ t.id := fun same => other (by rw [holds.id, same]; rfl)
      exact ⟨u, by rwa [Function.update_of_ne apart], holds⟩
    · exact ⟨t, Function.update_self .., id, name, data, timed⟩
  · by_cases same : id = t.id
    · subst same
      rw [Function.update_self, Option.some.injEq] at found
      subst found
      obtain ⟨r, member, id, name, data⟩ := exists_mem_put (.ofTool t) s.rows
      exact ⟨rfl, r, member, id, name, data, timed⟩
    · rw [Function.update_of_ne same] at found
      obtain ⟨rfl, r, member, holds⟩ := represents.tool id u found
      have apart : r.id ≠ t.id.text := by
        rw [holds.id]
        exact ToolId.text_injective.ne same
      exact ⟨rfl, r, mem_put_of_ne member apart, holds⟩

theorem delete_found (represents : s.Represents m) (id : ToolId) : (s.delete id).1 = (m id).isSome := by
  rw [Bool.eq_iff_iff, delete, List.any_eq_true, Option.isSome_iff_exists]
  constructor
  · rintro ⟨r, member, same⟩
    obtain ⟨t, here, holds⟩ := represents.row r member
    have id : t.id = id := ToolId.text_injective (holds.id.symm.trans (of_decide_eq_true same))
    exact ⟨t, id ▸ here⟩
  · rintro ⟨t, found⟩
    obtain ⟨rfl, r, member, holds⟩ := represents.tool id t found
    exact ⟨r, member, decide_eq_true holds.id⟩

theorem delete_represents (represents : s.Represents m) (id : ToolId) :
    (s.delete id).2.Represents (Function.update m id none) := by
  refine ⟨fun r member => ?_, fun other t found => ?_⟩
  · obtain ⟨member, kept⟩ := List.mem_filter.mp member
    obtain ⟨t, here, holds⟩ := represents.row r member
    have apart : t.id ≠ id := fun same => of_decide_eq_true kept (same ▸ holds.id)
    exact ⟨t, by rwa [Function.update_of_ne apart], holds⟩
  · have apart : other ≠ id := by
      rintro rfl
      rw [Function.update_self] at found
      cases found
    rw [Function.update_of_ne apart] at found
    obtain ⟨rfl, r, member, holds⟩ := represents.tool other t found
    have kept : r.id ≠ id.text := by
      rw [holds.id]
      exact ToolId.text_injective.ne apart
    exact ⟨rfl, r, List.mem_filter.mpr ⟨member, decide_eq_true kept⟩, holds⟩

end Represents

end ScriptTools.Store
