import ScriptTools.Proofs.Json.Reading
import ScriptTools.Proofs.Store.Calls

/-!
A store in a file answers any series of calls as a map from identifiers to tools does: the text of a store holds that store.
-/

namespace ScriptTools.Store

/-! Texts of stores -/

namespace Row

/-- The line of a row. -/
def line (r : Row) : String := r.toJson.compact

theorem line_ne_empty (r : Row) : r.line ≠ "" := by
  intro empty
  have characters := Json.compact_toList r.toJson
  rw [show r.toJson.compact = "" from empty] at characters
  cases characters

theorem read?_line (r : Row) : (Json.Document.read? r.line).bind ofDocument? = some r := by
  rw [line, Json.Document.read?_compact]
  rfl

end Row

/-- The lines of the text are those of the rows, and an empty one after the last. -/
theorem parts_encode (s : Store) : Text.parts '\n' s.encode = s.rows.map Row.line ++ [""] := by
  have single : ∀ t ∈ s.rows.map Row.line, '\n' ∉ t.toList := by simp [Row.line, Json.newline_notMem_compact]
  have text : s.encode = String.join ((s.rows.map Row.line).map (· ++ "\n")) := by
    rw [List.map_map]
    rfl
  rw [Text.parts, text, Text.splitOn_lines single]
  simp

theorem decode?_encode (s : Store) : decode? s.encode = some s := by
  have lines : (Text.parts '\n' s.encode).filter (· ≠ "") = s.rows.map Row.line := by
    have filled : (s.rows.map Row.line).filter (· ≠ "") = s.rows.map Row.line :=
      List.filter_eq_self.mpr (by simp [Row.line_ne_empty])
    rw [parts_encode, List.filter_append, filled]
    simp
  have read : (s.rows.map Row.line).mapM (fun line => (Json.Document.read? line).bind Row.ofDocument?) = some s.rows := by
    have each : (fun line => (Json.Document.read? line).bind Row.ofDocument?) ∘ Row.line = some := by
      funext r
      rw [Function.comp_apply, Row.read?_line]
    rw [List.mapM_map, each]
    exact (List.mapM_pure (f := id)).trans (congrArg some (List.map_id _))
  have whole : ofRows? s.rows = some s := dif_pos ⟨s.ids, s.names⟩
  simp only [decode?, lines, read, Option.bind_eq_bind, Option.bind_some, whole]

/-! Calls -/

variable {s : Store} {m : Contents}

/-- A call is answered as the map answers it, and leaves a store of the map after it. -/
theorem Represents.perform (represents : s.Represents m) (call : Call) :
    ∃ next, Contents.Step m call (s.perform call).1 next ∧ (s.perform call).2.Represents next := by
  cases call with
  | save t timed =>
    cases valid : t.validate with
    | error d =>
      have failed : s.save t = .error (.invalid d) := by rw [save, valid]
      simp only [Store.perform, failed]
      exact ⟨m, .invalid valid, represents⟩
    | ok =>
      by_cases taken : ∃ id u, m id = some u ∧ u.name = t.name ∧ id ≠ t.id
      · obtain ⟨id, u, found, same, other⟩ := taken
        simp only [Store.perform, represents.save_taken valid found same other]
        exact ⟨m, .taken valid found same other, represents⟩
      · have free (id : ToolId) (u : Tool) (found : m id = some u) (same : u.name = t.name) : id = t.id := by
          by_contra other
          exact taken ⟨id, u, found, same, other⟩
        obtain ⟨after, saved, kept⟩ := represents.save_free timed valid free
        simp only [Store.perform, saved]
        exact ⟨_, .saved valid free, kept⟩
  | get id =>
    simp only [Store.perform, represents.get_eq]
    exact ⟨m, .get, represents⟩
  | find name =>
    by_cases used : ∃ id t, m id = some t ∧ t.name = name
    · obtain ⟨id, t, found, rfl⟩ := used
      simp only [Store.perform, represents.find_some found]
      exact ⟨m, .found found, represents⟩
    · have free (id : ToolId) (t : Tool) (found : m id = some t) (same : t.name = name) : False := used ⟨id, t, found, same⟩
      simp only [Store.perform, represents.find_none free]
      exact ⟨m, .absent free, represents⟩
  | list =>
    obtain ⟨ts, listed, ascending, all⟩ := represents.list_eq
    simp only [Store.perform, listed]
    exact ⟨m, .list ascending all, represents⟩
  | delete id =>
    simp only [Store.perform, represents.delete_found]
    exact ⟨_, .delete, represents.delete_represents id⟩
  | reopen =>
    simp only [Store.perform, decode?_encode]
    exact ⟨m, .reopen, represents⟩

theorem Represents.run (represents : s.Represents m) (calls : List Call) :
    ∃ after, Contents.Run m calls (s.run calls).1 after ∧ (s.run calls).2.Represents after := by
  induction calls generalizing s m with
  | nil => exact ⟨m, .nil, represents⟩
  | cons call calls ih =>
    obtain ⟨next, step, kept⟩ := represents.perform call
    obtain ⟨after, rest, last⟩ := ih kept
    exact ⟨after, .cons step rest, last⟩

theorem Represents.distinct (represents : s.Represents m) : m.Distinct :=
  ⟨fun id t found => (represents.tool id t found).1, fun _ _ _ _ => represents.id_eq_of_name⟩

/-- What a caller can rely on between two calls: every lookup succeeds, the two lookups agree, the list has
each tool once, and a call changes nothing but the tool that it names. -/
structure Coherent (s : Store) : Prop where
  get : ∀ id, ∃ found, s.get id = .ok found ∧ ∀ t, found = some t → t.id = id
  find : ∀ name, ∃ found, s.find name = .ok found ∧ ∀ t, found = some t → t.name = name
  agree : ∀ t, s.find t.name = .ok (some t) ↔ s.get t.id = .ok (some t)
  distinct : ∀ t u, s.get t.id = .ok (some t) → s.get u.id = .ok (some u) → t.name = u.name → t = u
  list : ∃ ts, s.list = .ok ts ∧ ts.Pairwise (fun t u => t.name < u.name) ∧ ∀ t, t ∈ ts ↔ s.get t.id = .ok (some t)
  invalid : ∀ t d, s.save t = .error (.invalid d) ↔ t.validate = .error d
  taken : ∀ t name, t.IsTimed → (s.save t = .error (.duplicateName name) ↔
    name = t.name ∧ t.validate = .ok () ∧ ∃ u, s.find name = .ok (some u) ∧ u.id ≠ t.id)
  refused : ∀ t timed e, (s.perform (.save t timed)).1 = .saved (.error e) → (s.perform (.save t timed)).2 = s
  saved : ∀ t after, t.IsTimed → s.save t = .ok after →
    after.get t.id = .ok (some t) ∧ after.find t.name = .ok (some t) ∧
      (∀ u, s.get t.id = .ok (some u) → u.name ≠ t.name → after.find u.name = .ok none) ∧
      ∀ id, id ≠ t.id → after.get id = s.get id
  deleted : ∀ id, ((s.delete id).1 = true ↔ ∃ t, s.get id = .ok (some t)) ∧ (s.delete id).2.get id = .ok none ∧
    ∀ other, other ≠ id → (s.delete id).2.get other = s.get other

theorem save_invalid {t : Tool} {d : Tool.Defect} : s.save t = .error (.invalid d) ↔ t.validate = .error d := by
  unfold save
  split
  next other defect => simp [defect]
  next valid => split <;> simp [valid]

namespace Represents

variable (represents : s.Represents m)
include represents

/-- A saved tool was valid and its name was in no other tool. -/
theorem of_save {t : Tool} {after : Store} (timed : t.IsTimed) (saved : s.save t = .ok after) :
    (∀ id u, m id = some u → u.name = t.name → id = t.id) ∧ after.Represents (Function.update m t.id (some t)) := by
  cases valid : t.validate with
  | error d =>
    rw [save_invalid.mpr valid] at saved
    cases saved
  | ok =>
    have free (id : ToolId) (u : Tool) (found : m id = some u) (same : u.name = t.name) : id = t.id := by
      by_contra other
      rw [represents.save_taken valid found same other] at saved
      cases saved
    obtain ⟨_, saved', kept⟩ := represents.save_free timed valid free
    cases saved.symm.trans saved'
    exact ⟨free, kept⟩

theorem save_duplicate {t : Tool} {name : String} (timed : t.IsTimed) :
    s.save t = .error (.duplicateName name) ↔
      name = t.name ∧ t.validate = .ok () ∧ ∃ u, s.find name = .ok (some u) ∧ u.id ≠ t.id := by
  constructor
  · intro refused
    cases valid : t.validate with
    | error d =>
      rw [save_invalid.mpr valid] at refused
      cases refused
    | ok =>
      by_cases taken : ∃ id u, m id = some u ∧ u.name = t.name ∧ id ≠ t.id
      · obtain ⟨id, u, found, same, other⟩ := taken
        rw [represents.save_taken valid found same other] at refused
        cases refused
        obtain ⟨rfl, _⟩ := represents.tool id u found
        exact ⟨rfl, rfl, u, represents.find_iff.mpr ⟨found, same⟩, other⟩
      · obtain ⟨_, saved, _⟩ := represents.save_free timed valid fun id u found same => by
          by_contra other
          exact taken ⟨id, u, found, same, other⟩
        rw [saved] at refused
        cases refused
  · rintro ⟨rfl, valid, u, found, other⟩
    obtain ⟨found, same⟩ := represents.find_iff.mp found
    exact represents.save_taken valid found same other

theorem coherent : s.Coherent where
  get id := ⟨m id, represents.get_eq id, fun t found => (represents.tool id t found).1⟩
  find name := by
    by_cases used : ∃ id t, m id = some t ∧ t.name = name
    · obtain ⟨id, t, found, rfl⟩ := used
      exact ⟨some t, represents.find_some found, by rintro u ⟨⟩; rfl⟩
    · exact ⟨none, represents.find_none fun id t found same => used ⟨id, t, found, same⟩, nofun⟩
  agree t := by rw [represents.find_iff, represents.get_iff, and_iff_left rfl]
  distinct t u first second same := by
    have first := represents.get_iff.mp first
    have second := represents.get_iff.mp second
    rw [represents.id_eq_of_name first second same, second] at first
    exact (Option.some.inj first).symm
  list := by
    obtain ⟨ts, listed, ascending, all⟩ := represents.list_eq
    exact ⟨ts, listed, ascending, fun t => (all t).trans represents.get_iff.symm⟩
  invalid _ _ := save_invalid
  taken _ _ timed := represents.save_duplicate timed
  refused t timed e failed := by
    cases outcome : s.save t with
    | ok after =>
      simp only [Store.perform, outcome] at failed
      cases failed
    | error _ => simp only [Store.perform, outcome]
  saved t after timed saved := by
    obtain ⟨free, kept⟩ := represents.of_save timed saved
    have here : Function.update m t.id (some t) t.id = some t := Function.update_self ..
    refine ⟨kept.get_iff.mpr here, kept.find_some here, fun u old renamed => ?_, fun id other => ?_⟩
    · refine kept.find_none fun id v found same => ?_
      rcases Contents.update_cases found with ⟨_, rfl⟩ | ⟨apart, found⟩
      · exact renamed same.symm
      · exact apart (represents.id_eq_of_name found (represents.get_iff.mp old) same)
    · rw [kept.get_eq, represents.get_eq, Function.update_of_ne other]
  deleted id := by
    have kept := represents.delete_represents id
    refine ⟨?_, ?_, fun other apart => ?_⟩
    · simp only [represents.delete_found, represents.get_iff, Option.isSome_iff_exists]
    · rw [kept.get_eq, Function.update_self]
    · rw [kept.get_eq, represents.get_eq, Function.update_of_ne apart]

end Represents

/-- Whatever series of calls a store in a file gets, its answers are those of a map from identifiers to
tools, which are determined. -/
theorem run_refines (calls : List Call) :
    ∃ m : Contents, Contents.Run (fun _ => none) calls (({} : Store).run calls).1 m ∧
      (∀ answers after, Contents.Run (fun _ => none) calls answers after →
        answers = (({} : Store).run calls).1 ∧ after = m) ∧
      (∀ id, (({} : Store).run calls).2.get id = .ok (m id)) ∧ (({} : Store).run calls).2.Coherent := by
  obtain ⟨m, run, represents⟩ := represents_empty.run calls
  exact ⟨m, run, fun _ _ other => other.unique represents_empty.distinct run, represents.get_eq, represents.coherent⟩

end ScriptTools.Store
