import ScriptTools.Proofs.Store.Contents
import ScriptTools.Tool.Database

/-!
Series of calls of a store in a file, and how a map from identifiers to tools answers them.
-/

namespace ScriptTools.Store

/-- A call of a store in a file. The times of a tool that is saved are moments of the calendar, as clocks and
readers give them (`Tool.isTimed_of_decode?`). -/
inductive Call where
  | save (t : Tool) (timed : t.IsTimed)
  | get (id : ToolId)
  | find (name : String)
  | list
  | delete (id : ToolId)
  | reopen

/-- What a call comes back with. -/
inductive Answer where
  | saved (outcome : Except StoreError Unit)
  | found (tool : Except QueryError (Option Tool))
  | listed (tools : Except QueryError (List Tool))
  | deleted (present : Bool)
  | reopened (readable : Bool)

/-- The answer to a call, and the store after it. A store is reopened from the text in its file. -/
def perform (s : Store) : Call → Answer × Store
  | .save t _ =>
    match s.save t with
    | .ok after => (.saved (.ok ()), after)
    | .error e => (.saved (.error e), s)
  | .get id => (.found (s.get id), s)
  | .find name => (.found (s.find name), s)
  | .list => (.listed s.list, s)
  | .delete id => (.deleted (s.delete id).1, (s.delete id).2)
  | .reopen =>
    match decode? s.encode with
    | some after => (.reopened true, after)
    | none => (.reopened false, s)

/-- The answers to calls one after another, and the store after them. -/
def run (s : Store) : List Call → List Answer × Store
  | [] => ([], s)
  | call :: rest =>
    let (answer, s) := s.perform call
    let (answers, s) := run s rest
    (answer :: answers, s)

namespace Contents

/-- How a map answers a call, and the map after it. -/
inductive Step : Contents → Call → Answer → Contents → Prop where
  | invalid {m : Contents} {t : Tool} {timed : t.IsTimed} {d : Tool.Defect} (defect : t.validate = .error d) :
      Step m (.save t timed) (.saved (.error (.invalid d))) m
  | taken {m : Contents} {t u : Tool} {timed : t.IsTimed} {id : ToolId} (valid : t.validate = .ok ())
      (found : m id = some u) (same : u.name = t.name) (other : id ≠ t.id) :
      Step m (.save t timed) (.saved (.error (.duplicateName t.name))) m
  | saved {m : Contents} {t : Tool} {timed : t.IsTimed} (valid : t.validate = .ok ())
      (free : ∀ id u, m id = some u → u.name = t.name → id = t.id) :
      Step m (.save t timed) (.saved (.ok ())) (Function.update m t.id (some t))
  | get {m : Contents} {id : ToolId} : Step m (.get id) (.found (.ok (m id))) m
  | found {m : Contents} {id : ToolId} {t : Tool} (found : m id = some t) :
      Step m (.find t.name) (.found (.ok (some t))) m
  | absent {m : Contents} {name : String} (free : ∀ id t, m id = some t → t.name ≠ name) :
      Step m (.find name) (.found (.ok none)) m
  | list {m : Contents} {ts : List Tool} (ascending : ts.Pairwise fun t u => t.name < u.name)
      (all : ∀ t, t ∈ ts ↔ m t.id = some t) : Step m .list (.listed (.ok ts)) m
  | delete {m : Contents} {id : ToolId} : Step m (.delete id) (.deleted (m id).isSome) (Function.update m id none)
  | reopen {m : Contents} : Step m .reopen (.reopened true) m

/-- How a map answers calls one after another. -/
inductive Run : Contents → List Call → List Answer → Contents → Prop where
  | nil {m : Contents} : Run m [] [] m
  | cons {m next after : Contents} {call : Call} {answer : Answer} {calls : List Call} {answers : List Answer}
      (step : Step m call answer next) (rest : Run next calls answers after) :
      Run m (call :: calls) (answer :: answers) after

/-- A map in which tools stand at their identifiers, and no two have one name. -/
structure Distinct (m : Contents) : Prop where
  key : ∀ id t, m id = some t → t.id = id
  name : ∀ a b t u, m a = some t → m b = some u → t.name = u.name → a = b

variable {m m₁ m₂ : Contents}

theorem nodup_of_ascending {ts : List Tool} (ascending : ts.Pairwise fun t u => t.name < u.name) : ts.Nodup :=
  ascending.imp fun {t u} less (equal : t = u) => lt_irrefl u.name (equal ▸ less)

/-- Strictly ascending names leave one order for the tools of a list. -/
theorem eq_of_ascending {ts us : List Tool} (first : ts.Pairwise fun t u => t.name < u.name)
    (second : us.Pairwise fun t u => t.name < u.name) (same : ∀ t, t ∈ ts ↔ t ∈ us) : ts = us := by
  refine ((List.perm_ext_iff_of_nodup (nodup_of_ascending first) (nodup_of_ascending second)).mpr same).eq_of_pairwise
    ?_ first second
  intro t u _ _ less greater
  exact absurd (less.trans greater) (lt_irrefl _)

/-- The answer of a map to a call, and the map after it, are determined. -/
theorem Step.unique (distinct : m.Distinct) {call : Call} {a b : Answer} (first : Step m call a m₁)
    (second : Step m call b m₂) : a = b ∧ m₁ = m₂ := by
  cases first with
  | invalid defect =>
    cases second with
    | invalid other =>
      cases defect.symm.trans other
      exact ⟨rfl, rfl⟩
    | taken valid | saved valid => cases defect.symm.trans valid
  | taken valid found same other =>
    cases second with
    | invalid defect => cases defect.symm.trans valid
    | taken => exact ⟨rfl, rfl⟩
    | saved _ free => exact absurd (free _ _ found same) other
  | saved valid free =>
    cases second with
    | invalid defect => cases defect.symm.trans valid
    | taken _ found same other => exact absurd (free _ _ found same) other
    | saved => exact ⟨rfl, rfl⟩
  | get | delete | reopen =>
    cases second
    exact ⟨rfl, rfl⟩
  | @found id t here =>
    generalize named : t.name = name at second
    cases second with
    | @found other u there =>
      have same := distinct.name id other t u here there named
      rw [same, there] at here
      cases here
      exact ⟨rfl, rfl⟩
    | absent free => exact absurd named (free id t here)
  | absent free =>
    cases second with
    | found here => exact absurd rfl (free _ _ here)
    | absent => exact ⟨rfl, rfl⟩
  | list ascending all =>
    cases second with
    | list ascending' all' =>
      rw [eq_of_ascending ascending ascending' fun t => (all t).trans (all' t).symm]
      exact ⟨rfl, rfl⟩

/-- What stands in a map after one tool is put in. -/
theorem update_cases {t u : Tool} {id : ToolId} (found : Function.update m t.id (some t) id = some u) :
    id = t.id ∧ u = t ∨ id ≠ t.id ∧ m id = some u := by
  by_cases same : id = t.id
  · subst same
    rw [Function.update_self, Option.some.injEq] at found
    exact .inl ⟨rfl, found.symm⟩
  · rw [Function.update_of_ne same] at found
    exact .inr ⟨same, found⟩

theorem Distinct.save (distinct : m.Distinct) {t : Tool} (free : ∀ id u, m id = some u → u.name = t.name → id = t.id) :
    Distinct (Function.update m t.id (some t)) where
  key id u found := by
    rcases update_cases found with ⟨rfl, rfl⟩ | ⟨_, found⟩
    · rfl
    · exact distinct.key id u found
  name a b u v first second same := by
    rcases update_cases first with ⟨left, rfl⟩ | ⟨_, old⟩ <;> rcases update_cases second with ⟨right, rfl⟩ | ⟨_, old'⟩
    · rw [left, right]
    · rw [left, free b v old' same.symm]
    · rw [right, free a u old same]
    · exact distinct.name a b u v old old' same

theorem Distinct.delete (distinct : m.Distinct) (id : ToolId) : Distinct (Function.update m id none) := by
  have kept {a : ToolId} {t : Tool} (found : Function.update m id none a = some t) : m a = some t := by
    by_cases same : a = id
    · subst same
      rw [Function.update_self] at found
      cases found
    · rwa [Function.update_of_ne same] at found
  exact ⟨fun a t found => distinct.key a t (kept found),
    fun a b t u first second => distinct.name a b t u (kept first) (kept second)⟩

theorem Step.distinct (distinct : m.Distinct) {call : Call} {a : Answer} (step : Step m call a m₁) : m₁.Distinct := by
  cases step with
  | saved _ free => exact distinct.save free
  | delete => exact distinct.delete _
  | invalid | taken | get | found | absent | list | reopen => exact distinct

theorem Run.unique (distinct : m.Distinct) {calls : List Call} {as bs : List Answer} (first : Run m calls as m₁)
    (second : Run m calls bs m₂) : as = bs ∧ m₁ = m₂ := by
  induction first generalizing bs m₂ with
  | nil =>
    cases second
    exact ⟨rfl, rfl⟩
  | cons step _ ih =>
    cases second with
    | cons step' rest' =>
      obtain ⟨rfl, rfl⟩ := step.unique distinct step'
      obtain ⟨rfl, rfl⟩ := ih (step.distinct distinct) rest'
      exact ⟨rfl, rfl⟩

end Contents

end ScriptTools.Store
