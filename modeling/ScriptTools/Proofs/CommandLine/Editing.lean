import ScriptTools.CommandLine.Command
import ScriptTools.Proofs.Store.Refinement

/-!
Sessions in which tools are added and removed. A definition adds the tool of its name or gives a new version of
it, so that a tool has what its last definition says, and its identifier and time of creation from the first one
since the name was last removed.
-/

namespace ScriptTools.CommandLine

open Files (Disk)

variable {α β : Type} {i i' : Installation}

/-- A command goes on with what its first part has come to. -/
theorem run_bind {x : Commanded α} {a : α} (first : x.run i = (.ok a, i')) (f : α → Commanded β) :
    (x >>= f).run i = (f a).run i' := by
  change (match x.run i with | (result, i') => ExceptT.bindCont f result i') = _
  rw [first]
  rfl

theorem run_get (i : Installation) : (get : Commanded Installation).run i = (.ok i, i) := rfl

theorem run_createStore (world : World) (store : Option Store) :
    (createStore).run { world, store } = (.ok (store.getD {}), { world, store := some (store.getD {}) }) := by
  cases store <;> rfl

/-- A file with a definition that loads. -/
structure Authored (s : Setting) (world : World) where
  file : String
  text : String
  definition : Definition
  read : world.disk.readText (Disk.place s.directory file) = .ok text
  loaded : Definition.load? file text = some definition

/-- What is to be changed. -/
inductive Change (s : Setting) (world : World) where
  | add (authored : Authored s world)
  | remove (name : String)

/-- A command that changes the store. Files may change from one command to the next, and clocks give moments of
the calendar. -/
structure Edit where
  config : String
  setting : Setting
  world : World
  moment : setting.now.IsMoment
  change : Change setting world

/-- A tool is added: what its author wrote, the identifier that it gets if it is new, and the time. -/
structure Addition where
  definition : Definition
  freshId : ToolId
  time : Timestamp

namespace Edit

def addition? (e : Edit) : Option Addition :=
  match e.change with
  | .add authored => some ⟨authored.definition, e.setting.freshId, e.setting.now⟩
  | .remove _ => none

def name (e : Edit) : String :=
  match e.change with
  | .add authored => authored.definition.name
  | .remove name => name

def invocation (e : Edit) : Invocation where
  config := e.config
  command :=
    match e.change with
    | .add authored => .add authored.file
    | .remove name => .remove name

/-- Gives the command to an installation with some store. -/
def perform (e : Edit) (store : Option Store) : Except CommandError Reply × Option Store :=
  let (result, after) := (CommandLine.perform e.setting e.invocation).run { world := e.world, store }
  (result, after.store)

variable {e : Edit} {a : Addition}

theorem name_eq (adds : e.addition? = some a) : e.name = a.definition.name := by
  obtain ⟨config, setting, world, moment, change⟩ := e
  cases change with
  | add authored =>
    cases adds
    rfl
  | remove name => cases adds

theorem moment_of_addition (adds : e.addition? = some a) : a.time.IsMoment := by
  obtain ⟨config, setting, world, moment, change⟩ := e
  cases change with
  | add authored =>
    cases adds
    exact moment
  | remove name => cases adds

theorem perform_add (adds : e.addition? = some a) (store : Option Store) :
    e.perform store = match (store.getD {}).define a.definition a.freshId a.time with
      | .ok revision =>
        (.ok (.text ((if revision.isUpdate then "Updated" else "Added") ++ " needle '" ++ revision.tool.name ++ "' (" ++
          revision.tool.id.text ++ ")\n")), some revision.store)
      | .error fault => (.error (.define fault), some (store.getD {})) := by
  obtain ⟨config, setting, world, moment, change⟩ := e
  cases change with
  | add authored =>
    cases adds
    obtain ⟨file, text, d, read, loaded⟩ := authored
    have done : (add setting file).run { world, store } = match (store.getD {}).define d setting.freshId setting.now with
        | .ok revision =>
          (.ok (.text ((if revision.isUpdate then "Updated" else "Added") ++ " needle '" ++ revision.tool.name ++ "' (" ++
            revision.tool.id.text ++ ")\n")), { world, store := some revision.store })
        | .error fault => (.error (.define fault), { world, store := some (store.getD {}) }) := by
      rw [add, run_bind (run_get _), read, orFail, pure_bind, loaded]
      dsimp only
      rw [run_bind (run_createStore world store)]
      cases (store.getD {}).define d setting.freshId setting.now <;> rfl
    rw [perform, CommandLine.perform, invocation, done]
    cases (store.getD {}).define d setting.freshId setting.now <;> rfl
  | remove name => cases adds

theorem perform_remove (removes : e.addition? = none) (store : Option Store) :
    e.perform store = match store with
      | none => (.error (.noDatabase e.setting.database), none)
      | some s => match s.remove e.name with
        | .error fault => (.error (.query fault), some s)
        | .ok none => (.error (.unknownTool e.name), some s)
        | .ok (some (after, tool)) => (.ok (.text ("Removed needle '" ++ tool.name ++ "'\n")), some after) := by
  obtain ⟨config, setting, world, moment, change⟩ := e
  cases change with
  | add authored => cases removes
  | remove name =>
    cases store with
    | none => rfl
    | some s =>
      have opened : (openStore setting).run { world, store := some s } = (.ok s, { world, store := some s }) := rfl
      rw [perform, CommandLine.perform, invocation]
      dsimp only
      rw [remove, run_bind opened, Edit.name]
      cases s.remove name with
      | error fault => rfl
      | ok found =>
        cases found with
        | none => rfl
        | some found => rfl

end Edit

/-! What a history says about the tools. Its last edit comes first. -/

/-- The tool that was added in the one way first and in the other way last. -/
def Addition.tool (first last : Addition) : Tool where
  id := first.freshId
  name := last.definition.name
  description := last.definition.description
  code := last.definition.code
  args := last.definition.args
  returnType := last.definition.returnType
  createdAt := first.time
  updatedAt := last.time

/-- How the tool of a name was added since it was last removed. -/
def additions (name : String) : List Edit → List Addition
  | [] => []
  | e :: earlier =>
    if e.name = name then
      match e.addition? with
      | some a => a :: additions name earlier
      | none => []
    else additions name earlier

/-- The tool of a name. -/
def current? (name : String) (history : List Edit) : Option Tool :=
  match (additions name history).getLast?, (additions name history).head? with
  | some first, some last => some (first.tool last)
  | _, _ => none

/-- The identifiers that new tools get. -/
def freshIds (edits : List Edit) : List ToolId := edits.filterMap fun e => e.addition?.map Addition.freshId

variable {e : Edit} {a : Addition} {name : String} {history : List Edit} {t : Tool}

theorem current?_eq_some_iff : current? name history = some t ↔
    ∃ first last, (additions name history).getLast? = some first ∧ (additions name history).head? = some last ∧
      t = first.tool last := by
  unfold current?
  split
  next first last atEnd atFront => simp [atEnd, atFront, eq_comm]
  next none =>
    refine iff_of_false nofun ?_
    rintro ⟨first, last, atEnd, atFront, _⟩
    exact none first last atEnd atFront

theorem mem_additions {b : Addition} (member : b ∈ additions name history) :
    b.definition.name = name ∧ ∃ e ∈ history, e.addition? = some b := by
  fun_induction additions name history with
  | case1 => cases member
  | case2 e earlier named a adds ih =>
    rcases List.mem_cons.mp member with rfl | before
    · exact ⟨(Edit.name_eq adds).symm.trans named, e, by simp, adds⟩
    · obtain ⟨same, e', inside, adds'⟩ := ih before
      exact ⟨same, e', .tail _ inside, adds'⟩
  | case3 => cases member
  | case4 e earlier other ih =>
    obtain ⟨same, e', inside, adds'⟩ := ih member
    exact ⟨same, e', .tail _ inside, adds'⟩

theorem exists_current?_iff_ne_nil : (∃ t, current? name history = some t) ↔ additions name history ≠ [] := by
  unfold current?
  cases additions name history with
  | nil => simp
  | cons a rest => simp [List.getLast?_eq_some_getLast]

/-- A name has a tool if the last edit of it was an addition. -/
theorem exists_current?_iff : (∃ t, current? name history = some t) ↔
    ∃ e a, history.find? (fun e => e.name = name) = some e ∧ e.addition? = some a := by
  rw [exists_current?_iff_ne_nil]
  fun_induction additions name history with
  | case1 => simp
  | case2 e earlier named a adds => simp [named, adds]
  | case3 e earlier named removes => simp [named, removes]
  | case4 e earlier other ih => simp [other, ih]

theorem name_of_current? (here : current? name history = some t) : t.name = name := by
  obtain ⟨first, last, _, atFront, rfl⟩ := current?_eq_some_iff.mp here
  exact (mem_additions (List.mem_of_mem_head? atFront)).1

theorem id_of_current? (here : current? name history = some t) : t.id ∈ freshIds history := by
  obtain ⟨first, last, atEnd, _, rfl⟩ := current?_eq_some_iff.mp here
  obtain ⟨_, e, inside, adds⟩ := mem_additions (List.mem_of_mem_getLast? atEnd)
  exact List.mem_filterMap.mpr ⟨e, inside, by rw [adds]; rfl⟩

theorem isTimed_of_current? (here : current? name history = some t) : t.IsTimed := by
  obtain ⟨first, last, atEnd, atFront, rfl⟩ := current?_eq_some_iff.mp here
  obtain ⟨_, _, _, adds⟩ := mem_additions (List.mem_of_mem_getLast? atEnd)
  obtain ⟨_, _, _, adds'⟩ := mem_additions (List.mem_of_mem_head? atFront)
  exact ⟨Edit.moment_of_addition adds, Edit.moment_of_addition adds'⟩

theorem current?_other (other : e.name ≠ name) : current? name (e :: history) = current? name history := by
  rw [current?, additions, if_neg other, current?]

theorem current?_remove (removes : e.addition? = none) : current? e.name (e :: history) = none := by
  rw [current?, additions, if_pos rfl, removes]
  rfl

/-- The last definition changes what its author wrote and leaves the rest. -/
theorem current?_add (adds : e.addition? = some a) : current? e.name (e :: history) =
    some (a.definition.toTool (current? e.name history) a.freshId a.time) := by
  have now : additions e.name (e :: history) = a :: additions e.name history := by
    rw [additions, if_pos rfl, adds]
  rw [current?_eq_some_iff, now]
  cases before : additions e.name history with
  | nil =>
    have none : current? e.name history = none := by simp [current?, before]
    rw [none]
    exact ⟨a, a, rfl, rfl, rfl⟩
  | cons b rest =>
    obtain ⟨first, atEnd⟩ : ∃ first, (b :: rest).getLast? = some first := ⟨_, List.getLast?_eq_some_getLast (by simp)⟩
    have some : current? e.name history = some (first.tool b) :=
      current?_eq_some_iff.mpr ⟨first, b, before ▸ atEnd, by rw [before]; rfl, rfl⟩
    have named : b.definition.name = a.definition.name :=
      (mem_additions (before ▸ List.mem_cons_self)).1.trans (Edit.name_eq adds)
    refine ⟨first, a, by rw [List.getLast?_cons_cons, atEnd], rfl, ?_⟩
    rw [some, Definition.toTool, Addition.tool, Addition.tool, named]

/-! What a session does to the store -/

/-- A store holds the tools that a history says, and nothing else. -/
def Reflects (history : List Edit) (s : Store) : Prop :=
  ∃ m : Store.Contents, s.Represents m ∧ ∀ id t, m id = some t ↔ current? t.name history = some t ∧ t.id = id

theorem reflects_nil : Reflects [] {} := ⟨_, Store.represents_empty, fun _ _ => iff_of_false nofun (by simp [current?, additions])⟩

variable {s : Store}

namespace Reflects

theorem find (reflects : Reflects history s) (name : String) : s.find name = .ok (current? name history) := by
  obtain ⟨m, represents, holds⟩ := reflects
  cases here : current? name history with
  | none =>
    refine represents.find_none fun id t found same => ?_
    have there := ((holds id t).mp found).1
    rw [same, here] at there
    cases there
  | some t =>
    obtain rfl := name_of_current? here
    exact represents.find_some ((holds t.id t).mpr ⟨here, rfl⟩)

/-- A change at the identifier of one name is none for tools of other names. -/
theorem update_other {m : Store.Contents} {k id : ToolId} {x : Option Tool} (before : ∀ u, m k = some u → u.name = name)
    (after : ∀ u, x = some u → u.name = name) (other : t.name ≠ name) :
    Function.update m k x id = some t ↔ m id = some t := by
  by_cases same : id = k
  · subst same
    rw [Function.update_self]
    exact iff_of_false (fun found => other (after t found)) fun found => other (before t found)
  · rw [Function.update_of_ne same]

/-- A tool is added, or the tool of the name gets a new version. -/
theorem save (reflects : Reflects history s) (adds : e.addition? = some a) (fresh : a.freshId ∉ freshIds history)
    (valid : (a.definition.toTool (current? e.name history) a.freshId a.time).validate = .ok ()) :
    ∃ after, s.save (a.definition.toTool (current? e.name history) a.freshId a.time) = .ok after ∧
      Reflects (e :: history) after := by
  obtain ⟨m, represents, holds⟩ := reflects
  have added : current? e.name (e :: history) = _ := current?_add adds
  have named := name_of_current? added
  have keeps (t : Tool) (here : current? e.name history = some t) :
      (a.definition.toTool (current? e.name history) a.freshId a.time).id = t.id := by
    rw [here, Definition.toTool]
  have makes (none : current? e.name history = none) :
      (a.definition.toTool (current? e.name history) a.freshId a.time).id = a.freshId := by
    rw [none, Definition.toTool]
  generalize a.definition.toTool (current? e.name history) a.freshId a.time = tool at valid added named keeps makes ⊢
  have before (u : Tool) (found : m tool.id = some u) : u.name = e.name := by
    cases here : current? e.name history with
    | none =>
      obtain ⟨there, same⟩ := (holds tool.id u).mp found
      exact absurd (makes here ▸ same ▸ id_of_current? there) fresh
    | some t =>
      have old : m t.id = some t := (holds t.id t).mpr ⟨name_of_current? here ▸ here, rfl⟩
      rw [keeps t here, old] at found
      cases found
      exact name_of_current? here
  have free (id : ToolId) (u : Tool) (found : m id = some u) (same : u.name = tool.name) : id = tool.id := by
    obtain ⟨there, rfl⟩ := (holds id u).mp found
    rw [same, named] at there
    exact (keeps u there).symm
  obtain ⟨after, saved, represents'⟩ := represents.save_free (isTimed_of_current? added) valid free
  refine ⟨after, saved, _, represents', fun id u => ?_⟩
  by_cases same : u.name = e.name
  · rw [same, added, Option.some.injEq]
    constructor
    · intro found
      rcases Store.Contents.update_cases found with ⟨rfl, rfl⟩ | ⟨apart, found⟩
      · exact ⟨rfl, rfl⟩
      · exact absurd (free id u found (same.trans named.symm)) apart
    · rintro ⟨rfl, rfl⟩
      exact Function.update_self ..
  · rw [update_other before (fun u here => Option.some.inj here ▸ named) same, current?_other (Ne.symm same), holds]

theorem delete (reflects : Reflects history s) (removes : e.addition? = none) (here : current? e.name history = some t) :
    Reflects (e :: history) (s.delete t.id).2 := by
  obtain ⟨m, represents, holds⟩ := reflects
  refine ⟨_, represents.delete_represents t.id, fun id u => ?_⟩
  have found : m t.id = some t := (holds t.id t).mpr ⟨name_of_current? here ▸ here, rfl⟩
  have named := name_of_current? here
  by_cases same : u.name = e.name
  · rw [same, current?_remove removes]
    refine iff_of_false (fun found' => ?_) nofun
    by_cases other : id = t.id
    · subst other
      rw [Function.update_self] at found'
      cases found'
    · rw [Function.update_of_ne other] at found'
      exact other (represents.id_eq_of_name found' found (same.trans named.symm))
  · rw [update_other (fun u here' => Option.some.inj (found.symm.trans here') ▸ named) (by simp) same, current?_other (Ne.symm same), holds]

end Reflects

/-- What came of an edit, with the stores before and after it. -/
structure Outcome where
  edit : Edit
  before : Option Store
  result : Except CommandError Reply
  after : Option Store

/-- Gives commands one after another, and has the last store. -/
def performAll (store : Option Store) : List Edit → List Outcome × Option Store
  | [] => ([], store)
  | e :: rest =>
    let (result, after) := e.perform store
    let (outcomes, last) := performAll after rest
    ({ edit := e, before := store, result, after } :: outcomes, last)

/-- The history after an edit, which counts if it succeeded. -/
def extend (history : List Edit) (o : Outcome) : List Edit := if o.result.isOk then o.edit :: history else history

/-- A definition is added, unless the tool would not be valid; then the store stays as it was. -/
def Outcome.Adds (o : Outcome) (a : Addition) : Prop :=
  ∃ existing, (o.before.getD {}).find a.definition.name = .ok existing ∧
    match (a.definition.toTool existing a.freshId a.time).validate with
    | .ok () => ∃ reply, o.result = .ok reply
    | .error d => o.result = .error (.define (.save (.invalid d))) ∧ o.after.getD {} = o.before.getD {}

theorem freshIds_sublist {first second : List Edit} (sub : first.Sublist second) :
    (freshIds first).Sublist (freshIds second) :=
  sub.filterMap _

theorem extend_sublist (history : List Edit) (o : Outcome) : (extend history o).Sublist (o.edit :: history) := by
  unfold extend
  split
  · exact .refl _
  · exact List.sublist_cons_self ..

/-- What one edit does. -/
theorem reflects_perform {store : Option Store} {o : Outcome} (reflects : Reflects history (store.getD {}))
    (fresh : (freshIds (e :: history)).Nodup) (performed : o = ⟨e, store, (e.perform store).1, (e.perform store).2⟩) :
    Reflects (extend history o) (o.after.getD {}) ∧ ∀ a, e.addition? = some a → o.Adds a := by
  subst performed
  cases adds : e.addition? with
  | some a =>
    have fresh : a.freshId ∉ freshIds history := by
      simp only [freshIds, List.filterMap_cons, adds, Option.map_some, List.nodup_cons] at fresh
      exact fresh.1
    have found := reflects.find e.name
    have named := Edit.name_eq adds
    cases valid : (a.definition.toTool (current? e.name history) a.freshId a.time).validate with
    | error d =>
      have refused := Store.save_invalid (s := store.getD {}).mpr valid
      have step : e.perform store = (.error (.define (.save (.invalid d))), some (store.getD {})) := by
        simp only [Edit.perform_add adds, Store.define, ← named, found, refused]
      rw [step]
      refine ⟨reflects, ?_⟩
      rintro _ ⟨⟩
      refine ⟨current? e.name history, named ▸ found, ?_⟩
      rw [valid]
      exact ⟨rfl, rfl⟩
    | ok =>
      obtain ⟨after, saved, reflects'⟩ := reflects.save adds fresh valid
      obtain ⟨reply, step⟩ : ∃ reply, e.perform store = (.ok reply, some after) := by
        simp only [Edit.perform_add adds, Store.define, ← named, found, saved]
        exact ⟨_, rfl⟩
      rw [step]
      refine ⟨reflects', ?_⟩
      rintro _ ⟨⟩
      refine ⟨current? e.name history, named ▸ found, ?_⟩
      rw [valid]
      exact ⟨reply, rfl⟩
  | none =>
    refine ⟨?_, by simp⟩
    rw [Edit.perform_remove adds]
    cases store with
    | none => exact reflects
    | some s =>
      have found := reflects.find e.name
      rw [Option.getD_some] at found
      simp only [Store.remove, found]
      cases here : current? e.name history with
      | none => exact reflects
      | some t => exact reflects.delete adds here

/-- What a session does. -/
theorem reflects_performAll {edits : List Edit} {store : Option Store} (reflects : Reflects history (store.getD {}))
    (fresh : (freshIds (edits.reverse ++ history)).Nodup) :
    Reflects ((performAll store edits).1.foldl extend history) ((performAll store edits).2.getD {}) ∧
      ∀ o ∈ (performAll store edits).1, ∀ a, o.edit.addition? = some a → o.Adds a := by
  induction edits generalizing history store with
  | nil => exact ⟨reflects, by simp [performAll]⟩
  | cons e rest ih =>
    rw [List.reverse_cons, List.append_assoc, List.singleton_append] at fresh
    have now : (freshIds (e :: history)).Nodup := fresh.sublist (freshIds_sublist (List.sublist_append_right _ _))
    obtain ⟨kept, here⟩ := reflects_perform reflects now rfl
    have shorter := extend_sublist history ⟨e, store, (e.perform store).1, (e.perform store).2⟩
    have later := fresh.sublist (freshIds_sublist ((List.Sublist.refl rest.reverse).append shorter))
    obtain ⟨last, each⟩ := ih kept later
    exact ⟨last, List.forall_mem_cons.mpr ⟨here, each⟩⟩

/-- Adding tools from definitions is an upsert by name. In a session that starts without a store, an addition
fails only if the tool would not be valid, and changes nothing then. Afterwards there is one tool for each name
whose last edit was an addition: it has what the last definition says, and the identifier and the time of creation
of the first addition since the name was last removed. -/
theorem performAll_upserts {edits : List Edit} {outcomes : List Outcome} {store : Option Store} {history : List Edit}
    (fresh : (freshIds edits).Nodup) (session : performAll none edits = (outcomes, store))
    (past : history = outcomes.foldl extend []) :
    (∀ o ∈ outcomes, ∀ a, o.edit.addition? = some a → o.Adds a) ∧
      ∃ tools, (store.getD {}).list = .ok tools ∧ tools.Pairwise (fun t u => t.name < u.name) ∧
        (∀ name, (∃ t ∈ tools, t.name = name) ↔
          ∃ e a, history.find? (fun e => e.name = name) = some e ∧ e.addition? = some a) ∧
        ∀ t ∈ tools, ∃ first last, (additions t.name history).getLast? = some first ∧
          (additions t.name history).head? = some last ∧ t = first.tool last := by
  have fresh : (freshIds (edits.reverse ++ [])).Nodup := by
    rwa [List.append_nil, freshIds, List.filterMap_reverse, List.nodup_reverse]
  have empty : Reflects [] ((none : Option Store).getD {}) := reflects_nil
  obtain ⟨⟨m, represents, holds⟩, each⟩ := reflects_performAll empty fresh
  rw [session, ← past] at holds
  rw [session] at represents each
  obtain ⟨tools, listed, ascending, all⟩ := represents.list_eq
  have member (t : Tool) : t ∈ tools ↔ current? t.name history = some t := by
    rw [all, holds, and_iff_left rfl]
  refine ⟨each, tools, listed, ascending, fun name => ?_, fun t inside => current?_eq_some_iff.mp ((member t).mp inside)⟩
  rw [← exists_current?_iff]
  constructor
  · rintro ⟨t, inside, rfl⟩
    exact ⟨t, (member t).mp inside⟩
  · rintro ⟨t, here⟩
    obtain rfl := name_of_current? here
    exact ⟨t, (member t).mpr here, rfl⟩

/-- The text of a file with a definition. -/
def draftText (code : String) : String := "name = \"a\"\nreturn_type = \"Int\"\ncode = \"" ++ code ++ "\"\n"

def draftWorld (code : String) : World where
  disk := { nodes := [(["a.toml"], .file (draftText code).toUTF8)] }

theorem readText_draftWorld (code : String) :
    (draftWorld code).disk.readText (Disk.place [] "a.toml") = .ok (draftText code) := by
  have place : Disk.place [] "a.toml" = ["a.toml"] := by decide +kernel
  have entry : (draftWorld code).disk.get? ["a.toml"] = some (.file (draftText code).toUTF8) := rfl
  have walked : (draftWorld code).disk.walkFrom true Disk.linkLimit [] ["a.toml"] = .ok ["a.toml"] := by
    have top : (draftWorld code).disk.get? [] = some .dir := rfl
    have short : ¬ Disk.nameLimit < "a.toml".utf8ByteSize := by decide
    rw [Disk.walkFrom, top]
    simp only [List.nil_append, entry, if_neg short]
    rw [if_neg (by decide), if_neg (by decide), Disk.walkFrom]
  have found : (draftWorld code).disk.locate true ["a.toml"] = .ok (["a.toml"], .file (draftText code).toUTF8) := by
    have accepted : Disk.checkPath ["a.toml"] = .ok () := by decide +kernel
    rw [Disk.locate, Disk.walk, accepted]
    simp only [bind, Except.bind, walked, entry]
    rfl
  have text : Text.ofBytes? (draftText code).toUTF8 = some (draftText code) := by
    have valid : (draftText code).toUTF8.IsValidUTF8 := (draftText code).isValidUTF8
    rw [Text.ofBytes?, String.fromUTF8?, dif_pos valid]
    rfl
  rw [place, Disk.readText, Disk.readFile, found]
  simp only [bind, Except.bind, pure, Except.pure, text]

/-- One file is added twice, with another definition in it the second time. -/
def revised : List Edit :=
  [{ config := "needle.toml"
     setting := { directory := [], database := "needles.db", now := ⟨1700000000, 0⟩, freshId := ⟨1⟩ }
     world := draftWorld "return 1"
     moment := ⟨by decide, by decide, by decide +kernel⟩
     change := .add ⟨"a.toml", _, { name := "a", code := "return 1", returnType := .int }, readText_draftWorld _,
      by decide +kernel⟩ },
   { config := "needle.toml"
     setting := { directory := [], database := "needles.db", now := ⟨1700000060, 0⟩, freshId := ⟨2⟩ }
     world := draftWorld "return 2"
     moment := ⟨by decide, by decide, by decide +kernel⟩
     change := .add ⟨"a.toml", _, { name := "a", code := "return 2", returnType := .int }, readText_draftWorld _,
      by decide +kernel⟩ }]

theorem performAll_upserts_revised : (freshIds revised).Nodup ∧
    ∃ tools, ((performAll none revised).2.getD {}).list = .ok tools ∧ tools.Pairwise (fun t u => t.name < u.name) := by
  have fresh : (freshIds revised).Nodup := by decide
  obtain ⟨_, tools, listed, ascending, _⟩ := performAll_upserts fresh rfl rfl
  exact ⟨fresh, tools, listed, ascending⟩

end ScriptTools.CommandLine
