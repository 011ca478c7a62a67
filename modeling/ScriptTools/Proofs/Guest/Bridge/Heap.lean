import Mathlib.Logic.Relation
import ScriptTools.Proofs.Guest.Bridge.Enumeration

/-!
Which values of a script have a value for the host, when tables may stand in each other in any way: shared, or in a
circle. What a value leads to through the values of tables decides, and so does the longest chain of tables on the
way, so that nothing from which a circle of tables can be reached has a value for the host.
-/

namespace ScriptTools.Guest

open Relation (ReflTransGen TransGen)

/-- A value other than a table that has a value for the host, or a table. -/
def Value.IsPlain : Value → Prop
  | .nil | .bool _ | .string _ | .number (.float _) | .ref (.table _) => True
  | .number (.int i) => i.toInt.natAbs ≤ 2 ^ 53
  | .ref _ => False

/-- A key that has a text. -/
def Key.IsNamed : Key → Prop
  | .string _ | .int _ | .float _ => True
  | .bool _ | .ref _ => False

/-- The tables of a state. -/
def State.heap {World : Type} (s : State World) (id : Nat) : Table := s.tables[id]?.getD {}

namespace Bridge

variable {tables : Nat → Table} {order : Nat → List (Key × Value)} {convert : Value → Except Defect HostValue}
  {entries : List (Key × Value)} {length levels n id : Nat} {ids : List Nat} {k : Key} {u v : Value}

/-- The keys are exactly the integers from `1` to some number. -/
def IsSequence (entries : List (Key × Value)) : Prop :=
  ∃ n : Nat, ∀ k, k ∈ entries.map Prod.fst ↔ ∃ i : Int64, k = .int i ∧ 1 ≤ i.toInt ∧ i.toInt ≤ n

/-- A table has an entry with the second value. -/
inductive Contains (tables : Nat → Table) : Value → Value → Prop
  | entry {id : Nat} {e : Key × Value} (member : e ∈ (tables id).entries) : Contains tables (.table id) e.2

/-- Tables of which the first is a value and each other one the value of an entry of the one before. -/
inductive Chain (tables : Nat → Table) : Value → List Nat → Prop
  | one (id : Nat) : Chain tables (.table id) [id]
  | next {id : Nat} {e : Key × Value} {ids : List Nat} (member : e ∈ (tables id).entries)
      (chain : Chain tables e.2 ids) : Chain tables (.table id) (id :: ids)

/-- What may cross to the host when tables are nested a number of levels deep. -/
structure Crosses (tables : Nat → Table) (levels : Nat) (v : Value) : Prop where
  shallow : ∀ ids, Chain tables v ids → ids.length ≤ levels
  plain : ∀ u, ReflTransGen (Contains tables) v u → u.IsPlain
  keyed : ∀ id, ReflTransGen (Contains tables) v (.table id) →
    IsSequence (tables id).entries ∨ ∀ e ∈ (tables id).entries, e.1.IsNamed

/-! One table -/

theorem exists_keyText_eq_ok_iff : (∃ text, keyText k = .ok text) ↔ k.IsNamed := by
  cases k <;> simp [keyText, Key.IsNamed]

/-- Whether a table has a value for the host depends neither on the order of its entries nor on its length. -/
theorem exists_tableValue_eq_ok_iff : (∃ w, tableValue convert entries length = .ok w) ↔
    ∀ e ∈ entries, e.1.IsNamed ∧ ∃ x, convert e.2 = .ok x := by
  simp only [tableValue_eq_ok_iff, ← exists_keyText_eq_ok_iff]
  constructor
  · rintro ⟨w, ⟨placed, _, each, _⟩ | ⟨_, fields, each, _⟩⟩ e member
    · obtain ⟨p, place, ok⟩ := exists_of_forall₂ each e member
      obtain ⟨i, key, _⟩ := key_of_place? place
      exact ⟨⟨toString i.toInt, by rw [key, keyText]⟩, p.2, ok⟩
    · obtain ⟨f, text, ok⟩ := exists_of_forall₂ each e member
      exact ⟨⟨f.1, text⟩, f.2, ok⟩
  · intro each
    by_cases unplaced : places? entries length = none
    · have fields (e : Key × Value) (member : e ∈ entries) :
          ∃ f : String × HostValue, keyText e.1 = .ok f.1 ∧ convert e.2 = .ok f.2 := by
        obtain ⟨⟨text, named⟩, x, ok⟩ := each e member
        exact ⟨(text, x), named, ok⟩
      obtain ⟨fields, each⟩ := exists_forall₂_of_forall_mem fields
      exact ⟨_, .inr ⟨unplaced, fields, each, rfl⟩⟩
    · obtain ⟨full, places⟩ := places?_ne_none_iff.mp unplaced
      have placed (e : Key × Value) (member : e ∈ entries) :
          ∃ p : Nat × HostValue, place? length e.1 = some p.1 ∧ convert e.2 = .ok p.2 := by
        obtain ⟨i, place⟩ := places e member
        obtain ⟨_, x, ok⟩ := each e member
        exact ⟨(i, x), place, ok⟩
      obtain ⟨placed, each⟩ := exists_forall₂_of_forall_mem placed
      exact ⟨_, .inl ⟨placed, full, each, rfl⟩⟩

theorem IsSequence.isNamed (sequence : IsSequence entries) : ∀ e ∈ entries, e.1.IsNamed := by
  intro e member
  obtain ⟨n, keys⟩ := sequence
  obtain ⟨i, key, _⟩ := (keys e.1).mp (List.mem_map.mpr ⟨e, member, rfl⟩)
  rw [key]
  trivial

/-! What crosses -/

theorem Crosses.isNamed (crosses : Crosses tables levels (.table id)) : ∀ e ∈ (tables id).entries, e.1.IsNamed :=
  (crosses.keyed id .refl).elim IsSequence.isNamed fun named => named

theorem Crosses.entry (crosses : Crosses tables (levels + 1) (.table id)) {e : Key × Value}
    (member : e ∈ (tables id).entries) : Crosses tables levels e.2 where
  shallow _ chain := Nat.le_of_succ_le_succ (crosses.shallow _ (.next member chain))
  plain _ reaches := crosses.plain _ (.head (.entry member) reaches)
  keyed _ reaches := crosses.keyed _ (.head (.entry member) reaches)

/-- What a value leads to is the value itself, or something that the value of an entry leads to. -/
theorem reaches_iff : ReflTransGen (Contains tables) (.table id) v ↔
    v = .table id ∨ ∃ e ∈ (tables id).entries, ReflTransGen (Contains tables) e.2 v := by
  rw [ReflTransGen.cases_head_iff]
  constructor
  · rintro (rfl | ⟨u, ⟨member⟩, reaches⟩)
    · exact .inl rfl
    · exact .inr ⟨_, member, reaches⟩
  · rintro (rfl | ⟨e, member, reaches⟩)
    · exact .inl rfl
    · exact .inr ⟨e.2, .entry member, reaches⟩

/-- A table crosses when its keys have texts and its values cross one level deeper. -/
theorem crosses_table_iff : Crosses tables (levels + 1) (.table id) ↔
    ∀ e ∈ (tables id).entries, e.1.IsNamed ∧ Crosses tables levels e.2 := by
  constructor
  · exact fun crosses e member => ⟨crosses.isNamed e member, crosses.entry member⟩
  · intro each
    refine ⟨fun ids chain => ?_, fun u reaches => ?_, fun inner reaches => ?_⟩
    · cases chain with
      | one => exact Nat.succ_le_succ (Nat.zero_le levels)
      | next member chain => exact Nat.succ_le_succ ((each _ member).2.shallow _ chain)
    · rcases reaches_iff.mp reaches with rfl | ⟨e, member, reaches⟩
      · trivial
      · exact (each e member).2.plain u reaches
    · rcases reaches_iff.mp reaches with same | ⟨e, member, reaches⟩
      · cases same
        exact .inr fun e member => (each e member).1
      · exact (each e member).2.keyed inner reaches

theorem not_crosses_table : ¬ Crosses tables 0 (.table id) :=
  fun crosses => absurd (crosses.shallow [id] (.one id)) (Nat.not_succ_le_zero 0)

/-- A value that is no table leads nowhere. -/
theorem crosses_of_forall_ne (noTable : ∀ id, v ≠ .table id) : Crosses tables levels v ↔ v.IsPlain := by
  have alone {u : Value} (reaches : ReflTransGen (Contains tables) v u) : u = v := by
    rcases reaches.cases_head with same | ⟨_, ⟨_⟩, _⟩
    · exact same.symm
    · exact absurd rfl (noTable _)
  refine ⟨fun crosses => crosses.plain v .refl, fun plain => ⟨fun ids chain => ?_, fun u reaches => ?_, fun id reaches => ?_⟩⟩
  · cases chain <;> exact absurd rfl (noTable _)
  · exact alone reaches ▸ plain
  · exact absurd (alone reaches).symm (noTable id)

theorem exists_toHost_eq_ok_iff_isPlain (noTable : ∀ id, v ≠ .table id) :
    (∃ w, toHost tables levels v = .ok w) ↔ v.IsPlain := by
  have limit : exactLimit = 2 ^ 53 := rfl
  cases v with
  | nil => simp [toHost, Value.IsPlain]
  | bool b => simp [toHost, Value.IsPlain]
  | string s => simp [toHost, Value.IsPlain]
  | number m =>
    cases m with
    | float x => simp [toHost, Value.IsPlain]
    | int i =>
      rw [toHost, Value.IsPlain, limit]
      split
      next exact => exact iff_of_true ⟨_, rfl⟩ exact
      next large => exact iff_of_false (by simp) large
  | ref r =>
    cases r with
    | table id => exact absurd rfl (noTable id)
    | _ => exact iff_of_false (by simp [toHost]) id

/-- Exactly what crosses has a value for the host, in whatever order the entries of the tables come. -/
theorem exists_toHostIn_eq_ok_iff (enumerates : Enumerates tables order) :
    (∃ w, toHostIn tables order levels v = .ok w) ↔ Crosses tables levels v := by
  induction levels generalizing v with
  | zero =>
    by_cases table : ∃ id, v = .table id
    · obtain ⟨id, rfl⟩ := table
      exact iff_of_false (by simp [Value.table, toHostIn, toHost]) not_crosses_table
    · have noTable := not_exists.mp table
      rw [toHostIn_of_forall_ne noTable, exists_toHost_eq_ok_iff_isPlain noTable, crosses_of_forall_ne noTable]
  | succ levels ih =>
    by_cases table : ∃ id, v = .table id
    · obtain ⟨id, rfl⟩ := table
      rw [crosses_table_iff, Value.table, toHostIn, exists_tableValue_eq_ok_iff]
      simp only [ih, (enumerates id).mem_iff]
    · have noTable := not_exists.mp table
      rw [toHostIn_of_forall_ne noTable, exists_toHost_eq_ok_iff_isPlain noTable, crosses_of_forall_ne noTable]

/-! Circles -/

/-- A chain of at least a number of tables starts at a value. -/
def Deep (tables : Nat → Table) (n : Nat) (v : Value) : Prop := ∃ ids, Chain tables v ids ∧ n ≤ ids.length

theorem Deep.of_contains (deep : Deep tables n u) (contains : Contains tables v u) : Deep tables (n + 1) v := by
  obtain ⟨ids, chain, long⟩ := deep
  obtain ⟨member⟩ := contains
  exact ⟨_, .next member chain, Nat.succ_le_succ long⟩

theorem Deep.of_reaches (deep : Deep tables n u) (reaches : ReflTransGen (Contains tables) v u) : Deep tables n v := by
  induction reaches using ReflTransGen.head_induction_on with
  | refl => exact deep
  | head contains _ ih =>
    obtain ⟨ids, chain, long⟩ := ih.of_contains contains
    exact ⟨ids, chain, Nat.le_of_succ_le long⟩

/-- From a table in a circle chains of any length start. -/
theorem deep_of_circle (circle : TransGen (Contains tables) u u) (n : Nat) : Deep tables n u := by
  obtain ⟨next, contains, back⟩ := TransGen.head'_iff.mp circle
  induction n with
  | zero =>
    obtain ⟨member⟩ := contains
    exact ⟨_, .one _, Nat.zero_le _⟩
  | succ n ih => exact (ih.of_reaches back).of_contains contains

theorem Crosses.not_circle (crosses : Crosses tables levels v) (reaches : ReflTransGen (Contains tables) v u) :
    ¬ TransGen (Contains tables) u u := by
  intro circle
  obtain ⟨ids, chain, long⟩ := (deep_of_circle circle (levels + 1)).of_reaches reaches
  exact absurd (crosses.shallow ids chain) (Nat.not_le.mpr long)

end Bridge

open Bridge

/-- The way to the host has an end for every value in every memory, however its tables stand in each other, and leaves
the memory as it is. It ends with a value exactly for what crosses when tables are nested at most 64 levels deep, in
whatever order the entries of the tables come; from where a circle of tables can be reached, it ends with a defect. -/
theorem toHost_crosses {World : Type} (s : State World) (v : Value) : ∃ r, toHost v s = .done r s ∧
    ((∃ w, r = .ok w) ↔ Crosses s.heap 64 v) ∧
    (∀ u, ReflTransGen (Contains s.heap) v u → TransGen (Contains s.heap) u u → ∃ d, r = .error d) ∧
    ∀ order, Enumerates s.heap order → ((∃ w, toHostIn s.heap order 64 v = .ok w) ↔ Crosses s.heap 64 v) := by
  have ends : (∃ w, Bridge.toHost s.heap 64 v = .ok w) ↔ Crosses s.heap 64 v := by
    rw [← toHostIn_entries, exists_toHostIn_eq_ok_iff fun id => .refl _]
  refine ⟨Bridge.toHost s.heap 64 v, rfl, ends, fun u reaches circle => ?_, fun order => exists_toHostIn_eq_ok_iff⟩
  cases result : Bridge.toHost s.heap 64 v with
  | error d => exact ⟨d, rfl⟩
  | ok w => exact absurd circle ((ends.mp ⟨w, result⟩).not_circle reaches)

end ScriptTools.Guest
