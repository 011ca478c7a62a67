import ScriptTools.Arguments
import ScriptTools.Proofs.Lookup
import ScriptTools.Proofs.Result

/-!
Calls as they are read against the declared arguments: which arguments have a value, what they are bound to, and
the fault that ends the reading.
-/

namespace ScriptTools

namespace Tool

theorem validateArgs_eq_ok {tool : String} {seen : List String} {args : List Argument}
    (run : validateArgs tool seen args = .ok ()) :
    (∀ a ∈ args, a.name ∉ seen) ∧ (args.map Argument.name).Nodup := by
  induction args generalizing seen with
  | nil => exact ⟨nofun, List.nodup_nil⟩
  | cons a args ih =>
    rw [validateArgs] at run
    split at run
    · cases run
    · split at run
      · cases run
      · rename_i fresh
        obtain ⟨others, distinct⟩ := ih run
        have free : a.name ∉ seen := fun member => fresh (List.contains_iff_mem.mpr member)
        refine ⟨fun b member => ?_, ?_⟩
        · rcases List.mem_cons.mp member with rfl | member
          · exact free
          · exact fun before => others b member (List.mem_cons_of_mem _ before)
        · rw [List.map_cons, List.nodup_cons]
          refine ⟨fun again => ?_, distinct⟩
          obtain ⟨b, member, same⟩ := List.mem_map.mp again
          exact others b member (same ▸ List.mem_cons_self ..)

theorem nodup_of_validate {t : Tool} (valid : t.validate = .ok ()) : (t.args.map Argument.name).Nodup := by
  rw [validate] at valid
  split at valid
  · cases valid
  · exact (validateArgs_eq_ok valid).2

theorem arg?_of_mem {t : Tool} (distinct : (t.args.map Argument.name).Nodup) {a : Argument} (member : a ∈ t.args) :
    t.arg? a.name = some a :=
  find?_of_mem distinct member

theorem arg?_eq_none_iff {t : Tool} {name : String} : t.arg? name = none ↔ name ∉ t.args.map Argument.name := by
  rw [arg?, List.find?_eq_none, List.mem_map]
  constructor
  · rintro none ⟨a, member, rfl⟩
    exact none a member (decide_eq_true rfl)
  · intro absent a member same
    exact absent ⟨a, member, of_decide_eq_true same⟩

end Tool

namespace Argument

variable {raw : List (String × Json)} {a : Argument}

theorem type_of_coerce? {type : ScalarType} {v : Json} {s : Scalar} (coerced : coerce? type v = some s) :
    s.type = type := by
  cases type with
  | string =>
    cases v with
    | str | int | float | bool =>
      cases coerced
      rfl
    | _ => cases coerced
  | int =>
    cases v with
    | int | float | str =>
      obtain ⟨i, _, rfl⟩ := Option.map_eq_some_iff.mp coerced
      rfl
    | _ => cases coerced
  | float =>
    cases v with
    | int | float =>
      cases coerced
      rfl
    | str =>
      obtain ⟨x, _, rfl⟩ := Option.map_eq_some_iff.mp coerced
      rfl
    | _ => cases coerced
  | boolean =>
    cases v with
    | bool =>
      cases coerced
      rfl
    | str s =>
      rw [coerce?] at coerced
      split_ifs at coerced <;> cases coerced <;> rfl
    | _ => cases coerced

/-- The value that a call has for an argument; `null` counts as none. -/
def given? (raw : List (String × Json)) (a : Argument) : Option Json :=
  match raw.lookup a.name with
  | some .null => none
  | v => v

theorem given?_eq_none : a.given? raw = none ↔ raw.lookup a.name = none ∨ raw.lookup a.name = some .null := by
  rw [given?]
  rcases raw.lookup a.name with _ | v
  · simp
  · cases v <;> simp

theorem given?_eq_some {v : Json} : a.given? raw = some v ↔ raw.lookup a.name = some v ∧ v ≠ .null := by
  rw [given?]
  rcases raw.lookup a.name with _ | u
  · simp
  · cases u <;> simp <;> rintro rfl <;> simp

/-- What is wrong with what a call has for an argument. -/
inductive Fault (raw : List (String × Json)) (a : Argument) : ArgumentError → Prop where
  | missing (required : a.required = true) (none : a.given? raw = none) : Fault raw a (.missing a.name)
  | invalid {v : Json} (given : a.given? raw = some v) (refused : coerce? a.type v = none) :
      Fault raw a (.invalid a.name a.type v)

/-- A binding of an argument to the value that a call has for it. -/
structure Binds (raw : List (String × Json)) (a : Argument) (b : Binding) : Prop where
  name : b.name = a.name
  value : ∃ v, a.given? raw = some v ∧ coerce? a.type v = some b.value

theorem Binds.type {b : Binding} (binds : Binds raw a b) : b.value.type = a.type := by
  obtain ⟨_, _, coerced⟩ := binds.value
  exact type_of_coerce? coerced

theorem read_eq (raw : List (String × Json)) (a : Argument) :
    a.read raw =
      match a.given? raw with
      | none => if a.required then .error (.missing a.name) else .ok none
      | some v =>
        match coerce? a.type v with
        | some s => .ok (some ⟨a.name, s⟩)
        | none => .error (.invalid a.name a.type v) := by
  rw [read, given?]
  rcases raw.lookup a.name with _ | v
  · rfl
  · cases v <;> rfl

/-- An argument is passed over where it has no value and none is required. -/
theorem read_eq_none : a.read raw = .ok none ↔ a.given? raw = none ∧ a.required = false := by
  rw [read_eq]
  cases a.given? raw with
  | none => cases a.required <;> simp
  | some v => cases coerced : coerce? a.type v <;> simp [coerced]

theorem read_eq_some {b : Binding} : a.read raw = .ok (some b) ↔ a.Binds raw b := by
  rw [read_eq]
  cases given : a.given? raw with
  | none =>
    constructor
    · cases a.required <;> nofun
    · rintro ⟨_, v, some, _⟩
      cases given.symm.trans some
  | some v =>
    constructor
    · intro run
      cases coerced : coerce? a.type v with
      | none => simp [coerced] at run
      | some s =>
        simp only [coerced, Except.ok.injEq, Option.some.injEq] at run
        subst run
        exact ⟨rfl, v, given, coerced⟩
    · rintro ⟨name, u, same, coerced⟩
      cases given.symm.trans same
      simp [coerced, ← name]

theorem read_eq_error {e : ArgumentError} : a.read raw = .error e ↔ a.Fault raw e := by
  rw [read_eq]
  constructor
  · intro run
    cases given : a.given? raw with
    | none =>
      simp only [given] at run
      split at run
      next required =>
        cases run
        exact .missing required given
      next => cases run
    | some v =>
      simp only [given] at run
      cases coerced : coerce? a.type v with
      | none =>
        simp only [coerced, Except.error.injEq] at run
        subst run
        exact .invalid given coerced
      | some s => simp [coerced] at run
  · rintro (⟨required, none⟩ | ⟨given, refused⟩)
    · simp [none, required]
    · simp [given, refused]

theorem exists_read_eq_ok : (∃ b, a.read raw = .ok b) ↔ ∀ e, ¬ a.Fault raw e := by
  simp only [← read_eq_error]
  cases a.read raw <;> simp

end Argument

namespace Tool

variable {raw : List (String × Json)} {t : Tool}

/-- The arguments that a call has a value for, in the order of declaration. -/
def given (t : Tool) (raw : List (String × Json)) : List Argument := t.args.filter fun a => (a.given? raw).isSome

theorem binds_filterMap {args : List Argument} {bound : List (Option Binding)}
    (each : List.Forall₂ (fun a b => a.read raw = .ok b) args bound) :
    List.Forall₂ (Argument.Binds raw) (args.filter fun a => (a.given? raw).isSome) (bound.filterMap fun b => b) := by
  induction each with
  | nil => exact .nil
  | @cons a b args bound here _ ih =>
    cases b with
    | none =>
      obtain ⟨none, _⟩ := Argument.read_eq_none.mp here
      rw [List.filter_cons_of_neg (by simp [none])]
      exact ih
    | some b =>
      have binds := Argument.read_eq_some.mp here
      obtain ⟨v, given, _⟩ := binds.value
      rw [List.filter_cons_of_pos (by simp [given])]
      exact .cons binds ih

/-- A call that is read binds the arguments that it has a value for, among which are all that are required. -/
theorem binds_of_readArguments {read : Arguments} (run : t.readArguments raw = .ok read) :
    List.Forall₂ (Argument.Binds raw) (t.given raw) read.bindings ∧
      (∀ a ∈ t.args, a.required = true → a ∈ t.given raw) ∧
        read.ignored = (raw.map Prod.fst).filter fun name => (t.arg? name).isNone := by
  obtain ⟨bound, reads, rest⟩ := bind_eq_ok.mp run
  cases rest
  have each := mapM_eq_ok_iff.mp reads
  refine ⟨binds_filterMap each, fun a member required => List.mem_filter.mpr ⟨member, ?_⟩, rfl⟩
  rw [Option.isSome_iff_ne_none]
  intro none
  obtain ⟨b, here⟩ := exists_of_forall₂ each a member
  cases (Argument.read_eq_error.mpr (.missing required none)).symm.trans here

theorem readArguments_eq_error {e : ArgumentError} :
    t.readArguments raw = .error e ↔ t.args.mapM (Argument.read raw) = .error e := by
  rw [readArguments]
  cases t.args.mapM (Argument.read raw) <;> simp [bind, Except.bind, pure, Except.pure]

/-- A call is refused for the first argument in the order of declaration that has a fault. -/
theorem readArguments_eq_error_iff {e : ArgumentError} :
    t.readArguments raw = .error e ↔
      ∃ before a after, t.args = before ++ a :: after ∧ (∀ b ∈ before, ∀ e, ¬ b.Fault raw e) ∧ a.Fault raw e := by
  simp only [readArguments_eq_error, mapM_eq_error_iff, Argument.exists_read_eq_ok, Argument.read_eq_error]

/-- A call is read when no argument has a fault. -/
theorem exists_readArguments_eq_ok (fine : ∀ a ∈ t.args, ∀ e, ¬ a.Fault raw e) : ∃ read, t.readArguments raw = .ok read := by
  cases run : t.readArguments raw with
  | ok read => exact ⟨read, rfl⟩
  | error e =>
    obtain ⟨before, a, after, split, _, fault⟩ := readArguments_eq_error_iff.mp run
    exact absurd fault (fine a (by simp [split]) e)

theorem exists_readArguments_eq_error {a : Argument} {e : ArgumentError} (member : a ∈ t.args) (fault : a.Fault raw e) :
    ∃ e, t.readArguments raw = .error e := by
  simp only [readArguments_eq_error, exists_mapM_eq_error_iff]
  exact ⟨a, member, e, Argument.read_eq_error.mpr fault⟩

/-! Bindings -/

section Bound

variable {read : Arguments} (run : t.readArguments raw = .ok read)
include run

theorem names_of_readArguments : read.bindings.map Binding.name = (t.given raw).map Argument.name := by
  have names := (binds_of_readArguments run).1.imp fun _ _ (binds : Argument.Binds raw _ _) => binds.name.symm
  rw [← List.forall₂_map_right_iff, ← List.forall₂_map_left_iff, List.forall₂_eq_eq_eq] at names
  exact names.symm

theorem nodup_of_readArguments (valid : t.validate = .ok ()) : (read.bindings.map Binding.name).Nodup := by
  rw [names_of_readArguments run]
  exact (nodup_of_validate valid).sublist (List.filter_sublist.map _)

theorem exists_binds_of_mem {b : Binding} (member : b ∈ read.bindings) : ∃ a ∈ t.args, a.Binds raw b := by
  obtain ⟨a, inside, binds⟩ := exists_mem_of_forall₂ (binds_of_readArguments run).1 b member
  exact ⟨a, List.mem_of_mem_filter inside, binds⟩

theorem exists_binding_of_required {a : Argument} (member : a ∈ t.args) (required : a.required = true) :
    ∃ b ∈ read.bindings, b.name = a.name := by
  have given := List.mem_map_of_mem (f := Argument.name) ((binds_of_readArguments run).2.1 a member required)
  rw [← names_of_readArguments run] at given
  exact List.mem_map.mp given

/-- An argument without a binding has no value in the call. -/
theorem given?_of_unbound {a : Argument} (member : a ∈ t.args)
    (unbound : (read.bindings.find? fun b => b.name = a.name) = none) : a.given? raw = none := by
  by_contra some
  have given : a ∈ t.given raw := List.mem_filter.mpr ⟨member, Option.isSome_iff_ne_none.mpr some⟩
  have named := List.mem_map_of_mem (f := Argument.name) given
  rw [← names_of_readArguments run] at named
  obtain ⟨b, inside, name⟩ := List.mem_map.mp named
  exact List.find?_eq_none.mp unbound b inside (decide_eq_true name)

end Bound

end Tool

end ScriptTools
