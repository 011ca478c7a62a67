import Mathlib.Data.String.Basic
import ScriptTools.Executor
import ScriptTools.Proofs.Tool.Given

/-!
The stages of a call agree: what is read from its arguments passes the checks before the run, and a source can be
written for it unless a name cannot be bound in a script or a number has no literal.
-/

namespace ScriptTools

open Tool (readArguments)

namespace Executor

variable {t : Tool} {bindings : List Binding}

/-- Bindings of declared arguments to values of their types are in order, when no required one is left out. -/
theorem validate_eq_ok (valid : t.validate = .ok ())
    (typed : ∀ b ∈ bindings, ∃ a, t.arg? b.name = some a ∧ b.value.type = a.type)
    (complete : ∀ a ∈ t.args, a.required = true → ∃ b ∈ bindings, b.name = a.name) : validate t bindings = .ok () := by
  have checked : bindings.forM (checkBinding t) = .ok () := forM_eq_ok fun b member => by
    obtain ⟨a, found, type⟩ := typed b member
    rw [checkBinding, found]
    exact if_pos type
  have present : (t.args.find? fun a => a.required && !bindings.any fun b => b.name = a.name) = none := by
    rw [List.find?_eq_none]
    intro a member missing
    obtain ⟨required, absent⟩ := Bool.and_eq_true_iff.mp missing
    obtain ⟨b, inside, name⟩ := complete a member required
    rw [List.any_eq_true.mpr ⟨b, inside, decide_eq_true name⟩] at absent
    cases absent
  rw [validate, valid, checked, present]
  rfl

end Executor

namespace Source

variable {t : Tool} {bindings : List Binding}

/-- A value without a literal. -/
def Unwritable (v : Scalar) : Prop := ∃ x, v = .float x ∧ x.isFinite = false

theorem exists_literal_eq_error {name : String} {v : Scalar} : (∃ e, literal name v = .error e) ↔ Unwritable v := by
  cases v with
  | float x => cases finite : x.isFinite <;> simp [literal, Unwritable, finite]
  | _ => simp [literal, Unwritable]

theorem exists_boundLiteral_eq_error {a : Argument} :
    (∃ e, boundLiteral bindings a = .error e) ↔
      ∃ b, (bindings.find? fun b => b.name = a.name) = some b ∧ Unwritable b.value := by
  rw [boundLiteral]
  cases bindings.find? fun b => b.name = a.name with
  | none => simp
  | some b => simpa using exists_literal_eq_error

theorem exists_line_eq_error {a : Argument} :
    (∃ e, line bindings a = .error e) ↔ isIdentifier a.name = false ∨ ∃ e, boundLiteral bindings a = .error e := by
  rw [line]
  cases isIdentifier a.name with
  | false => exact ⟨fun _ => .inl rfl, fun _ => ⟨_, rfl⟩⟩
  | true => cases boundLiteral bindings a <;> simp [bind, Except.bind, pure, Except.pure]

/-- A source cannot be written when one of its lines cannot. -/
theorem exists_build_eq_error :
    (∃ e, build bindings t = .error e) ↔ ∃ a ∈ t.args, ∃ e, line bindings a = .error e := by
  rw [← exists_mapM_eq_error_iff, build]
  cases t.args.mapM (line bindings) <;> simp [bind, Except.bind, pure, Except.pure]

/-- Bindings of declared arguments, one for each name, leave a source that cannot be written only for a name that
cannot be bound or a value without a literal. -/
theorem exists_build_eq_error_iff (distinct : (bindings.map Binding.name).Nodup)
    (declared : ∀ b ∈ bindings, ∃ a ∈ t.args, b.name = a.name) :
    (∃ e, build bindings t = .error e) ↔
      (∃ a ∈ t.args, isIdentifier a.name = false) ∨ ∃ b ∈ bindings, Unwritable b.value := by
  simp only [exists_build_eq_error, exists_line_eq_error, exists_boundLiteral_eq_error]
  constructor
  · rintro ⟨a, member, name | ⟨b, found, unwritable⟩⟩
    · exact .inl ⟨a, member, name⟩
    · exact .inr ⟨b, List.mem_of_find?_eq_some found, unwritable⟩
  · rintro (⟨a, member, name⟩ | ⟨b, inside, unwritable⟩)
    · exact ⟨a, member, .inl name⟩
    · obtain ⟨a, member, name⟩ := declared b inside
      exact ⟨a, member, .inr ⟨b, name ▸ find?_of_mem distinct inside, unwritable⟩⟩

end Source

namespace Tool

variable {raw : List (String × Json)} {t : Tool} {read : Arguments}

theorem validate_of_readArguments (valid : t.validate = .ok ()) (run : t.readArguments raw = .ok read) :
    Executor.validate t read.bindings = .ok () := by
  refine Executor.validate_eq_ok valid (fun b member => ?_) fun a => exists_binding_of_required run
  obtain ⟨a, inside, binds⟩ := exists_binds_of_mem run member
  exact ⟨a, binds.name ▸ arg?_of_mem (nodup_of_validate valid) inside, binds.type⟩

theorem exists_build_eq_error_of_readArguments (valid : t.validate = .ok ()) (run : t.readArguments raw = .ok read) :
    (∃ e, Source.build read.bindings t = .error e) ↔
      (∃ a ∈ t.args, Source.isIdentifier a.name = false) ∨ ∃ b ∈ read.bindings, Source.Unwritable b.value := by
  refine Source.exists_build_eq_error_iff (nodup_of_readArguments run valid) fun b member => ?_
  obtain ⟨a, inside, binds⟩ := exists_binds_of_mem run member
  exact ⟨a, inside, binds.name⟩

/-- How the later stages of a call take what was read from its arguments. -/
structure Agrees (t : Tool) (raw : List (String × Json)) (read : Arguments) : Prop where
  validated : Executor.validate t read.bindings = .ok ()
  bindings : List.Forall₂ (fun a b => a.Binds raw b ∧ b.value.type = a.type) (t.given raw) read.bindings
  distinct : (read.bindings.map Binding.name).Nodup
  ascending : read.ignored.Pairwise (· < ·)
  ignored : ∀ name, name ∈ read.ignored ↔ name ∈ raw.map Prod.fst ∧ name ∉ t.args.map Argument.name
  written : (∃ e, Source.build read.bindings t = .error e) ↔
    (∃ a ∈ t.args, Source.isIdentifier a.name = false) ∨
      ∃ b ∈ read.bindings, ∃ x, b.value = .float x ∧ x.isFinite = false

theorem agrees_of_readArguments (valid : t.validate = .ok ()) (ascending : raw.Pairwise fun a b => a.1 < b.1)
    (run : t.readArguments raw = .ok read) : t.Agrees raw read where
  validated := validate_of_readArguments valid run
  bindings := (binds_of_readArguments run).1.imp fun _ _ binds => ⟨binds, binds.type⟩
  distinct := nodup_of_readArguments run valid
  ascending := by
    rw [(binds_of_readArguments run).2.2]
    exact (List.pairwise_map.mpr ascending).filter _
  ignored name := by
    rw [(binds_of_readArguments run).2.2, List.mem_filter, Option.isNone_iff_eq_none, arg?_eq_none_iff]
  written := exists_build_eq_error_of_readArguments valid run

/-- Whatever object of arguments a tool in order is called with (the names in an object ascend,
`Json.ascending_sortFields`): when they are read, every later stage takes what was read as it is declared; and
they are not read exactly for the fault of the first argument in the order of declaration that has one. -/
theorem readArguments_agrees (valid : t.validate = .ok ()) (ascending : raw.Pairwise fun a b => a.1 < b.1) :
    (∀ read, t.readArguments raw = .ok read → t.Agrees raw read) ∧
      ∀ e, t.readArguments raw = .error e ↔
        ∃ before a after, t.args = before ++ a :: after ∧ (∀ b ∈ before, ∀ e, ¬ b.Fault raw e) ∧ a.Fault raw e :=
  ⟨fun _ run => agrees_of_readArguments valid ascending run, fun _ => readArguments_eq_error_iff⟩

/-- A tool with a required argument and two that may be left out, of which the first has a default. -/
def scaled : Tool :=
  { id := default, name := "scaled", code := "return count * ratio", returnType := .float, createdAt := default,
    updatedAt := default,
    args := [{ name := "count", type := .int },
      { name := "ratio", type := .float, required := false, defaultValue := some "0.5" },
      { name := "flag", type := .boolean, required := false }] }

/-- A number in a text, a `null`, a number without a literal, and a name that no argument has. -/
def scaledArguments : List (String × Json) :=
  [("count", .str " 10 "), ("flag", .null), ("ratio", .str "inf"), ("unit", .int 1)]

theorem readArguments_agrees_scaled :
    scaled.validate = .ok () ∧ (scaledArguments.Pairwise fun a b => a.1 < b.1) ∧
      ∃ read, scaled.readArguments scaledArguments = .ok read ∧ scaled.Agrees scaledArguments read := by
  have valid : scaled.validate = .ok () := by decide +kernel
  have ascending : scaledArguments.Pairwise fun a b => a.1 < b.1 := by decide +kernel
  obtain ⟨read, run⟩ : ∃ read, scaled.readArguments scaledArguments = .ok read := ⟨_, rfl⟩
  exact ⟨valid, ascending, read, run, (readArguments_agrees valid ascending).1 read run⟩

end Tool

end ScriptTools
