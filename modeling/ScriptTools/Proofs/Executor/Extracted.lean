import ScriptTools.Proofs.Decimal.Value
import ScriptTools.Proofs.Executor.Refused
import ScriptTools.Proofs.Guest.Bridge.Tables
import ScriptTools.Proofs.Guest.Locals

/-!
What the host makes of the first value of a script. A value is read as one of the declared type or not at all: no type
is turned into another, and no number into a different one. So whatever a run comes to has the declared type of the
tool's result, and is the number that the script has given.
-/

namespace ScriptTools

open Guest (Value)

/-- The number that a value of a script is, if it is one and finite. -/
def Guest.Value.rational? : Value → Option ℚ
  | .number (.int i) => some i.toInt
  | .number (.float x) => if x.isFinite then some (Decimal.value x) else none
  | _ => none

/-- The number that a value of a declared type is, if it is one and finite. -/
def Scalar.rational? : Scalar → Option ℚ
  | .int i => some i.toInt
  | .float x => if x.isFinite then some (Decimal.value x) else none
  | _ => none

/-- How the value of a script is read as one of a declared type. -/
inductive Extracts : ScalarType → Value → Scalar → Prop
  | text (s : String) : Extracts .string (.text s) (.string s)
  /-- Bytes that are no text are repaired. -/
  | bytes {b : ByteArray} (noText : ∀ s : String, b ≠ s.toUTF8) : Extracts .string (.string b) (.string (Text.ofBytesRepaired b))
  | boolean (b : Bool) : Extracts .boolean (.bool b) (.boolean b)
  | int {i : Int64} (exact : i.toInt.natAbs ≤ 2 ^ 53) : Extracts .int (.int i) (.int i)
  | intOfFloat {x : Float} {i : Int64} (finite : x.isFinite = true) (whole : Decimal.value x = i.toInt) :
      Extracts .int (.float x) (.int i)
  | float {x : Float} (finite : x.isFinite = true) : Extracts .float (.float x) (.float x)
  /-- The double is the same number; zero has no sign. -/
  | floatOfInt {i : Int64} {x : Float} (exact : i.toInt.natAbs ≤ 2 ^ 53) (finite : x.isFinite = true)
      (same : Decimal.value x = i.toInt) (sign : Decimal.isNegative x = decide (i.toInt < 0)) :
      Extracts .float (.int i) (.float x)

namespace Extracts

variable {type : ScalarType} {v : Value} {r : Scalar}

theorem type_eq (extracts : Extracts type v r) : r.type = type := by cases extracts <;> rfl

/-- A number stays the number that it is. -/
theorem rational?_eq (extracts : Extracts type v r) : r.rational? = v.rational? := by
  cases extracts with
  | intOfFloat finite whole => simp [Scalar.rational?, Value.float, Value.rational?, finite, whole]
  | floatOfInt exact finite same sign => simp [Scalar.rational?, Value.int, Value.rational?, finite, same]
  | _ => rfl

end Extracts

namespace Sandbox

open Guest.Bridge (depthLimit)

variable {World : Type} {type : ScalarType} {v : Value} {r : Scalar} {tables : Nat → Guest.Table} {levels : Nat}
  {out : Except Guest.Bridge.Defect HostValue}

theorem result_eq_some_iff : result type out = .ok (some r) ↔ ∃ w, out = .ok w ∧ w.scalar? type = some r := by
  unfold result
  split
  · simp
  · cases type <;> simp [HostValue.scalar?]
  · next w _ =>
    cases read : w.scalar? type <;> simp [read]

theorem result_eq_none_iff : result type out = .ok none ↔ out = .ok .nil := by
  unfold result
  split
  · simp
  · simp
  · next w other =>
    cases read : w.scalar? type <;> simpa [read] using other

/-- A result that is no value is one of the wrong type. -/
theorem result_cases (type : ScalarType) (out : Except Guest.Bridge.Defect HostValue) :
    result type out = .ok none ∨ (∃ r, result type out = .ok (some r)) ∨ ∃ found, result type out = .error (.mismatch type found) := by
  unfold result
  split
  · exact .inr (.inr ⟨_, rfl⟩)
  · exact .inl rfl
  · next w _ =>
    cases read : w.scalar? type with
    | some r => exact .inr (.inl ⟨r, rfl⟩)
    | none => exact .inr (.inr ⟨_, rfl⟩)

/-- A table becomes a list or a map, and so neither nothing nor a value of a declared type. -/
theorem toHost_table {id : Nat} {w : HostValue} (ok : Guest.Bridge.toHost tables levels (.table id) = .ok w) :
    w ≠ .nil ∧ ∀ type, w.scalar? type = none := by
  cases levels with
  | zero => cases ok
  | succ levels =>
    obtain ⟨_, ⟨items, rfl, _⟩ | ⟨fields, rfl, _⟩⟩ := Guest.Bridge.of_tableValue_eq_ok ok
    · exact ⟨nofun, fun type => by cases type <;> rfl⟩
    · exact ⟨nofun, fun type => by cases type <;> rfl⟩

theorem toHost_eq_nil_iff : Guest.Bridge.toHost tables levels v = .ok .nil ↔ v = .nil := by
  refine ⟨fun ok => ?_, fun same => by rw [same, Guest.Bridge.toHost]⟩
  cases v with
  | nil => rfl
  | bool b => simp [Guest.Bridge.toHost] at ok
  | string s => simp [Guest.Bridge.toHost] at ok
  | number n =>
    cases n with
    | float x => simp [Guest.Bridge.toHost] at ok
    | int i =>
      rw [Guest.Bridge.toHost] at ok
      split at ok <;> cases ok
  | ref target =>
    cases target with
    | table id => exact absurd rfl (toHost_table ok).1
    | _ => simp [Guest.Bridge.toHost] at ok

/-- What crosses to the host and is read there as a value of a declared type. -/
theorem exists_scalar?_iff (tables : Nat → Guest.Table) (levels : Nat) :
    (∃ w, Guest.Bridge.toHost tables levels v = .ok w ∧ w.scalar? type = some r) ↔ Extracts type v r := by
  have limit : Guest.Bridge.exactLimit = 2 ^ 53 := rfl
  constructor
  · rintro ⟨w, ok, read⟩
    cases v with
    | nil =>
      rw [toHost_eq_nil_iff.mpr rfl] at ok
      cases ok
      cases type <;> cases read
    | bool b =>
      rw [Guest.Bridge.toHost] at ok
      cases ok
      cases type <;> cases read
      exact .boolean b
    | string b =>
      rw [Guest.Bridge.toHost] at ok
      cases ok
      cases type <;> cases read
      by_cases text : ∃ s : String, b = s.toUTF8
      · obtain ⟨s, rfl⟩ := text
        rw [Text.ofBytesRepaired_toUTF8]
        exact .text s
      · exact .bytes (not_exists.mp text)
    | number n =>
      cases n with
      | int i =>
        rw [Guest.Bridge.toHost, limit] at ok
        split at ok
        next exact =>
          cases ok
          cases type with
          | string => cases read
          | boolean => cases read
          | int =>
            rw [HostValue.scalar?, Decimal.whole?_ofInt exact, Int64.ofInt_toInt] at read
            cases read
            exact .int exact
          | float =>
            obtain ⟨finite, same, sign⟩ := (Decimal.eq_ofInt_iff exact).mp rfl
            rw [HostValue.scalar?, if_pos finite] at read
            cases read
            exact .floatOfInt exact finite same sign
        next => cases ok
      | float x =>
        rw [Guest.Bridge.toHost] at ok
        cases ok
        cases type with
        | string => cases read
        | boolean => cases read
        | int =>
          obtain ⟨i, whole, same⟩ := Option.map_eq_some_iff.mp read
          cases same
          obtain ⟨finite, value⟩ := Decimal.whole?_eq_some_iff.mp whole
          exact .intOfFloat finite value
        | float =>
          obtain ⟨finite, same⟩ := Option.ite_none_right_eq_some.mp read
          cases same
          exact .float finite
    | ref target =>
      cases target with
      | table id => cases ((toHost_table ok).2 type).symm.trans read
      | _ => simp [Guest.Bridge.toHost] at ok
  · intro extracts
    cases extracts with
    | text s => exact ⟨.str s, by rw [Value.text, Guest.Bridge.toHost, Text.ofBytesRepaired_toUTF8], rfl⟩
    | bytes => exact ⟨_, by rw [Guest.Bridge.toHost], rfl⟩
    | boolean b => exact ⟨.bool b, by rw [Guest.Bridge.toHost], rfl⟩
    | @int i exact =>
      refine ⟨.number (Decimal.ofInt i.toInt), by rw [Value.int, Guest.Bridge.toHost, limit, if_pos exact], ?_⟩
      rw [HostValue.scalar?, Decimal.whole?_ofInt exact, Int64.ofInt_toInt, Option.map_some]
    | @intOfFloat x i finite whole =>
      refine ⟨.number x, by rw [Value.float, Guest.Bridge.toHost], ?_⟩
      rw [HostValue.scalar?, Decimal.whole?_eq_some_iff.mpr ⟨finite, whole⟩, Option.map_some]
    | @float x finite => exact ⟨.number x, by rw [Value.float, Guest.Bridge.toHost], if_pos finite⟩
    | @floatOfInt i x exact finite same sign =>
      obtain rfl := (Decimal.eq_ofInt_iff exact).mpr ⟨finite, same, sign⟩
      exact ⟨.number (Decimal.ofInt i.toInt), by rw [Value.int, Guest.Bridge.toHost, limit, if_pos exact], if_pos finite⟩

theorem evaluate_of_first {b : Sandbox World} {source : String} {values : List Value} {s : Guest.State World}
    (type : ScalarType) (ran : Guest.runScript scriptName source b.state = (.ok values, s)) :
    ∃ tables, (evaluate type source).run b =
      (result type (Guest.Bridge.toHost tables depthLimit (Guest.firstValue values)), { b with state := s }) :=
  ⟨fun id => s.tables[id]?.getD {}, evaluate_of_values ran⟩

end Sandbox

namespace Executor

variable {x : Executor} {t : Tool} {bindings : List Binding} {w : World} {r : Scalar}

/-- The script of a run ends, and this is its first value. -/
def Returns (x : Executor) (t : Tool) (bindings : List Binding) (w : World) (v : Value) : Prop :=
  ∃ source b values s, prepare t bindings = .ok source ∧
    (x.capabilities.forM Capability.install).run (Sandbox.create x.limits w) = (.ok (), b) ∧
    Guest.runScript Sandbox.scriptName source b.state = (.ok values, s) ∧ Guest.firstValue values = v

theorem returns_iff {source : String} {done : Except RunError Unit} {b : Sandbox World} {v : Value}
    (prepared : prepare t bindings = .ok source)
    (installed : (x.capabilities.forM Capability.install).run (Sandbox.create x.limits w) = (done, b)) :
    x.Returns t bindings w v ↔ done = .ok () ∧
      ∃ values s, Guest.runScript Sandbox.scriptName source b.state = (.ok values, s) ∧ Guest.firstValue values = v := by
  constructor
  · rintro ⟨source', b', values, s, prepared', installed', ran, first⟩
    cases prepared.symm.trans prepared'
    cases installed.symm.trans installed'
    exact ⟨rfl, values, s, ran, first⟩
  · rintro ⟨rfl, values, s, ran, first⟩
    exact ⟨source, b, values, s, prepared, installed, ran, first⟩

/-- A run comes to a value exactly if the first value of its script is read as that value. -/
theorem run_eq_ok_iff : (x.run t bindings w).1 = .ok r ↔ ∃ v, x.Returns t bindings w v ∧ Extracts t.returnType v r := by
  cases prepared : prepare t bindings with
  | error e =>
    rw [run, prepared]
    refine iff_of_false (by simp) ?_
    rintro ⟨v, ⟨source, b, values, s, prepared', _⟩, _⟩
    cases prepared.symm.trans prepared'
  | ok source =>
    have session : (x.run t bindings w).1 = ((x.session t.returnType source).run (Sandbox.create x.limits w)).1 := by
      rw [run, prepared]
      rfl
    rw [session, Executor.session]
    obtain ⟨done, b, installed⟩ : ∃ done b, (x.capabilities.forM Capability.install).run (Sandbox.create x.limits w) = (done, b) :=
      ⟨_, _, rfl⟩
    simp only [returns_iff prepared installed]
    cases done with
    | error e =>
      rw [Sandboxed.run_bind_error installed]
      exact iff_of_false (by simp) (by simp)
    | ok done =>
      rw [Sandboxed.run_bind installed]
      obtain ⟨out, s, ran⟩ : ∃ out s, Guest.runScript Sandbox.scriptName source b.state = (out, s) := ⟨_, _, rfl⟩
      cases out with
      | error fault =>
        rw [Sandboxed.run_bind_error (Sandbox.evaluate_of_fault ran)]
        exact iff_of_false (by simp) (by simp [ran])
      | ok values =>
        obtain ⟨tables, evaluated⟩ := Sandbox.evaluate_of_first t.returnType ran
        have first : (∃ v, (Except.ok done = (.ok () : Except RunError Unit) ∧ ∃ values s,
            Guest.runScript Sandbox.scriptName source b.state = (.ok values, s) ∧ Guest.firstValue values = v) ∧
              Extracts t.returnType v r) ↔ Extracts t.returnType (Guest.firstValue values) r := by
          simp [ran]
        rw [first, ← Sandbox.exists_scalar?_iff tables Guest.Bridge.depthLimit, ← Sandbox.result_eq_some_iff]
        cases out : Sandbox.result t.returnType (Guest.Bridge.toHost tables Guest.Bridge.depthLimit (Guest.firstValue values)) with
        | error e =>
          rw [out] at evaluated
          rw [Sandboxed.run_bind_error evaluated]
          exact iff_of_false (by simp) (by simp)
        | ok found =>
          rw [out] at evaluated
          rw [Sandboxed.run_bind evaluated]
          cases found with
          | none =>
            change Except.error (RunError.noValue t.returnType) = Except.ok r ↔ _
            simp
          | some v =>
            change Except.ok v = Except.ok r ↔ _
            simp

/-- A script whose run has ended is read exactly. It gives nothing if its first value is `nil` or it has none, what its
first value is read as if that is a value of the declared type, and an error that names the type in all other cases. So
what a run of a tool comes to has the declared type of the tool's result, and is the number that the script has given. -/
theorem evaluate_exact (x : Executor) (t : Tool) (bindings : List Binding) (w : World) :
    (∀ {World : Type} (b : Sandbox World) (type : ScalarType) (source : String) (values : List Value) (s : Guest.State World),
      Guest.runScript Sandbox.scriptName source b.state = (.ok values, s) →
      ∃ out, (Sandbox.evaluate type source).run b = (out, { b with state := s }) ∧
        (out = .ok none ↔ Guest.firstValue values = .nil) ∧
        (∀ r, out = .ok (some r) ↔ Extracts type (Guest.firstValue values) r) ∧
        (Guest.firstValue values ≠ .nil → (∀ r, ¬ Extracts type (Guest.firstValue values) r) →
          ∃ found, out = .error (.mismatch type found))) ∧
    ∀ r, (x.run t bindings w).1 = .ok r → r.type = t.returnType ∧
      ∃ v, x.Returns t bindings w v ∧ Extracts t.returnType v r ∧ r.rational? = v.rational? := by
  refine ⟨fun b type source values s ran => ?_, fun r ok => ?_⟩
  · obtain ⟨tables, evaluated⟩ := Sandbox.evaluate_of_first type ran
    refine ⟨_, evaluated, ?_, fun r => ?_, fun some mismatched => ?_⟩
    · rw [Sandbox.result_eq_none_iff, Sandbox.toHost_eq_nil_iff]
    · rw [Sandbox.result_eq_some_iff, Sandbox.exists_scalar?_iff]
    · rcases Sandbox.result_cases type (Guest.Bridge.toHost tables Guest.Bridge.depthLimit (Guest.firstValue values)) with
        none | ⟨r, found⟩ | wrong
      · rw [Sandbox.result_eq_none_iff, Sandbox.toHost_eq_nil_iff] at none
        exact absurd none some
      · rw [Sandbox.result_eq_some_iff, Sandbox.exists_scalar?_iff] at found
        exact absurd found (mismatched r)
      · exact wrong
  · obtain ⟨v, returns, extracts⟩ := run_eq_ok_iff.mp ok
    exact ⟨extracts.type_eq, v, returns, extracts, extracts.rational?_eq⟩

/-- A tool that gives the largest double below `2 ^ 63`, which is an integer. -/
def largest : Tool :=
  { id := default, name := "largest", code := "return 9223372036854774784.0", returnType := .int, createdAt := default,
    updatedAt := default }

/-- Whether the only statement of a script returns a given double. -/
def returnsDouble (x : Float) : Guest.Block → Bool
  | [.return [.number (.float y)]] => y.toBits == x.toBits
  | _ => false

theorem eq_of_returnsDouble {x : Float} {body : Guest.Block} (returns : returnsDouble x body = true) :
    body = [.return [.number (.float x)]] := by
  unfold returnsDouble at returns
  split at returns
  next y => rw [Decimal.toBits_inj (beq_iff_eq.mp returns)]
  next => cases returns

/-- A script that returns a double gives it in every sandbox where nothing runs out. -/
theorem runScript_double {b : Sandbox World} (calm : b.Calm) (source : String) (x : Float)
    (plain : (source.toList.head? == some '\x1b') = false)
    (returns : (Guest.scanned source.toList).any (returnsDouble x) = true) :
    ∃ s, Guest.runScript Sandbox.scriptName source b.state = (.ok [.float x], s) := by
  obtain ⟨body, scanned, returns⟩ := (Option.any_eq_true _ _).mp returns
  obtain rfl := eq_of_returnsDouble returns
  have read : Guest.readScript Sandbox.scriptName source = .ok [.return [.number (.float x)]] :=
    Guest.readScript_of_compile plain (Guest.compile_of_scanned String.ofList_toList.symm scanned)
  have does (s : Guest.State World) : Guest.evalStats { script := Sandbox.scriptName } [.return [.number (.float x)]] s =
      .done (.return [.float x]) s := by
    have listed : Guest.evalExprs { script := Sandbox.scriptName } [.number (.float x)] s = .done [.float x] s :=
      Guest.evalExprs_literal _ (.number false (.float x) []) 1 s
    have returned : Guest.evalStat { script := Sandbox.scriptName } (.return [.number (.float x)]) s =
        .done (.return [.float x]) s := by
      rw [Guest.evalStat]
      exact Guest.Eval.bind_of_done listed
    rw [Guest.evalStats, Guest.Eval.bind_of_done returned]
    rfl
  have steady : Guest.Eval.Steady (Guest.evalStats { script := Sandbox.scriptName } [.return [.number (.float x)]])
      (Guest.Flow.Gives [.float x]) := Guest.Eval.steady_of_done fun s => ⟨_, s, does s, .refl s, .inl rfl⟩
  rcases Guest.runScript_of_steady calm.toQuiet read rfl steady with ⟨s, run, _⟩ | ⟨limited, _⟩
  · exact ⟨s, run⟩
  · exact absurd calm.toUnlimited limited

/-- An integer beyond those that all have a double is read exactly where the script has it as a double. -/
theorem evaluate_exact_largest :
    ∃ s, Guest.runScript Sandbox.scriptName largest.code (Sandbox.create .unlimited ({} : World)).state =
        (.ok [.float 9223372036854774784.0], s) ∧
      (Sandbox.evaluate .int largest.code).run (Sandbox.create .unlimited ({} : World)) =
        (.ok (some (.int 9223372036854774784)), { Sandbox.create .unlimited ({} : World) with state := s }) ∧
      ((⟨[], .unlimited⟩ : Executor).run largest [] {}).1 = .ok (.int 9223372036854774784) ∧
      ∃ v, (⟨[], .unlimited⟩ : Executor).Returns largest [] {} v ∧ v.rational? = some 9223372036854774784 := by
  have exact := evaluate_exact ⟨[], .unlimited⟩ largest [] {}
  obtain ⟨s, ran⟩ := runScript_double (Sandbox.create_calm rfl ({} : World)) largest.code 9223372036854774784.0
    (by decide +kernel) (by decide +kernel)
  have whole : Decimal.whole? 9223372036854774784.0 = some 9223372036854774784 := by decide +kernel
  obtain ⟨finite, value⟩ := Decimal.whole?_eq_some_iff.mp whole
  obtain ⟨out, evaluated, _, read, _⟩ := exact.1 _ .int _ _ s ran
  obtain rfl := (read _).mpr (.intOfFloat finite value)
  have prepared : prepare largest [] = .ok largest.code := rfl
  have ok : ((⟨[], .unlimited⟩ : Executor).run largest [] {}).1 = .ok (.int 9223372036854774784) :=
    run_eq_ok_iff.mpr ⟨_, ⟨_, _, _, s, prepared, rfl, ran, rfl⟩, .intOfFloat finite value⟩
  obtain ⟨_, v, returns, _, same⟩ := exact.2 _ ok
  exact ⟨s, ran, evaluated, ok, v, returns, same.symm⟩

end Executor

end ScriptTools
