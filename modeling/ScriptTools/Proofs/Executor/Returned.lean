import ScriptTools.Proofs.Sandbox.Setup
import ScriptTools.Proofs.Source.Returned
import ScriptTools.Proofs.Tool.Supplied

/-!
Calls of tools whose code returns one of their arguments. What comes out is what was put in; an integer that a
double cannot hold exactly is refused, and none ever comes out as another.
-/

namespace ScriptTools

open Guest (State Value)

variable {World : Type}

namespace Sandbox

/-- What a run comes to whose script gives one value. -/
theorem evaluate_of_gives {b : Sandbox World} {s : State World} (type : ScalarType) {source : String} {v : Value}
    (run : Guest.runScript scriptName source b.state = (.ok [v], s)) :
    ∃ tables, (evaluate type source).run b =
      (result type (Guest.Bridge.toHost tables Guest.Bridge.depthLimit v), { b with state := s }) := by
  let tables (id : Nat) : Guest.Table := s.tables[id]?.getD {}
  refine ⟨tables, ?_⟩
  have looked : (get : Sandboxed World (Sandbox World)).run b = (.ok b, b) := rfl
  rw [evaluate, Sandboxed.run_bind looked, run]
  change (evaluate.liftExcept (result type (Guest.Bridge.toHost tables Guest.Bridge.depthLimit v))).run
    { b with state := s } = _
  cases result type (Guest.Bridge.toHost tables Guest.Bridge.depthLimit v) <;> rfl

end Sandbox

/-- What the host gets of an argument that a script returns. -/
def Scalar.returned : Scalar → Except RunError Scalar
  | .int i =>
    if i.toInt.natAbs ≤ 2 ^ 53 then .ok (.int i)
    else .error (.mismatch .int (Guest.Bridge.Defect.inexact i).message)
  | v => .ok v

/-- Texts, truth values and integers that a double holds come back as they are. -/
theorem Sandbox.result_scriptValue {v : Scalar} (exact : v.type ≠ .float) (tables : Nat → Guest.Table) :
    Sandbox.result v.type (Guest.Bridge.toHost tables Guest.Bridge.depthLimit (Source.scriptValue v)) =
      v.returned.map some := by
  cases v with
  | float => exact absurd rfl exact
  | boolean => rfl
  | string s =>
    change Sandbox.result .string (.ok (.str (Text.ofBytesRepaired s.toUTF8))) = _
    rw [Text.ofBytesRepaired_toUTF8]
    rfl
  | int i =>
    have limit : Guest.Bridge.exactLimit = 2 ^ 53 := rfl
    change Sandbox.result .int (if i.toInt.natAbs ≤ Guest.Bridge.exactLimit then _ else _) = _
    rw [Scalar.returned, limit]
    by_cases exact : i.toInt.natAbs ≤ 2 ^ 53
    · have whole : Decimal.whole? (Decimal.ofInt i.toInt) = some i := by
        rw [Decimal.whole?_ofInt exact, Int64.ofInt_toInt]
      rw [if_pos exact, if_pos exact, Sandbox.result, HostValue.scalar?, whole]
      · rfl
      · exact nofun
    · rw [if_neg exact, if_neg exact]
      rfl

namespace Executor

open Source

variable {x : Executor} {t : Tool} {raw : List (String × Json)}

/-- What a script gives that returns an argument, in every sandbox where nothing runs out. -/
theorem runScript_bound {b : Sandbox World} {bindings : List Binding} {source : String} {a : Argument} (calm : b.Calm)
    (distinct : (t.args.map Argument.name).Nodup) (plain : ∀ a ∈ t.args, Plain bindings a)
    (identifier : isIdentifier a.name = true) (few : t.args.length ≤ Guest.Scope.variableLimit) (member : a ∈ t.args)
    (code : t.code = "return " ++ a.name) (built : build bindings t = .ok source) :
    ∃ s, Guest.runScript Sandbox.scriptName source b.state = (.ok [(boundValue bindings a).value], s) := by
  have declares : t.args ≠ [] := List.ne_nil_of_mem member
  obtain ⟨line, read⟩ := readScript_returned Sandbox.scriptName plain built declares few identifier code
  have inside : (a.name.toUTF8, boundValue bindings a) ∈ declared bindings t.args := List.mem_map.mpr ⟨a, member, rfl⟩
  have names : ((declared bindings t.args).map Prod.fst).Nodup := by
    have same : (declared bindings t.args).map Prod.fst = (t.args.map Argument.name).map String.toUTF8 := by
      rw [declared, List.map_map, List.map_map]
      rfl
    rw [same]
    exact distinct.map fun s u bytes => String.toByteArray_inj.mp bytes
  rcases Guest.runScript_of_steady calm.toQuiet read (Guest.hasLabel_declared _ 1 _)
    (Guest.steady_declared _ 1 line names inside) with ⟨s, run, _⟩ | ⟨limited, _⟩
  · exact ⟨s, run⟩
  · exact absurd calm.toUnlimited limited

/-- What the script of a call gives whose arguments are all supplied. -/
theorem runScript_returned {b : Sandbox World} {source : String} {a : Argument} (calm : b.Calm)
    (valid : t.validate = .ok ()) (identifiers : ∀ a ∈ t.args, isIdentifier a.name = true)
    (few : t.args.length ≤ Guest.Scope.variableLimit) (member : a ∈ t.args) (code : t.code = "return " ++ a.name)
    (built : build (t.args.map (Argument.supplied raw)) t = .ok source) :
    ∃ s, Guest.runScript Sandbox.scriptName source b.state =
      (.ok [scriptValue (Argument.supplied raw a).value], s) := by
  have distinct := Tool.nodup_of_validate valid
  have plain : ∀ a ∈ t.args, Plain (t.args.map (Argument.supplied raw)) a := fun a member =>
    .inr (by rw [find?_supplied raw distinct member]; rfl)
  have bound : boundValue (t.args.map (Argument.supplied raw)) a = scalarLiteral (Argument.supplied raw a).value := by
    rw [boundValue, find?_supplied raw distinct member]
  obtain ⟨s, run⟩ := runScript_bound calm distinct plain (identifiers a member) few member code built
  exact ⟨s, by rw [run, bound, value_scalarLiteral]⟩

/-- A call comes to what its session comes to. -/
theorem runJson_of_prepared {bound : Arguments} {source : String} {w : ScriptTools.World}
    (read : t.readArguments raw = .ok bound) (prepared : prepare t bound.bindings = .ok source) :
    (x.runJson t raw w).1 = ((x.session t.returnType source).run (Sandbox.create x.limits w)).1 := by
  rw [runJson, read]
  dsimp only
  rw [run, prepared]
  rfl

/-- What comes out of a session whose script gives one value. -/
theorem session_gives {limits : Limits} {source : String} {u : Value} (type : ScalarType) (w : ScriptTools.World)
    (unlimited : limits = .unlimited)
    (gives : ∀ b : Sandbox ScriptTools.World, b.Calm → ∃ s, Guest.runScript Sandbox.scriptName source b.state = (.ok [u], s)) :
    ∃ tables, ((x.session type source).run (Sandbox.create limits w)).1 =
      (Sandbox.result type (Guest.Bridge.toHost tables Guest.Bridge.depthLimit u)).bind fun
        | some v => .ok v
        | none => .error (.noValue type) := by
  obtain ⟨b, installed, calm⟩ :=
    (Sandboxed.Settles.forM Capability.settles_install x.capabilities).calm (Sandbox.create_calm unlimited w)
  obtain ⟨s, run⟩ := gives b calm
  obtain ⟨tables, evaluated⟩ := Sandbox.evaluate_of_gives type run
  refine ⟨tables, ?_⟩
  rw [session, Sandboxed.run_bind installed]
  cases back : Sandbox.result type (Guest.Bridge.toHost tables Guest.Bridge.depthLimit u) with
  | error e =>
    rw [back] at evaluated
    rw [Sandboxed.run_bind_error evaluated]
    rfl
  | ok v =>
    rw [back] at evaluated
    rw [Sandboxed.run_bind evaluated]
    cases v <;> rfl

theorem session_returned {limits : Limits} {type : ScalarType} {source : String} {v : Scalar} (w : ScriptTools.World)
    (unlimited : limits = .unlimited) (exact : v.type ≠ .float) (typed : v.type = type)
    (gives : ∀ b : Sandbox ScriptTools.World, b.Calm →
      ∃ s, Guest.runScript Sandbox.scriptName source b.state = (.ok [scriptValue v], s)) :
    ((x.session type source).run (Sandbox.create limits w)).1 = v.returned := by
  obtain ⟨tables, result⟩ := session_gives (x := x) type w unlimited gives
  rw [result, ← typed, Sandbox.result_scriptValue exact]
  cases v.returned <;> rfl

/-- A call whose code returns an argument gives what was supplied for it: every text and every truth value as it
is, and an integer as long as a double holds it exactly. A larger one is refused as a value of the wrong type. What
the other arguments are and what was supplied for them makes no difference. -/
theorem runJson_returned (x : Executor) (t : Tool) (raw : List (String × Json)) (w : ScriptTools.World) (a : Argument)
    (unlimited : x.limits = .unlimited) (valid : t.validate = .ok ())
    (identifiers : ∀ a ∈ t.args, isIdentifier a.name = true) (few : t.args.length ≤ Guest.Scope.variableLimit)
    (all : ∀ a ∈ t.args, a.Supplied raw) (member : a ∈ t.args) (exact : a.type ≠ .float)
    (returns : t.returnType = a.type) (code : t.code = "return " ++ a.name) :
    (∀ s, raw.lookup a.name = some (.str s) → (x.runJson t raw w).1 = .ok (.string s)) ∧
    (∀ b, raw.lookup a.name = some (.bool b) → (x.runJson t raw w).1 = .ok (.boolean b)) ∧
    (∀ i, raw.lookup a.name = some (.int i) →
      (i.natAbs ≤ 2 ^ 53 → ∃ j, (x.runJson t raw w).1 = .ok (.int j) ∧ j.toInt = i) ∧
      (2 ^ 53 < i.natAbs → ∃ found, (x.runJson t raw w).1 = .error (.mismatch .int found))) := by
  obtain ⟨ignored, read⟩ := Tool.readArguments_supplied all
  obtain ⟨source, built, prepared⟩ := prepare_supplied valid all identifiers
  have typed := (all a member).value.1
  have result : (x.runJson t raw w).1 = (Argument.supplied raw a).value.returned := by
    rw [runJson_of_prepared read prepared]
    refine session_returned w unlimited (by rwa [typed]) (typed.trans returns.symm) fun b calm => ?_
    exact runScript_returned calm valid identifiers few member code built
  obtain ⟨v, found, isOf⟩ := all a member
  have value : (Argument.supplied raw a).value = (Argument.coerce? a.type v).getD default := by
    rw [Argument.supplied, found]
    rfl
  rw [value] at result
  refine ⟨fun s same => ?_, fun b same => ?_, fun i same => ?_⟩
  · obtain rfl := Option.some.inj (found.symm.trans same)
    rw [isOf.eq_string] at result
    exact result
  · obtain rfl := Option.some.inj (found.symm.trans same)
    rw [isOf.eq_boolean] at result
    exact result
  · obtain rfl := Option.some.inj (found.symm.trans same)
    obtain ⟨type, fits⟩ := isOf.eq_int exact
    have back : (Int64.ofInt i).toInt = i := by
      rw [Decimal.fitsInt64, Bool.and_eq_true, decide_eq_true_eq, decide_eq_true_eq] at fits
      exact Int64.toInt_ofInt_of_le (by omega) (by omega)
    rw [type, Argument.coerce?, Argument.intOfInteger?, if_pos fits] at result
    change _ = (Scalar.int (Int64.ofInt i)).returned at result
    rw [Scalar.returned, back] at result
    refine ⟨fun small => ⟨Int64.ofInt i, ?_, back⟩, fun large =>
      ⟨(Guest.Bridge.Defect.inexact (Int64.ofInt i)).message, ?_⟩⟩
    · rw [result, if_pos small]
    · rw [result, if_neg (Nat.not_le.mpr large)]

/-- A tool with a text and an integer that returns the text. -/
def echo : Tool :=
  { id := default, name := "echo", code := "return s", returnType := .string, createdAt := default,
    updatedAt := default, args := [{ name := "n", type := .int }, { name := "s", type := .string }] }

/-- Values for both arguments: the smallest integer, and a text with a quote, a break and a zero byte before a
digit. -/
def echoArguments : List (String × Json) := [("n", .int (-9223372036854775808)), ("s", .str "\"\n\x007é")]

theorem runJson_returned_echo :
    ((⟨[.log true], .unlimited⟩ : Executor).runJson echo echoArguments {}).1 = .ok (.string "\"\n\x007é") := by
  have supplied : ∀ a ∈ echo.args, a.Supplied echoArguments := by
    intro a member
    simp only [echo, List.mem_cons, List.not_mem_nil, or_false] at member
    rcases member with rfl | rfl
    · exact ⟨.int (-9223372036854775808), rfl, (by decide : Decimal.fitsInt64 (-9223372036854775808) = true)⟩
    · exact ⟨.str "\"\n\x007é", rfl, trivial⟩
  have returned := runJson_returned ⟨[.log true], .unlimited⟩ echo echoArguments {} { name := "s", type := .string } rfl
    (by decide +kernel) (by decide +kernel) (by decide) supplied (by decide) (by decide) rfl rfl
  exact returned.1 _ rfl

end Executor

end ScriptTools
