import ScriptTools.Proofs.Decimal.Whole
import ScriptTools.Proofs.Tool.Agreement

/-!
Calls that supply every declared argument with a value of its type. Each argument is bound to that value, and
the bindings pass every check before the tool runs.
-/

namespace ScriptTools

namespace Json

/-- Whether a value is written as one of a declared type: a text, an integer of 64 bits, a number, or a truth
value. -/
def IsOf : ScalarType → Json → Prop
  | .string, .str _ => True
  | .int, .int i => Decimal.fitsInt64 i = true
  | .float, .int i => i.natAbs < 2 ^ 64
  | .float, .float x => x.isFinite = true
  | .boolean, .bool _ => True
  | _, _ => False

namespace IsOf

variable {type : ScalarType}

theorem eq_string {s : String} (isOf : (Json.str s).IsOf type) : type = .string := by
  cases type with
  | string => rfl
  | _ => cases isOf

theorem eq_boolean {b : Bool} (isOf : (Json.bool b).IsOf type) : type = .boolean := by
  cases type with
  | boolean => rfl
  | _ => cases isOf

theorem eq_int {i : Int} (isOf : (Json.int i).IsOf type) (other : type ≠ .float) :
    type = .int ∧ Decimal.fitsInt64 i = true := by
  cases type with
  | int => exact ⟨rfl, isOf⟩
  | float => exact absurd rfl other
  | _ => cases isOf

end IsOf

end Json

/-- Whether a literal can be written for a value. -/
def Scalar.Literal (s : Scalar) : Prop := ∀ x, s = .float x → x.isFinite = true

theorem Argument.coerce?_of_isOf {type : ScalarType} {v : Json} (isOf : v.IsOf type) :
    ∃ s, Argument.coerce? type v = some s ∧ s.type = type ∧ s.Literal := by
  cases type with
  | string =>
    cases v with
    | str s => exact ⟨.string s, rfl, rfl, by rintro _ ⟨⟩⟩
    | _ => cases isOf
  | int =>
    cases v with
    | int i =>
      refine ⟨.int (Int64.ofInt i), ?_, rfl, by rintro _ ⟨⟩⟩
      have fits : Decimal.fitsInt64 i = true := isOf
      rw [Argument.coerce?, Argument.intOfInteger?, if_pos fits]
      rfl
    | _ => cases isOf
  | float =>
    cases v with
    | int i =>
      refine ⟨.float (Decimal.ofInt i), rfl, rfl, fun x same => ?_⟩
      cases same
      exact Decimal.isFinite_ofInt isOf
    | float x =>
      refine ⟨.float x, rfl, rfl, fun y same => ?_⟩
      cases same
      exact isOf
    | _ => cases isOf
  | boolean =>
    cases v with
    | bool b => exact ⟨.boolean b, rfl, rfl, by rintro _ ⟨⟩⟩
    | _ => cases isOf

/-- Whether a call has a value of its type for an argument. -/
def Argument.Supplied (raw : List (String × Json)) (a : Argument) : Prop :=
  ∃ v, raw.lookup a.name = some v ∧ v.IsOf a.type

/-- The binding of an argument that a call has a value for. -/
def Argument.supplied (raw : List (String × Json)) (a : Argument) : Binding :=
  ⟨a.name, ((raw.lookup a.name).bind (Argument.coerce? a.type)).getD default⟩

namespace Argument.Supplied

variable {raw : List (String × Json)} {a : Argument}

theorem value (has : a.Supplied raw) : (supplied raw a).value.type = a.type ∧ (supplied raw a).value.Literal := by
  obtain ⟨v, found, isOf⟩ := has
  obtain ⟨s, coerced, type, literal⟩ := coerce?_of_isOf isOf
  rw [supplied, found]
  simp only [Option.bind_some, coerced, Option.getD_some]
  exact ⟨type, literal⟩

theorem read (has : a.Supplied raw) : Argument.read raw a = .ok (some (supplied raw a)) := by
  obtain ⟨v, found, isOf⟩ := has
  obtain ⟨s, coerced, _⟩ := coerce?_of_isOf isOf
  have some : v ≠ .null := by
    rintro rfl
    cases type : a.type <;> rw [type] at isOf <;> cases isOf
  rw [Argument.read, supplied, found]
  cases v with
  | null => exact absurd rfl some
  | _ => simp only [Option.bind_some, coerced, Option.getD_some]

end Argument.Supplied

theorem mapM_eq_ok_map {ε α β : Type} {f : α → Except ε β} {g : α → β} {as : List α}
    (each : ∀ a ∈ as, f a = .ok (g a)) : as.mapM f = .ok (as.map g) := by
  induction as with
  | nil => rfl
  | cons a as ih =>
    rw [List.mapM_cons, each a (by simp), ih fun b member => each b (by simp [member])]
    rfl

section

variable {raw : List (String × Json)} {t : Tool}

theorem Tool.readArguments_supplied (all : ∀ a ∈ t.args, a.Supplied raw) :
    ∃ ignored, t.readArguments raw = .ok ⟨t.args.map (Argument.supplied raw), ignored⟩ := by
  have read := mapM_eq_ok_map (g := fun a => some (Argument.supplied raw a)) fun a member => (all a member).read
  refine ⟨(raw.map (·.1)).filter fun name => (t.arg? name).isNone, bind_eq_ok.mpr ⟨_, read, ?_⟩⟩
  have same : ((t.args.map fun a => some (Argument.supplied raw a)).filterMap fun b => b) =
      t.args.map (Argument.supplied raw) := by
    rw [List.filterMap_map]
    exact congrFun List.filterMap_eq_map t.args
  rw [same]
  rfl

/-- The binding of an argument is found under its name. -/
theorem find?_supplied (raw : List (String × Json)) {args : List Argument}
    (distinct : (args.map Argument.name).Nodup) {a : Argument} (member : a ∈ args) :
    ((args.map (Argument.supplied raw)).find? fun b => b.name = a.name) = some (Argument.supplied raw a) := by
  rw [List.find?_map]
  have same : (args.find? ((fun b : Binding => decide (b.name = a.name)) ∘ Argument.supplied raw)) = some a :=
    find?_of_mem distinct member
  rw [same, Option.map_some]

theorem Executor.validate_supplied (valid : t.validate = .ok ()) (all : ∀ a ∈ t.args, a.Supplied raw) :
    Executor.validate t (t.args.map (Argument.supplied raw)) = .ok () := by
  obtain ⟨_, run⟩ := Tool.readArguments_supplied all
  exact Tool.validate_of_readArguments valid run

theorem Source.build_supplied (valid : t.validate = .ok ()) (all : ∀ a ∈ t.args, a.Supplied raw)
    (identifiers : ∀ a ∈ t.args, Source.isIdentifier a.name = true) :
    ∃ source, Source.build (t.args.map (Argument.supplied raw)) t = .ok source := by
  obtain ⟨_, run⟩ := Tool.readArguments_supplied all
  cases built : Source.build (t.args.map (Argument.supplied raw)) t with
  | ok source => exact ⟨source, rfl⟩
  | error e =>
    rcases (Tool.exists_build_eq_error_of_readArguments valid run).mp ⟨e, built⟩ with
      ⟨a, member, name⟩ | ⟨b, member, x, float, infinite⟩
    · rw [identifiers a member] at name
      cases name
    · obtain ⟨a, inside, rfl⟩ := List.mem_map.mp member
      rw [(all a inside).value.2 x float] at infinite
      cases infinite

/-- What is supplied passes every check. -/
theorem Executor.prepare_supplied (valid : t.validate = .ok ()) (all : ∀ a ∈ t.args, a.Supplied raw)
    (identifiers : ∀ a ∈ t.args, Source.isIdentifier a.name = true) :
    ∃ source, Source.build (t.args.map (Argument.supplied raw)) t = .ok source ∧
      Executor.prepare t (t.args.map (Argument.supplied raw)) = .ok source := by
  obtain ⟨source, built⟩ := Source.build_supplied valid all identifiers
  refine ⟨source, built, ?_⟩
  rw [Executor.prepare, Executor.validate_supplied valid all, built]
  rfl

end

end ScriptTools
