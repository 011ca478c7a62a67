import ScriptTools.Proofs.Decimal.Whole
import ScriptTools.Proofs.Json.Fields
import ScriptTools.Proofs.Tool.Given
import ScriptTools.Tool.Schema

/-!
Calls by the schema that a tool is advertised with: an object of arguments that conforms to it is read, and one
without a required argument is refused.
-/

namespace ScriptTools

namespace Json

/-- Whether a value has the type of a name in a schema. An integer is written without fraction and exponent and
fits 64 bits; `-0` is one too. -/
inductive HasType : String → Json → Prop where
  | string (s : String) : HasType "string" (.str s)
  | boolean (b : Bool) : HasType "boolean" (.bool b)
  | integer {i : Int} (fits : -2 ^ 63 ≤ i ∧ i < 2 ^ 63) : HasType "integer" (.int i)
  | negativeZero : HasType "integer" (.float (-0.0))
  | wholeNumber (i : Int) : HasType "number" (.int i)
  | number (x : Float) : HasType "number" (.float x)

theorem HasType.ne_null {type : String} {v : Json} (typed : v.HasType type) : v ≠ .null := by
  rintro rfl
  cases typed

/-- Whether an object has every required name, and under the name of each property a value of its type. -/
structure Conforms (properties : List (String × Json)) (required : List String) (o : List (String × Json)) : Prop where
  complete : ∀ name ∈ required, name ∈ o.map Prod.fst
  typed : ∀ field ∈ o, ∀ property, properties.lookup field.1 = some property →
    ∃ type, property.get? "type" = some (.str type) ∧ field.2.HasType type

end Json

theorem ScalarType.schemaName_inj {a b : ScalarType} : a.schemaName = b.schemaName ↔ a = b := by
  cases a <;> cases b <;> simp [schemaName]

namespace Argument

/-- A value of the advertised type is accepted. -/
theorem exists_coerce?_of_hasType {type : ScalarType} {v : Json} (typed : v.HasType type.schemaName) :
    ∃ s, coerce? type v = some s := by
  generalize name : type.schemaName = expected at typed
  cases typed with
  | string s =>
    obtain rfl : type = .string := ScalarType.schemaName_inj.mp name
    exact ⟨.string s, rfl⟩
  | boolean b =>
    obtain rfl : type = .boolean := ScalarType.schemaName_inj.mp name
    exact ⟨.boolean b, rfl⟩
  | @integer i fits =>
    obtain rfl : type = .int := ScalarType.schemaName_inj.mp name
    have fits : Decimal.fitsInt64 i = true := by
      rw [Decimal.fitsInt64, Bool.and_eq_true, decide_eq_true_eq, decide_eq_true_eq]
      omega
    exact ⟨.int (Int64.ofInt i), by rw [coerce?, intOfInteger?, if_pos fits]; rfl⟩
  | negativeZero =>
    obtain rfl : type = .int := ScalarType.schemaName_inj.mp name
    exact ⟨.int 0, by rw [coerce?, Decimal.whole?_negativeZero]; rfl⟩
  | wholeNumber i =>
    obtain rfl : type = .float := ScalarType.schemaName_inj.mp name
    exact ⟨_, rfl⟩
  | number x =>
    obtain rfl : type = .float := ScalarType.schemaName_inj.mp name
    exact ⟨.float x, rfl⟩

theorem schema_type (a : Argument) : a.schema.get? "type" = some (.str a.type.schemaName) := by
  rw [schema, Json.ofFields, Json.get?, Json.lookup_sortFields]
  by_cases described : a.description = "" <;> cases a.defaultValue.bind Json.parse? <;> simp [described, List.lookup_cons]

theorem schema_default (a : Argument) : a.schema.get? "default" = a.defaultValue.bind Json.parse? := by
  rw [schema, Json.ofFields, Json.get?, Json.lookup_sortFields]
  by_cases described : a.description = "" <;> cases a.defaultValue.bind Json.parse? <;> simp [described, List.lookup_cons]

end Argument

namespace Tool

variable {t : Tool}

/-- The schemas of the arguments by their names. -/
def properties (t : Tool) : List (String × Json) := Json.sortFields (t.args.map fun a => (a.name, a.schema))

/-- The names of the arguments that must be there. -/
def required (t : Tool) : List String := (t.args.filter (·.required)).map Argument.name

theorem inputSchema_properties (t : Tool) : t.spec.inputSchema.get? "properties" = some (.obj t.properties) := by
  rw [spec, Json.ofFields, Json.get?, Json.lookup_sortFields]
  rfl

theorem inputSchema_required (t : Tool) : t.spec.inputSchema.get? "required" = some (.arr (t.required.map .str)) := by
  rw [spec, Json.ofFields, Json.get?, Json.lookup_sortFields, required, List.map_map]
  rfl

theorem mem_names_properties {name : String} : name ∈ t.properties.map Prod.fst ↔ ∃ a ∈ t.args, a.name = name := by
  rw [properties, Json.mem_names_sortFields, List.map_map]
  exact List.mem_map

theorem lookup_properties (distinct : (t.args.map Argument.name).Nodup) {a : Argument} (member : a ∈ t.args) :
    t.properties.lookup a.name = some a.schema := by
  have names : ((t.args.map fun a => (a.name, a.schema)).map Prod.fst).Nodup := by rwa [List.map_map]
  exact (Json.lookup_sortFields_iff names).mpr (List.mem_map.mpr ⟨a, member, rfl⟩)

/-- Whether a tool is advertised with a default for the argument of a name. -/
def Advertises (t : Tool) (name : String) (d : Json) : Prop :=
  ∃ properties property, t.spec.inputSchema.get? "properties" = some properties ∧
    properties.get? name = some property ∧ property.get? "default" = some d

theorem advertises_iff (valid : t.validate = .ok ()) {a : Argument} (member : a ∈ t.args) {d : Json} :
    t.Advertises a.name d ↔ ∃ text, a.defaultValue = some text ∧ Json.parse? text = some d := by
  have property : (Json.obj t.properties).get? a.name = some a.schema :=
    lookup_properties (nodup_of_validate valid) member
  rw [← Option.bind_eq_some_iff, ← a.schema_default]
  constructor
  · rintro ⟨_, _, properties, found, default⟩
    cases t.inputSchema_properties.symm.trans properties
    cases property.symm.trans found
    exact default
  · exact fun default => ⟨_, _, t.inputSchema_properties, property, default⟩

section Conforming

variable {raw : List (String × Json)} (valid : t.validate = .ok ()) (conforms : Json.Conforms t.properties t.required raw)
include valid conforms

theorem hasType_of_conforms {a : Argument} (member : a ∈ t.args) {v : Json} (found : raw.lookup a.name = some v) :
    v.HasType a.type.schemaName := by
  obtain ⟨before, after, split, _⟩ := List.lookup_eq_some_iff.mp found
  obtain ⟨type, declared, typed⟩ := conforms.typed (a.name, v) (by simp [split]) a.schema
    (lookup_properties (nodup_of_validate valid) member)
  rw [a.schema_type] at declared
  cases declared
  exact typed

theorem given?_eq_lookup {a : Argument} (member : a ∈ t.args) : a.given? raw = raw.lookup a.name := by
  cases found : raw.lookup a.name with
  | none => exact Argument.given?_eq_none.mpr (.inl found)
  | some v => exact Argument.given?_eq_some.mpr ⟨found, (hasType_of_conforms valid conforms member found).ne_null⟩

theorem not_fault_of_conforms {a : Argument} (member : a ∈ t.args) (e : ArgumentError) : ¬ a.Fault raw e := by
  rintro (⟨required, none⟩ | ⟨given, refused⟩)
  · have there := conforms.complete a.name (List.mem_map_of_mem (List.mem_filter.mpr ⟨member, required⟩))
    rw [given?_eq_lookup valid conforms member] at none
    exact lookup_eq_none_iff.mp none there
  · rw [given?_eq_lookup valid conforms member] at given
    obtain ⟨s, coerced⟩ := Argument.exists_coerce?_of_hasType (hasType_of_conforms valid conforms member given)
    cases coerced.symm.trans refused

theorem names_of_conforms {read : Arguments} (run : t.readArguments raw = .ok read) :
    read.bindings.map Binding.name = (t.args.map Argument.name).filter fun name => name ∈ raw.map Prod.fst := by
  rw [names_of_readArguments run, given, List.filter_map]
  refine congrArg _ (List.filter_congr fun a member => ?_)
  rw [given?_eq_lookup valid conforms member, Function.comp_apply, Bool.eq_iff_iff, decide_eq_true_iff,
    Option.isSome_iff_ne_none, ne_eq, lookup_eq_none_iff, not_not]

end Conforming

/-- The schema of a tool in order has a property for each declared argument. An object that conforms to it is read,
and binds exactly those of its names that are properties, in the order of declaration; one without a required
name, or with `null` for it, is refused. -/
theorem readArguments_honours_schema {t : Tool} (valid : t.validate = .ok ()) :
    t.spec.inputSchema.get? "properties" = some (.obj t.properties) ∧
      t.spec.inputSchema.get? "required" = some (.arr (t.required.map .str)) ∧
      (∀ name, name ∈ t.properties.map Prod.fst ↔ ∃ a ∈ t.args, a.name = name) ∧
      (∀ raw, Json.Conforms t.properties t.required raw → ∃ read, t.readArguments raw = .ok read ∧
        read.bindings.map Binding.name = (t.args.map Argument.name).filter fun name => name ∈ raw.map Prod.fst) ∧
      ∀ raw name, name ∈ t.required → (raw.lookup name = none ∨ raw.lookup name = some .null) →
        ∃ e, t.readArguments raw = .error e := by
  refine ⟨t.inputSchema_properties, t.inputSchema_required, fun _ => mem_names_properties, fun raw conforms => ?_,
    fun raw name member absent => ?_⟩
  · obtain ⟨read, run⟩ := exists_readArguments_eq_ok fun a member => not_fault_of_conforms valid conforms member
    exact ⟨read, run, names_of_conforms valid conforms run⟩
  · obtain ⟨a, declared, rfl⟩ := List.mem_map.mp member
    obtain ⟨inside, required⟩ := List.mem_filter.mp declared
    exact exists_readArguments_eq_error inside (.missing required (Argument.given?_eq_none.mpr absent))

def count : Argument :=
  { name := "count", type := .int, description := "How often", required := false, defaultValue := some "10" }

/-- A tool with an argument that must be there, one with a description and a default, and one with neither. -/
def repeated : Tool :=
  { id := default, name := "repeated", code := "return text", returnType := .string, createdAt := default,
    updatedAt := default,
    args := [{ name := "text", type := .string }, count, { name := "gap", type := .float, required := false }] }

/-- An unknown name, the integer `-0` for the argument with a default, and a text. -/
def repeatedArguments : List (String × Json) := [("color", .null), ("count", .float (-0.0)), ("text", .str "ab")]

theorem conforms_repeatedArguments : Json.Conforms repeated.properties repeated.required repeatedArguments where
  complete := by decide
  typed field member property found := by
    have distinct : (repeated.args.map Argument.name).Nodup := by decide
    simp only [repeatedArguments, List.mem_cons, List.not_mem_nil, or_false] at member
    rcases member with rfl | rfl | rfl
    · have absent : "color" ∉ repeated.properties.map Prod.fst := by
        rw [mem_names_properties]
        decide
      cases (lookup_eq_none_iff.mpr absent).symm.trans found
    · cases (lookup_properties distinct (a := count) (by decide)).symm.trans found
      exact ⟨"integer", count.schema_type, .negativeZero⟩
    · cases (lookup_properties distinct (a := { name := "text", type := .string }) (by decide)).symm.trans found
      exact ⟨"string", Argument.schema_type _, .string "ab"⟩

theorem readArguments_honours_schema_repeated :
    repeated.validate = .ok () ∧ Json.Conforms repeated.properties repeated.required repeatedArguments ∧
      ∃ read, repeated.readArguments repeatedArguments = .ok read ∧
        read.bindings.map Binding.name = ["text", "count"] := by
  have valid : repeated.validate = .ok () := by decide +kernel
  exact ⟨valid, conforms_repeatedArguments,
    (readArguments_honours_schema valid).2.2.2.1 repeatedArguments conforms_repeatedArguments⟩

end Tool

end ScriptTools
