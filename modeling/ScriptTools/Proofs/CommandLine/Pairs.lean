import ScriptTools.CommandLine.Arguments
import ScriptTools.Proofs.Executor.Omitted
import ScriptTools.Proofs.Json.Fields
import ScriptTools.Proofs.Timestamp.Text
import ScriptTools.Proofs.Tool.Integers

/-!
Arguments that are typed as pairs. A pair holds the text that is shown for a value; where it is read for the type of the
value, it gives back the value, as the JSON form of it would.
-/

namespace ScriptTools

open Decimal (digitChars isDigit_of_mem_digitChars digitChars_ne_nil natOfDigits_digitChars)
open Timestamp (trimStartChars_of_visible not_isBlank_of_isDigit)

/-! Texts of values -/

namespace Text

theorem trimStartChars_eq_self {cs : List Char} (visible : ∀ c ∈ cs.head?, isBlank c = false) : trimStartChars cs = cs := by
  cases cs with
  | nil => rfl
  | cons c cs => exact trimStartChars_of_visible (visible c rfl) cs

/-- A text without blanks at its ends stays as it is. -/
theorem trimChars_eq_self {cs : List Char} (front : ∀ c ∈ cs.head?, isBlank c = false)
    (back : ∀ c ∈ cs.getLast?, isBlank c = false) : trimChars cs = cs := by
  rw [trimChars, trimStartChars_eq_self front, trimEndChars]
  have reversed : cs.reverse.dropWhile isBlank = cs.reverse := trimStartChars_eq_self (by simpa using back)
  rw [reversed, List.reverse_reverse]

end Text

namespace Argument

theorem readInt?_toString (i : Int64) : readInt? (toString i.toInt) = some i := by
  have digits : ∀ d ∈ digitChars i.toInt.natAbs, d.isDigit = true := fun d => isDigit_of_mem_digitChars
  have some := digitChars_ne_nil i.toInt.natAbs
  have value := natOfDigits_digitChars i.toInt.natAbs
  have text := Decimal.toString_int_toList i.toInt
  generalize digitChars i.toInt.natAbs = ds at digits some value text
  have visible {c : Char} (member : c ∈ (toString i.toInt).toList) : Text.isBlank c = false := by
    rw [text] at member
    rcases List.mem_append.mp member with sign | digit
    · split at sign
      · rw [List.mem_singleton.mp sign]
        decide
      · cases sign
    · exact not_isBlank_of_isDigit (digits c digit)
  have trimmed : Text.trimChars (toString i.toInt).toList = (toString i.toInt).toList :=
    Text.trimChars_eq_self (fun c first => visible (List.mem_of_mem_head? first))
      (fun c last => visible (List.mem_of_mem_getLast? last))
  have read : Decimal.readInt? (toString i.toInt).toList = .some i.toInt := by
    rw [text]
    split
    · rw [List.singleton_append, Decimal.readInt?_minus digits some, value]
      congr 1
      omega
    · rw [List.nil_append, Decimal.readInt?_digits digits some, value]
      congr 1
      omega
  have fits : Decimal.fitsInt64 i.toInt = true := Decimal.fitsInt64_iff.mpr (by rw [Int64.ofInt_toInt])
  rw [readInt?, trimmed, read]
  simp [fits]

variable {v : Scalar} (exact : v.type ≠ .float)
include exact

/-- The text that is shown for a value stands for it. -/
theorem coerce?_text : coerce? v.type (.str v.text) = some v := by
  cases v with
  | string s => rfl
  | int i =>
    rw [Scalar.type, Scalar.text, coerce?, readInt?_toString]
    rfl
  | float x => exact absurd rfl exact
  | boolean b => cases b <;> rfl

theorem coerce?_toJson : coerce? v.type v.toJson = some v := by
  cases v with
  | string s => rfl
  | int i => exact coerce?_int_iff.mpr rfl
  | float x => exact absurd rfl exact
  | boolean b => rfl

end Argument

theorem Tool.mem_bindings_of_read {t : Tool} {raw : List (String × Json)} {read : Arguments}
    (run : t.readArguments raw = .ok read) {a : Argument} (argument : a ∈ t.args) {b : Binding}
    (here : a.read raw = .ok (some b)) : b ∈ read.bindings := by
  obtain ⟨bound, reads, rest⟩ := bind_eq_ok.mp run
  cases rest
  obtain ⟨found, member, same⟩ := exists_mem_of_forall₂ (mapM_eq_ok_iff.mp reads).flip a argument
  cases here.symm.trans same
  exact List.mem_filterMap.mpr ⟨_, member, rfl⟩

/-! Pairs -/

/-- A binding as it is typed on a command line. -/
def Binding.pair (b : Binding) : String := b.name ++ "=" ++ b.value.text

namespace CommandLine

/-- A name without an equals sign ends at the first one of a pair, whatever the value is. -/
theorem readPair_pair {b : Binding} (named : b.name ≠ "") (plain : '=' ∉ b.name.toList) :
    readPair b.pair = .ok (b.name, .str b.value.text) := by
  have before : ∀ c ∈ b.name.toList, (c != '=') = true := fun c member => bne_iff_ne.mpr fun same => plain (same ▸ member)
  have cut : b.pair.toList.span (· != '=') = (b.name.toList, '=' :: b.value.text.toList) := by
    rw [Binding.pair, String.toList_append, String.toList_append, List.append_assoc, List.span_eq_takeWhile_dropWhile,
      List.takeWhile_append_of_pos before, List.dropWhile_append_of_pos before]
    simp
  have some : b.name.toList.isEmpty = false := by simpa [String.toList_eq_nil_iff] using named
  rw [readPair, cut]
  simp only [some, Bool.false_eq_true, if_false, String.ofList_toList]

/-- Values for arguments that a tool declares, in any order, under names that can be typed in pairs. A double is none
of them, since its text may be that of another value. -/
structure Assigns (t : Tool) (given : List Binding) : Prop where
  distinct : (given.map Binding.name).Nodup
  declared : ∀ b ∈ given, ∃ a ∈ t.args, a.name = b.name ∧ a.type = b.value.type
  exact : ∀ b ∈ given, b.value.type ≠ .float
  named : ∀ b ∈ given, b.name ≠ ""
  plain : ∀ b ∈ given, '=' ∉ b.name.toList

/-- The fields of an object, over which bindings are laid in a form of their values. -/
def overlay (form : Scalar → Json) (base : List (String × Json)) (given : List Binding) : List (String × Json) :=
  Json.sortFields (base ++ given.map fun b => (b.name, form b.value))

variable {t : Tool} {given : List Binding} {form : Scalar → Json}

theorem arguments_pairs (assigns : Assigns t given) (json : Option String) :
    arguments json (given.map Binding.pair) = (baseFields json).map fun base => overlay (fun v => .str v.text) base given := by
  have pairs : (given.map Binding.pair).mapM readPair = .ok (given.map fun b => (b.name, Json.str b.value.text)) := by
    rw [mapM_eq_ok_iff, List.forall₂_map_left_iff, List.forall₂_map_right_iff, List.forall₂_same]
    exact fun b member => readPair_pair (assigns.named b member) (assigns.plain b member)
  rw [arguments, pairs]
  cases baseFields json <;> rfl

/-! What is laid over -/

theorem names_overlay (form form' : Scalar → Json) (base : List (String × Json)) (given : List Binding) :
    (overlay form base given).map Prod.fst = (overlay form' base given).map Prod.fst := by
  refine Json.names_sortFields_congr ?_
  simp

theorem lookup_overlay_of_mem (form : Scalar → Json) (distinct : (given.map Binding.name).Nodup)
    (base : List (String × Json)) {b : Binding} (member : b ∈ given) :
    (overlay form base given).lookup b.name = some (form b.value) := by
  have names : ((given.map fun b => (b.name, form b.value)).reverse.map Prod.fst).Nodup := by
    rw [List.map_reverse, List.nodup_reverse, List.map_map]
    exact distinct
  have here : (given.map fun b => (b.name, form b.value)).reverse.lookup b.name = some (form b.value) :=
    (lookup_eq_some_iff names).mpr (List.mem_reverse.mpr (List.mem_map_of_mem member))
  rw [overlay, Json.lookup_sortFields_append, here, Option.some_or]

theorem lookup_overlay_of_not_mem (base : List (String × Json)) {name : String} (free : name ∉ given.map Binding.name) :
    (overlay form base given).lookup name = base.reverse.lookup name := by
  have none : (given.map fun b => (b.name, form b.value)).reverse.lookup name = none := by
    rw [lookup_eq_none_iff, List.map_reverse, List.mem_reverse, List.map_map]
    exact free
  rw [overlay, Json.lookup_sortFields_append, none, Option.none_or]

/-- Forms of values that stand for them when they are read for their types. -/
def Faithful (form : Scalar → Json) (given : List Binding) : Prop :=
  ∀ b ∈ given, form b.value ≠ .null ∧ Argument.coerce? b.value.type (form b.value) = some b.value

theorem faithful_text (exact : ∀ b ∈ given, b.value.type ≠ .float) : Faithful (fun v => .str v.text) given :=
  fun b member => ⟨nofun, Argument.coerce?_text (exact b member)⟩

theorem faithful_toJson (exact : ∀ b ∈ given, b.value.type ≠ .float) : Faithful Scalar.toJson given := by
  refine fun b member => ⟨fun null => ?_, Argument.coerce?_toJson (exact b member)⟩
  have read := Argument.coerce?_toJson (exact b member)
  rw [null] at read
  cases type : b.value.type <;> simp [type, Argument.coerce?] at read

/-- An argument that has a value among those laid over is bound to it. -/
theorem read_overlay (valid : t.validate = .ok ()) (assigns : Assigns t given) (faithful : Faithful form given)
    (base : List (String × Json)) {a : Argument} (argument : a ∈ t.args) {b : Binding} (member : b ∈ given)
    (name : a.name = b.name) : a.read (overlay form base given) = .ok (some b) := by
  obtain ⟨c, declared, same, type⟩ := assigns.declared b member
  obtain rfl : c = a :=
    List.inj_on_of_nodup_map (Tool.nodup_of_validate valid) declared argument (same.trans name.symm)
  obtain ⟨some, coerced⟩ := faithful b member
  have found := lookup_overlay_of_mem form assigns.distinct base member
  rw [← name] at found
  exact Argument.read_eq_some.mpr ⟨name.symm, _, Argument.given?_eq_some.mpr ⟨found, some⟩, type ▸ coerced⟩

/-- The form in which values are laid over does not matter as long as it stands for them. -/
theorem readArguments_overlay (valid : t.validate = .ok ()) (assigns : Assigns t given) {form' : Scalar → Json}
    (faithful : Faithful form given) (faithful' : Faithful form' given) (base : List (String × Json)) :
    t.readArguments (overlay form base given) = t.readArguments (overlay form' base given) := by
  have each : ∀ a ∈ t.args, a.read (overlay form base given) = a.read (overlay form' base given) := by
    intro a argument
    by_cases laid : a.name ∈ given.map Binding.name
    · obtain ⟨b, member, name⟩ := List.mem_map.mp laid
      rw [read_overlay valid assigns faithful base argument member name.symm,
        read_overlay valid assigns faithful' base argument member name.symm]
    · refine Argument.read_congr ?_
      rw [lookup_overlay_of_not_mem base laid, lookup_overlay_of_not_mem base laid]
  have names := names_overlay form form' base given
  rw [Tool.readArguments, Tool.readArguments, mapM_congr each]
  simp only [names]

/-- Values typed as pairs are read as their JSON forms would be, faults and ignored names included, and each arrives as
the value that it is the text of. -/
theorem readArguments_pairs (valid : t.validate = .ok ()) (assigns : Assigns t given) (json : Option String) :
    (arguments json (given.map Binding.pair)).map t.readArguments =
        (baseFields json).map (fun base => t.readArguments (overlay Scalar.toJson base given)) ∧
      ∀ fields, arguments json (given.map Binding.pair) = .ok fields → ∀ b ∈ given,
        (∀ a ∈ t.args, a.name = b.name → a.read fields = .ok (some b)) ∧
          ∀ read, t.readArguments fields = .ok read → b ∈ read.bindings := by
  have text := faithful_text assigns.exact
  rw [arguments_pairs assigns]
  constructor
  · cases baseFields json with
    | error e => rfl
    | ok base => exact congrArg Except.ok (readArguments_overlay valid assigns text (faithful_toJson assigns.exact) base)
  · intro fields laid b member
    obtain ⟨base, _, rfl⟩ := map_eq_ok.mp laid
    refine ⟨fun a argument name => read_overlay valid assigns text base argument member name, fun read run => ?_⟩
    obtain ⟨a, argument, name, _⟩ := assigns.declared b member
    exact Tool.mem_bindings_of_read run argument (read_overlay valid assigns text base argument member name)

/-- A tool with an argument of each type whose texts stand for the values. -/
def memo : Tool :=
  { id := default, name := "memo", code := "return note", returnType := .string, createdAt := default, updatedAt := default,
    args := [{ name := "note", type := .string }, { name := "urgent", type := .boolean, required := false },
      { name := "at", type := .int }] }

/-- Values in another order: the least integer, and a text with an equals sign and blanks around it. -/
def memoGiven : List Binding :=
  [⟨"at", .int Int64.minValue⟩, ⟨"note", .string " a=\"b\" "⟩, ⟨"urgent", .boolean true⟩]

theorem memoGiven_assigns : Assigns memo memoGiven where
  distinct := by decide +kernel
  declared := by decide +kernel
  exact := by decide +kernel
  named := by decide +kernel
  plain := by decide +kernel

/-- What an object has for `at` is passed over, and what it has under another name is ignored. -/
theorem readArguments_pairs_memo :
    memo.validate = .ok () ∧ Assigns memo memoGiven ∧
      (arguments (some "\x7b\"at\": 1, \"about\": null\x7d")
          ["at=-9223372036854775808", "note= a=\"b\" ", "urgent=true"]).map memo.readArguments =
        .ok (.ok ⟨[⟨"note", .string " a=\"b\" "⟩, ⟨"urgent", .boolean true⟩, ⟨"at", .int Int64.minValue⟩], ["about"]⟩) := by
  have valid : memo.validate = .ok () := by decide +kernel
  have pairs : memoGiven.map Binding.pair = ["at=-9223372036854775808", "note= a=\"b\" ", "urgent=true"] := by
    decide +kernel
  have read : Json.Document.read? "\x7b\"at\": 1, \"about\": null\x7d" =
      some (.object [(some "at", .number ⟨false, ['1'], [], none⟩), (some "about", .null)]) := rfl
  have ascending : Json.sortFields [("at", .int 1), ("about", .null)] = [("about", Json.null), ("at", .int 1)] :=
    Json.sortFields_eq_of_perm (.swap _ _ _) (by decide +kernel)
  have base : baseFields (some "\x7b\"at\": 1, \"about\": null\x7d") = .ok [("about", .null), ("at", .int 1)] := by
    rw [baseFields, Json.parse?, read, ← ascending]
    rfl
  have laid : overlay Scalar.toJson [("about", .null), ("at", .int 1)] memoGiven =
      [("about", .null), ("at", .int Int64.minValue.toInt), ("note", .str " a=\"b\" "), ("urgent", .bool true)] := by
    rw [overlay, Json.sortFields, List.mergeSort_of_pairwise (by decide +kernel)]
    rfl
  refine ⟨valid, memoGiven_assigns, ?_⟩
  rw [← pairs, (readArguments_pairs valid memoGiven_assigns _).1, base, Except.map, laid]
  rfl

end CommandLine

end ScriptTools
