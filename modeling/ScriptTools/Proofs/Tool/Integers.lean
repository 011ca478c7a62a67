import ScriptTools.Proofs.Json.Exact
import ScriptTools.Proofs.Json.Tokens
import ScriptTools.Proofs.Tool.Given

/-!
Numbers given for integers. A number is bound as the integer that it is unless it passes through a double and is rounded
to another one.
-/

namespace ScriptTools

open Json (Document NumberToken)

namespace Argument

variable {n : NumberToken} {v : Json} {i : Int64}

theorem coerce?_int_iff {j : Int} : coerce? .int (.int j) = some (.int i) ↔ j = i.toInt := by
  rw [coerce?, intOfInteger?]
  split
  · rename_i fits
    rw [Decimal.fitsInt64_iff] at fits
    rw [Option.map_some, Option.some_inj, Scalar.int.injEq, ← Int64.toInt_inj, fits]
  · rename_i large
    rw [Decimal.fitsInt64_iff] at large
    refine iff_of_false (Option.some_ne_none _).symm ?_
    rintro rfl
    exact large (by rw [Int64.ofInt_toInt])

theorem coerce?_float_iff {x : Float} : coerce? .int (.float x) = some (.int i) ↔ Decimal.whole? x = some i := by
  simp [coerce?]

/-- A number that is read as an integer is that integer. -/
theorem exact_of_value?_int {j : Int} (read : n.value? = some (.int j)) : n.exact = j := by
  obtain ⟨whole, rfl, _⟩ := NumberToken.value?_eq_int.mp read
  exact NumberToken.exact_of_whole whole.fraction whole.exponent

theorem exact_of_coerce?_iff (read : n.value? = some v) :
    (∀ i, coerce? .int v = some (.int i) → n.exact = i.toInt) ↔ ¬ n.Misread := by
  rcases NumberToken.int_or_float_of_value? read with ⟨j, rfl⟩ | ⟨x, rfl⟩
  · refine iff_of_true (fun i coerced => ?_) ?_
    · rw [exact_of_value?_int read, coerce?_int_iff.mp coerced]
    · rintro ⟨x, i, same, _⟩
      cases read.symm.trans same
  · constructor
    · rintro exact ⟨y, i, same, whole, other⟩
      cases read.symm.trans same
      exact other (exact i (coerce?_float_iff.mpr whole))
    · intro faithful i coerced
      by_contra other
      exact faithful ⟨x, i, read, coerce?_float_iff.mp coerced, other⟩

/-- A number written as an integer of 64 bits is read as that integer. -/
theorem coerce?_of_whole (fraction : n.fraction = []) (exponent : n.exponent = none) (read : n.value? = some v)
    (same : n.exact = i.toInt) : coerce? .int v = some (.int i) := by
  have integer : n.integer = i.toInt := by
    rw [NumberToken.exact_of_whole fraction exponent] at same
    exact_mod_cast same
  have low := i.le_toInt
  have high := i.toInt_lt
  by_cases unsigned : n.integer = 0 → n.negative = false
  · have value := NumberToken.value?_eq_int.mpr ⟨⟨fraction, exponent, unsigned⟩, integer, by omega, by omega⟩
    cases read.symm.trans value
    exact coerce?_int_iff.mpr rfl
  · -- A zero with a sign is read as a double.
    obtain ⟨zero, negative⟩ := Classical.not_imp.mp unsigned
    have none : Decimal.natOfDigits n.whole = 0 := by
      rw [NumberToken.integer] at zero
      split at zero <;> omega
    rw [NumberToken.value?_of_integer fraction exponent (by rw [none]; decide), if_neg negative, if_pos none] at read
    cases read
    have least : i = 0 := Int64.toInt_inj.mp (integer.symm.trans zero)
    rw [coerce?_float_iff, least]
    exact Decimal.whole?_negativeZero

theorem coerce?_of_short (short : n.Short) (read : n.value? = some v) :
    coerce? .int v = some (.int i) ↔ n.exact = i.toInt := by
  rcases NumberToken.int_or_float_of_value? read with ⟨j, rfl⟩ | ⟨x, rfl⟩
  · rw [coerce?_int_iff, exact_of_value?_int read]
    exact_mod_cast Iff.rfl
  · obtain ⟨finite, integers⟩ := NumberToken.value_of_short short read
    rw [coerce?_float_iff, Decimal.whole?_eq_some_iff, and_iff_right finite]
    exact integers i.toInt

/-- Whether the text of a call has a number for an argument. -/
structure Numbered (a : Argument) (text : String) (raw : List (String × Json)) (n : NumberToken) : Prop where
  written : ∃ fields, Document.read? text = some (.object fields) ∧ Document.last? fields a.name = some (.number n)
  parsed : Json.parse? text = some (.obj raw)

variable {a : Argument} {text : String} {raw : List (String × Json)}

theorem Numbered.isNumber (numbered : a.Numbered text raw n) : Json.Token.IsNumber n := by
  obtain ⟨fields, read, found⟩ := numbered.written
  obtain ⟨before, after, split, _⟩ := List.lookup_eq_some_iff.mp found
  have member : (some a.name, Document.number n) ∈ fields := List.mem_reverse.mp (by simp [split])
  exact Json.isNumber_of_read? read (.member member .number)

theorem Numbered.value (numbered : a.Numbered text raw n) : ∃ v, n.value? = some v ∧ a.given? raw = some v := by
  obtain ⟨⟨fields, read, found⟩, parsed⟩ := numbered
  rw [Json.parse?, read] at parsed
  change (Document.object fields).toJson? Document.depthLimit = some (.obj raw) at parsed
  obtain ⟨depth, values, same, lookup⟩ := Document.lookup_of_toJson? parsed
  cases same
  obtain ⟨v, value, there⟩ := lookup _ _ found
  rw [Document.toJson?] at value
  refine ⟨v, value, given?_eq_some.mpr ⟨there, ?_⟩⟩
  rintro rfl
  rcases NumberToken.int_or_float_of_value? value with ⟨_, same⟩ | ⟨_, same⟩ <;> cases same

theorem read_int_iff (type : a.type = .int) (given : a.given? raw = some v) :
    a.read raw = .ok (some ⟨a.name, .int i⟩) ↔ coerce? .int v = some (.int i) := by
  rw [read_eq_some]
  constructor
  · rintro ⟨_, u, there, coerced⟩
    cases given.symm.trans there
    rwa [type] at coerced
  · intro coerced
    exact ⟨rfl, v, given, type ▸ coerced⟩

end Argument

namespace Tool

variable {t : Tool} {a : Argument} {raw : List (String × Json)}

/-- What is bound to the name of an argument as an integer is what that argument is read as. -/
theorem mem_bindings_iff {read : Arguments} (run : t.readArguments raw = .ok read) (declared : a ∈ t.args)
    (type : a.type = .int) (i : Int64) : ⟨a.name, .int i⟩ ∈ read.bindings ↔ a.read raw = .ok (some ⟨a.name, .int i⟩) := by
  rw [Argument.read_eq_some]
  constructor
  · intro member
    obtain ⟨b, _, binds⟩ := exists_binds_of_mem run member
    have kind : a.type = b.type := type.trans binds.type
    obtain ⟨name, v, given, coerced⟩ := binds
    refine ⟨rfl, v, ?_, kind ▸ coerced⟩
    rw [← given, Argument.given?, Argument.given?, show a.name = b.name from name]
  · rintro ⟨_, v, given, coerced⟩
    have inside : a ∈ t.given raw := List.mem_filter.mpr ⟨declared, by simp [given]⟩
    obtain ⟨⟨name, value⟩, member, named, u, there, bound⟩ :=
      exists_mem_of_forall₂ (binds_of_readArguments run).1.flip a inside
    cases given.symm.trans there
    obtain rfl := Option.some.inj (coerced.symm.trans bound)
    obtain rfl : name = a.name := named
    exact member

/-- An argument for an integer that a number is given for: it is bound to an integer other than the number just when the
number is misread. Of numbers without a fraction and an exponent, those in range are bound to themselves, and those just
below the range are misread. Short numbers are bound to themselves or, when they are no integers, refused. -/
theorem readArguments_number {text : String} {n : NumberToken} (declared : a ∈ t.args) (type : a.type = .int)
    (numbered : a.Numbered text raw n) :
    (∀ read, t.readArguments raw = .ok read →
      ∀ i, ⟨a.name, .int i⟩ ∈ read.bindings ↔ a.read raw = .ok (some ⟨a.name, .int i⟩)) ∧
    ((∀ i, a.read raw = .ok (some ⟨a.name, .int i⟩) → n.exact = i.toInt) ↔ ¬ n.Misread) ∧
    (n.fraction = [] → n.exponent = none →
      (∀ i : Int64, n.exact = i.toInt → a.read raw = .ok (some ⟨a.name, .int i⟩)) ∧
      (n.Misread ↔ -(2 ^ 63 + 1024) ≤ n.exact ∧ n.exact < -2 ^ 63)) ∧
    (n.Short → ∀ i : Int64, a.read raw = .ok (some ⟨a.name, .int i⟩) ↔ n.exact = i.toInt) := by
  obtain ⟨v, value, given⟩ := numbered.value
  simp only [Argument.read_int_iff type given]
  refine ⟨fun read run i => ?_, Argument.exact_of_coerce?_iff value, fun fraction exponent =>
    ⟨fun i same => Argument.coerce?_of_whole fraction exponent value same,
      NumberToken.misread_iff_of_whole numbered.isNumber fraction exponent⟩,
    fun short i => Argument.coerce?_of_short short value⟩
  rw [mem_bindings_iff run declared type, Argument.read_int_iff type given]

def page : Argument := { name := "page", type := .int }

def paged : Tool :=
  { id := default, name := "paged", code := "return page", args := [page], returnType := .int, createdAt := default,
    updatedAt := default }

/-- The text of a call with a number for the page. -/
def pageText (number : String) : String := "\x7b\"page\":" ++ number ++ "\x7d"

def pageTokens (n : NumberToken) : List Json.Token :=
  [.beginObject, .string (some "page"), .colon, .number n, .endObject]

theorem numbered_page (text : String) {n : NumberToken} {v : Json} (tokens : Json.Token.readAll? text = some (pageTokens n))
    (value : n.value? = some v) : page.Numbered text [("page", v)] n := by
  have read : Document.read? text = some (.object [(some "page", .number n)]) := by
    rw [Document.read?, tokens]
    rfl
  refine ⟨⟨_, read, rfl⟩, ?_⟩
  have sorted : Json.ofFields [("page", v)] = .obj [("page", v)] :=
    congrArg Json.obj (Json.sortFields_eq_of_perm (.refl _) (List.pairwise_singleton ..))
  rw [Json.parse?, read, ← sorted]
  change Document.toJson? Document.depthLimit (.object [(some "page", .number n)]) = _
  simp [Document.depthLimit, Document.toJson?, Document.fieldsToJson?, value]

/-- The number `2.50e1`. -/
def twentyFive : NumberToken := ⟨false, ['2'], ['5', '0'], some (false, ['1'])⟩

theorem exact_twentyFive : twentyFive.exact = 25 := by
  have significand : twentyFive.significand = 250 := rfl
  have shift : twentyFive.shift = -1 := rfl
  rw [NumberToken.exact, significand, shift]
  norm_num [twentyFive]

theorem short_twentyFive : twentyFive.Short := by
  refine ⟨by decide, by decide, ?_⟩
  rw [exact_twentyFive]
  norm_num

theorem readArguments_number_twentyFive :
    page ∈ paged.args ∧ page.type = .int ∧ ∃ v, page.Numbered (pageText "2.50e1") [("page", v)] twentyFive ∧
      page.read [("page", v)] = .ok (some ⟨"page", .int 25⟩) := by
  have value : twentyFive.value? = some (.float ((UInt64.ofNat 250).toFloat / Decimal.ofScientific false 1 1)) := rfl
  have numbered := numbered_page (pageText "2.50e1") (by decide +kernel) value
  have declared : page ∈ paged.args := List.mem_singleton.mpr rfl
  refine ⟨declared, rfl, _, numbered, ?_⟩
  exact ((readArguments_number declared rfl numbered).2.2.2 short_twentyFive 25).mpr exact_twentyFive

/-- The integer below the least one of 64 bits. -/
def belowLeast : NumberToken := ⟨true, "9223372036854775809".toList, [], none⟩

theorem readArguments_number_belowLeast :
    ∃ raw read, page.Numbered (pageText "-9223372036854775809") raw belowLeast ∧ paged.readArguments raw = .ok read ∧
      ⟨"page", .int Int64.minValue⟩ ∈ read.bindings ∧ belowLeast.exact = -9223372036854775809 ∧
      belowLeast.exact ≠ Int64.minValue.toInt := by
  have value : belowLeast.value? = some (.float (-(UInt64.ofNat 9223372036854775809).toFloat)) := rfl
  have numbered := numbered_page (pageText "-9223372036854775809") (by decide +kernel) value
  have coerced : Argument.coerce? .int (.float (-(UInt64.ofNat 9223372036854775809).toFloat)) = some (.int Int64.minValue) :=
    Argument.coerce?_float_iff.mpr (by decide +kernel)
  have exact : belowLeast.exact = -9223372036854775809 := by
    rw [NumberToken.exact_of_whole rfl rfl, show belowLeast.integer = -9223372036854775809 by rfl]
    norm_num
  refine ⟨_, ⟨[⟨"page", .int Int64.minValue⟩], []⟩, numbered, ?_, List.mem_singleton.mpr rfl, exact, ?_⟩
  · have read : page.read [("page", .float (-(UInt64.ofNat 9223372036854775809).toFloat))] =
        .ok (some ⟨"page", .int Int64.minValue⟩) := (Argument.read_int_iff rfl rfl).mpr coerced
    change (do let bound ← [page].mapM (Argument.read _); pure _) = _
    rw [List.mapM_cons, read]
    rfl
  · rw [exact, show Int64.minValue.toInt = -9223372036854775808 by rfl]
    norm_num

end Tool

end ScriptTools
