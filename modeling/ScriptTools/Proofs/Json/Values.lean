import ScriptTools.Json.Document
import ScriptTools.Proofs.Json.Fields

/-!
What documents become as values: which numbers are integers, and what stands in an object for a name that
may be written more than once.
-/

namespace ScriptTools.Json

open List (Forall₂)

namespace NumberToken

variable {n : NumberToken} {i : Int}

/-- The number that digits make up after one that is read so far. -/
def continued (start : Nat) (ds : List Char) : Nat := ds.foldl (fun n c => n * 10 + Decimal.digitValue c) start

theorem le_continued (start : Nat) (ds : List Char) : start ≤ continued start ds := by
  induction ds generalizing start with
  | nil => exact Nat.le_refl _
  | cons d ds ih =>
    calc start ≤ start * 10 + Decimal.digitValue d := by omega
      _ ≤ continued start (d :: ds) := ih _

/-- All digits are taken in when they make up a number of 64 bits. -/
theorem takeDigits_of_lt {start taken : Nat} {ds : List Char} (small : continued start ds < bound) :
    takeDigits start taken ds = (continued start ds, taken + ds.length, []) := by
  induction ds generalizing start taken with
  | nil => rfl
  | cons d ds ih =>
    have next : start * 10 + Decimal.digitValue d < bound := (le_continued _ ds).trans_lt small
    rw [takeDigits, if_pos next, ih small, List.length_cons, Nat.add_assoc, Nat.add_comm 1]
    rfl

theorem lt_of_takeDigits {start taken : Nat} {ds : List Char} (fits : start < bound)
    (all : (takeDigits start taken ds).2.2 = []) : continued start ds < bound := by
  induction ds generalizing start taken with
  | nil => exact fits
  | cons d ds ih =>
    rw [takeDigits] at all
    split at all
    next next => exact ih next all
    next => cases all

/-- The integer that the digits before the point make up with the sign. -/
def integer (n : NumberToken) : Int :=
  if n.negative then -(Decimal.natOfDigits n.whole : Int) else Decimal.natOfDigits n.whole

/-- A number that is written as an integer. A zero with a sign is none. -/
structure IsWhole (n : NumberToken) : Prop where
  fraction : n.fraction = []
  exponent : n.exponent = none
  unsigned : n.integer = 0 → n.negative = false

/-- A number with a fraction, an exponent or too many digits is a double, if it is in range. -/
theorem value?_of_notInteger
    (other : n.fraction ≠ [] ∨ n.exponent ≠ none ∨ bound ≤ Decimal.natOfDigits n.whole) :
    ∃ x : Option Float, n.value? = x.map .float := by
  have left : ((takeDigits 0 0 n.whole).2.2.isEmpty && n.fraction.isEmpty && n.exponent.isNone) = false := by
    rw [Bool.and_eq_false_iff, Bool.and_eq_false_iff, List.isEmpty_eq_false_iff, List.isEmpty_eq_false_iff,
      Option.isNone_eq_false_iff, Option.isSome_iff_ne_none]
    rcases other with fraction | exponent | large
    · exact .inl (.inr fraction)
    · exact .inr exponent
    · exact .inl (.inl fun all => absurd (lt_of_takeDigits (by decide) all) (Nat.not_lt.mpr large))
  exact ⟨_, by simp only [value?, left, Bool.false_eq_true, if_false]; rfl⟩

theorem value?_of_integer (fraction : n.fraction = []) (exponent : n.exponent = none)
    (small : Decimal.natOfDigits n.whole < bound) :
    n.value? =
      if n.negative = false then some (.int (Decimal.natOfDigits n.whole))
      else if Decimal.natOfDigits n.whole = 0 then some (.float (-0.0))
      else if Decimal.natOfDigits n.whole ≤ Nat.pow 2 63 then some (.int (-(Decimal.natOfDigits n.whole : Int)))
      else some (.float (-(UInt64.ofNat (Decimal.natOfDigits n.whole)).toFloat)) := by
  have taken : takeDigits 0 0 n.whole = (Decimal.natOfDigits n.whole, 0 + n.whole.length, []) := takeDigits_of_lt small
  simp only [value?, taken, fraction, exponent, List.isEmpty_nil, Option.isNone_none, Bool.and_self, if_true]
  cases n.negative <;> rfl

/-- Numbers are read as integers that are written as such and fit 64 bits, with a sign or without. -/
theorem value?_eq_int : n.value? = some (.int i) ↔ n.IsWhole ∧ n.integer = i ∧ -9223372036854775808 ≤ i ∧ i < 18446744073709551616 := by
  by_cases written : n.fraction = [] ∧ n.exponent = none ∧ Decimal.natOfDigits n.whole < bound
  · obtain ⟨fraction, exponent, small⟩ := written
    have whole : n.IsWhole ↔ (n.integer = 0 → n.negative = false) :=
      ⟨IsWhole.unsigned, fun unsigned => ⟨fraction, exponent, unsigned⟩⟩
    rw [value?_of_integer fraction exponent small, whole, integer]
    simp only [bound, Nat.pow_eq] at small
    cases n.negative <;> simp <;> grind
  · have large : ¬ (n.IsWhole ∧ n.integer = i ∧ -9223372036854775808 ≤ i ∧ i < 18446744073709551616) := by
      rintro ⟨whole, rfl, low, high⟩
      refine written ⟨whole.fraction, whole.exponent, ?_⟩
      rw [bound, Nat.pow_eq]
      cases sign : n.negative <;> simp only [integer, sign, Bool.false_eq_true, if_false, if_true] at low high <;> omega
    obtain ⟨x, value⟩ := value?_of_notInteger (n := n) (by grind)
    exact iff_of_false (by cases x <;> simp [value]) large

theorem int_or_float_of_value? {v : Json} (value : n.value? = some v) : (∃ i, v = .int i) ∨ ∃ x, v = .float x := by
  by_cases written : n.fraction = [] ∧ n.exponent = none ∧ Decimal.natOfDigits n.whole < bound
  · rw [value?_of_integer written.1 written.2.1 written.2.2] at value
    grind
  · obtain ⟨x, same⟩ := value?_of_notInteger (n := n) (by grind)
    obtain ⟨y, _, rfl⟩ := Option.map_eq_some_iff.mp (same.symm.trans value)
    exact .inr ⟨y, rfl⟩

end NumberToken

namespace Document

variable {d : Document} {depth : Nat}

theorem toJson?_eq_str {s : String} : d.toJson? depth = some (.str s) ↔ d = .string (some s) := by
  cases d with
  | number n => exact iff_of_false (fun value => by simpa using NumberToken.int_or_float_of_value? value) nofun
  | string s => simp [toJson?]
  | array => cases depth <;> simp [toJson?]
  | object => cases depth <;> simp [toJson?, ofFields]
  | _ => simp [toJson?]

theorem toJson?_eq_int {i : Int} : d.toJson? depth = some (.int i) ↔ ∃ n, d = .number n ∧ n.value? = some (.int i) := by
  cases d with
  | number n => simp [toJson?]
  | array => cases depth <;> simp [toJson?]
  | object => cases depth <;> simp [toJson?, ofFields]
  | _ => simp [toJson?]

theorem toJson?_eq_bool {b : Bool} : d.toJson? depth = some (.bool b) ↔ d = .boolean b := by
  cases d with
  | number n => exact iff_of_false (fun value => by simpa using NumberToken.int_or_float_of_value? value) nofun
  | array => cases depth <;> simp [toJson?]
  | object => cases depth <;> simp [toJson?, ofFields]
  | _ => simp [toJson?]

theorem toJson?_eq_float {x : Float} :
    d.toJson? depth = some (.float x) ↔ ∃ n, d = .number n ∧ n.value? = some (.float x) := by
  cases d with
  | number n => simp [toJson?]
  | array => cases depth <;> simp [toJson?]
  | object => cases depth <;> simp [toJson?, ofFields]
  | _ => simp [toJson?]

/-- What stands for a name among the fields of an object; what is written last counts. -/
def last? (fields : List (Option String × Document)) (name : String) : Option Document :=
  fields.reverse.lookup (some name)

theorem forall₂_of_fieldsToJson? {fields : List (Option String × Document)} {values : List (String × Json)}
    (read : fieldsToJson? depth fields = some values) :
    Forall₂ (fun f v => f.1 = some v.1 ∧ f.2.toJson? depth = some v.2) fields values := by
  induction fields generalizing values with
  | nil =>
    cases read
    exact .nil
  | cons f fields ih =>
    simp only [fieldsToJson?, Option.bind_eq_bind, Option.bind_eq_some_iff, Option.pure_def, Option.some.injEq] at read
    obtain ⟨name, named, v, value, rest, others, rfl⟩ := read
    exact .cons ⟨named, value⟩ (ih others)

theorem lookup_of_forall₂ {fields : List (Option String × Document)} {values : List (String × Json)}
    (same : Forall₂ (fun f v => f.1 = some v.1 ∧ f.2.toJson? depth = some v.2) fields values) {name : String}
    (found : fields.lookup (some name) = some d) : ∃ v, d.toJson? depth = some v ∧ values.lookup name = some v := by
  induction same with
  | nil => cases found
  | @cons f v fields values here _ ih =>
    obtain ⟨named, value⟩ := here
    rw [List.lookup_cons, named] at found
    rw [List.lookup_cons]
    by_cases this : name = v.1
    · simp only [this, beq_self_eq_true, Option.some.injEq] at found ⊢
      exact ⟨v.2, found ▸ value, rfl⟩
    · simp only [beq_false_of_ne this, Option.some_beq_some] at found ⊢
      exact ih found

/-- The value of an object has the values of what stands in it. -/
theorem lookup_of_toJson? {fields : List (Option String × Document)} {v : Json}
    (value : (Document.object fields).toJson? depth = some v) :
    ∃ below values, v = .obj values ∧ ∀ name d, last? fields name = some d →
      ∃ u, d.toJson? below = some u ∧ values.lookup name = some u := by
  cases depth with
  | zero => cases value
  | succ below =>
    obtain ⟨values, read, rfl⟩ := Option.map_eq_some_iff.mp value
    refine ⟨below, sortFields values, rfl, fun name d written => ?_⟩
    rw [lookup_sortFields]
    exact lookup_of_forall₂ (List.forall₂_reverse_iff.mpr (forall₂_of_fieldsToJson? read)) written

end Document

end ScriptTools.Json
