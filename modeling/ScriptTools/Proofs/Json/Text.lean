import Mathlib.Init
import ScriptTools.Proofs.Json.Number
import ScriptTools.Proofs.Text.Basic

/-!
The characters of JSON text. None of them is a control character, so no text has a line end.
-/

namespace ScriptTools.Json

/-- The characters of a text between quotes. -/
def quotedChars (s : String) : List Char := '"' :: s.toList.flatMap escapeChar ++ ['"']

mutual

/-- The characters of the text of a value. -/
def chars : Json → List Char
  | .null => ['n', 'u', 'l', 'l']
  | .bool b => if b then ['t', 'r', 'u', 'e'] else ['f', 'a', 'l', 's', 'e']
  | .int i => (toString i).toList
  | .float x => (floatText x).toList
  | .str s => quotedChars s
  | .arr [] => ['[', ']']
  | .arr (v :: rest) => '[' :: chars v ++ itemsChars rest ++ [']']
  | .obj [] => ['{', '}']
  | .obj ((name, v) :: rest) => '{' :: quotedChars name ++ ':' :: chars v ++ fieldsChars rest ++ ['}']

def itemsChars : List Json → List Char
  | [] => []
  | v :: rest => ',' :: chars v ++ itemsChars rest

def fieldsChars : List (String × Json) → List Char
  | [] => []
  | (name, v) :: rest => ',' :: quotedChars name ++ ':' :: chars v ++ fieldsChars rest

end

theorem quoted_toList (s : String) : (quoted s).toList = quotedChars s := by
  rw [quoted, String.toList_push, Text.foldl_written_toList]
  rfl

mutual

theorem write_toList (out : String) (v : Json) : (write out v).toList = out.toList ++ chars v := by
  match v with
  | .null => simp [write, chars]
  | .bool b => cases b <;> simp [write, chars]
  | .int i => simp [write, chars]
  | .float x => simp [write, chars]
  | .str s => simp [write, chars, quoted_toList]
  | .arr [] => simp [write, chars]
  | .arr (v :: rest) => simp [write, chars, write_toList _ v, writeItems_toList _ rest]
  | .obj [] => simp [write, chars]
  | .obj ((name, v) :: rest) =>
    simp [write, chars, write_toList _ v, writeFields_toList _ rest, quoted_toList]

theorem writeItems_toList (out : String) (items : List Json) :
    (writeItems out items).toList = out.toList ++ itemsChars items := by
  match items with
  | [] => simp [writeItems, itemsChars]
  | v :: rest => simp [writeItems, itemsChars, write_toList _ v, writeItems_toList _ rest]

theorem writeFields_toList (out : String) (fields : List (String × Json)) :
    (writeFields out fields).toList = out.toList ++ fieldsChars fields := by
  match fields with
  | [] => simp [writeFields, fieldsChars]
  | (name, v) :: rest =>
    simp [writeFields, fieldsChars, write_toList _ v, writeFields_toList _ rest, quoted_toList]

end

theorem compact_toList (v : Json) : v.compact.toList = chars v := by
  rw [compact, write_toList]
  rfl

/-! Controls -/

/-- Whether no character of a text is a control character of ASCII. -/
def IsPlain (cs : List Char) : Prop := ∀ c ∈ cs, 32 ≤ c.toNat

theorem IsPlain.append {cs ds : List Char} (left : IsPlain cs) (right : IsPlain ds) : IsPlain (cs ++ ds) :=
  fun c member => (List.mem_append.mp member).elim (left c) (right c)

theorem IsPlain.cons {c : Char} {cs : List Char} (first : 32 ≤ c.toNat) (rest : IsPlain cs) : IsPlain (c :: cs) :=
  List.forall_mem_cons.mpr ⟨first, rest⟩

theorem isPlain_digits {ds : List Char} (digits : ∀ d ∈ ds, d.isDigit = true) : IsPlain ds := by
  intro d member
  have bound := Decimal.of_isDigit (p := fun c => decide (32 ≤ c.toNat)) (by decide) (digits d member)
  exact of_decide_eq_true bound

theorem isPlain_number {cs : List Char} (number : Token.IsNumberText cs) : IsPlain cs := by
  obtain ⟨⟨negative, whole, fraction, exponent⟩, number, rfl⟩ := number
  refine .append ?_ ((isPlain_digits number.whole).append (.append ?_ ?_))
  · cases negative <;> simp [IsPlain]
  · cases fraction with
    | nil => simp [IsPlain, Token.fractionChars]
    | cons d ds => exact .cons (by decide) (isPlain_digits number.fraction)
  · cases exponent with
    | none => simp [IsPlain, Token.exponentChars]
    | some written =>
      have digits := isPlain_digits (number.exponent written.1 written.2 rfl).2
      cases negative : written.1 <;> simp only [Token.exponentChars, negative] <;>
        exact .cons (by decide) (.cons (by decide) digits)

theorem isPlain_escapeChar (c : Char) : IsPlain (escapeChar c) := by
  unfold escapeChar
  split
  case h_8 =>
    split
    case isTrue control =>
      have digit {n : Nat} (small : n < 16) : 32 ≤ (Text.hexDigit n).toNat := le_trans (by decide) (Text.le_hexDigit small)
      have high := digit (n := c.toNat / 16) (by omega)
      have low := digit (n := c.toNat % 16) (by omega)
      simp [IsPlain, high, low]
    case isFalse control => exact .cons (Nat.not_lt.mp control) (by simp [IsPlain])
  all_goals simp [IsPlain]

theorem isPlain_quoted (s : String) : IsPlain (quotedChars s) := by
  refine .cons (by decide) (.append (fun d member => ?_) (by simp [IsPlain]))
  obtain ⟨c, _, member⟩ := List.mem_flatMap.mp member
  exact isPlain_escapeChar c d member

theorem isPlain_member (name : String) {v : List Char} (value : IsPlain v) : IsPlain (quotedChars name ++ ':' :: v) :=
  (isPlain_quoted name).append (.cons (by decide) value)

mutual

theorem isPlain_chars (v : Json) : IsPlain (chars v) := by
  match v with
  | .null => simp [IsPlain, chars]
  | .bool b => cases b <;> simp [IsPlain, chars]
  | .int i => exact isPlain_number (Token.isNumberText_int i)
  | .float x =>
    by_cases finite : x.isFinite = true
    · exact isPlain_number (Token.isNumberText_float finite)
    · simp [IsPlain, chars, floatText, finite]
  | .str s => exact isPlain_quoted s
  | .arr [] => simp [IsPlain, chars]
  | .arr (v :: items) =>
    exact .append (.append (.cons (by decide) (isPlain_chars v)) (isPlain_items items)) (by simp [IsPlain])
  | .obj [] => simp [IsPlain, chars]
  | .obj ((name, v) :: fields) =>
    have inner := (isPlain_member name (isPlain_chars v)).append (isPlain_fields fields)
    exact .append (.cons (by decide) inner) (by simp [IsPlain])

theorem isPlain_items (items : List Json) : IsPlain (itemsChars items) := by
  match items with
  | [] => simp [IsPlain, itemsChars]
  | v :: items => exact .append (.cons (by decide) (isPlain_chars v)) (isPlain_items items)

theorem isPlain_fields (fields : List (String × Json)) : IsPlain (fieldsChars fields) := by
  match fields with
  | [] => simp [IsPlain, fieldsChars]
  | (name, v) :: fields =>
    exact .cons (by decide) ((isPlain_member name (isPlain_chars v)).append (isPlain_fields fields))

end

theorem newline_notMem_compact (v : Json) : '\n' ∉ v.compact.toList := by
  intro member
  rw [compact_toList] at member
  exact absurd (isPlain_chars _ _ member) (by decide)

end ScriptTools.Json
