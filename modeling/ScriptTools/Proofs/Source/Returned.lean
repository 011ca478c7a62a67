import ScriptTools.Proofs.Guest.Locals
import ScriptTools.Proofs.Source.Statements

/-!
Tools whose code returns one of their arguments. The script gives the value that was bound, whatever it is and
whatever the other arguments are bound to.
-/

namespace ScriptTools.Source

open Guest (Flow Stat State Value)
open Guest.Lexer Text

/-! Values -/

/-- A value as scripts have it. -/
def scriptValue : Scalar → Value
  | .string s => .text s
  | .int i => .int i
  | .float x => .number (if Decimal.isNegative x then .float (-readBack x) else .float (readBack x))
  | .boolean b => .bool b

theorem ofInt_signed (i : Int) (negative : i < 0) : 0 - Int64.ofInt i.natAbs = Int64.ofInt i := by
  rw [Int64.zero_sub, ← Int64.ofInt_neg, Int.ofNat_natAbs_of_nonpos (Int.le_of_lt negative), Int.neg_neg]

/-- The literal of a value stands for it. -/
theorem value_scalarLiteral (v : Scalar) : (scalarLiteral v).value = scriptValue v := by
  cases v with
  | string s => rfl
  | boolean b => rfl
  | float x =>
    rw [scalarLiteral, Guest.Literal.value, scriptValue]
    cases Decimal.isNegative x <;> rfl
  | int i =>
    rw [scalarLiteral]
    split
    · rename_i smallest
      rw [smallest]
      rfl
    · rw [Guest.Literal.value, scriptValue]
      by_cases negative : i.toInt < 0
      · rw [decide_eq_true negative, if_pos rfl, Guest.negateNumber, ofInt_signed _ negative, Int64.ofInt_toInt]
        rfl
      · rw [decide_eq_false negative, if_neg Bool.false_ne_true, Int.natAbs_of_nonneg (Int.not_lt.mp negative), Int64.ofInt_toInt]
        rfl

/-! Sources -/

theorem tokens_return {x : String} (identifier : isIdentifier x = true) :
    tokens ("return " ++ x) = Guest.returnLexemes x.toUTF8 := by
  have text : ("return " ++ x).toUTF8.toList = 114 :: ([101, 116, 117, 114, 110] ++ 32 :: (utf8 x.toList ++ [])) := by
    rw [toUTF8_toList, String.toList_append, utf8_append, List.append_nil]
    rfl
  have word : tokensAfter [] 1 (114 :: ([101, 116, 117, 114, 110] ++ 32 :: (utf8 x.toList ++ []))) =
      ⟨.keyword .return_, 1⟩ :: tokensAfter [] 1 (32 :: (utf8 x.toList ++ [])) :=
    tokensAfter_word rfl (List.all_eq_true.mp rfl) (endsWord_cons rfl)
  rw [tokens, text, word, tokensAfter_space, tokensAfter_identifier identifier endsWord_nil, tokensAfter_nil]
  rfl

theorem head?_build {bindings : List Binding} {t : Tool} {source : String} (run : build bindings t = .ok source)
    (declares : t.args ≠ []) : source.toList.head? = some 'l' := by
  obtain ⟨lines, mapped, run⟩ := bind_eq_ok.mp run
  cases run
  cases args : t.args with
  | nil => exact absurd args declares
  | cons a rest =>
    rw [args, List.mapM_cons] at mapped
    obtain ⟨text, first, mapped⟩ := bind_eq_ok.mp mapped
    obtain ⟨texts, _, mapped⟩ := bind_eq_ok.mp mapped
    cases mapped
    obtain ⟨_, value, _, rfl⟩ := line_eq_ok.mp first
    simp [String.toList_join]

/-- The source of a call of a tool that returns an argument. -/
theorem readScript_returned {bindings : List Binding} {t : Tool} {source x : String} (script : String)
    (plain : ∀ a ∈ t.args, Plain bindings a) (built : build bindings t = .ok source) (declares : t.args ≠ [])
    (few : t.args.length ≤ Guest.Scope.variableLimit) (identifier : isIdentifier x = true)
    (code : t.code = "return " ++ x) :
    ∃ line, Guest.readScript script source =
      .ok ((declared bindings t.args).statements 1 ++ [.return [.name x.toUTF8 line]]) := by
  obtain ⟨k, ts, mirrors, text⟩ := tokens_build plain built
  rw [code, tokens_return identifier] at mirrors
  have room : (declared bindings t.args).length ≤ Guest.Scope.variableLimit := by rwa [declared, List.length_map]
  have plainText : (source.toList.head? == some '\x1b') = false := by
    rw [head?_build built declares]
    rfl
  refine ⟨1 + k, Guest.readScript_of_compile plainText ?_⟩
  rw [Guest.compile, text]
  exact Guest.parse_return room mirrors

end ScriptTools.Source
