import ScriptTools.Guest.Script
import ScriptTools.Proofs.Source.Line

/-!
The source of a call is read as the declarations of its arguments and the statements of the code. The code
stands apart from the declarations unless it starts with a parenthesis after the smallest integer: that one is
written in parentheses, and the two together are a call.
-/

namespace ScriptTools.Source

open Guest (Lexeme Block Stat shift)
open Guest.Lexer Text

/-- What follows the break of a line is no second half of it. -/
theorem dropPair_lines {bindings : List Binding} {args : List Argument} {lines : List String}
    (plain : ∀ a ∈ args, Plain bindings a) (run : args.mapM (line bindings) = .ok lines) (rest : List UInt8) :
    dropPair 10 (utf8 (String.join lines).toList ++ 10 :: rest) = utf8 (String.join lines).toList ++ 10 :: rest := by
  cases args with
  | nil =>
    cases run
    exact dropPair_eq (by decide)
  | cons a args =>
    rw [List.mapM_cons] at run
    obtain ⟨text, first, run⟩ := bind_eq_ok.mp run
    obtain ⟨texts, _, run⟩ := bind_eq_ok.mp run
    cases run
    obtain ⟨front, bytes, _⟩ := line_reads (plain a (by simp)) first
    rw [toUTF8_toList] at bytes
    rw [String.toList_join, List.flatMap_cons, utf8_append, bytes]
    exact dropPair_eq (by decide)

/-- Lines one after the other are the tokens of their declarations. -/
theorem tokensAfter_lines {bindings : List Binding} {args : List Argument} {lines : List String}
    (plain : ∀ a ∈ args, Plain bindings a) (run : args.mapM (line bindings) = .ok lines) (l : Nat) (rest : List UInt8) :
    tokensAfter [] l (utf8 (String.join lines).toList ++ 10 :: rest) =
      Guest.Declared.lexemes l (declared bindings args) ++ tokensAfter [] (l + args.length) (10 :: rest) := by
  induction args generalizing lines l with
  | nil =>
    cases run
    rfl
  | cons a args ih =>
    rw [List.mapM_cons] at run
    obtain ⟨text, first, run⟩ := bind_eq_ok.mp run
    obtain ⟨texts, others, run⟩ := bind_eq_ok.mp run
    cases run
    have plain' : ∀ b ∈ args, Plain bindings b := fun b member => plain b (by simp [member])
    obtain ⟨front, bytes, reads⟩ := line_reads (plain a (by simp)) first
    rw [toUTF8_toList] at bytes
    have next := ih plain' others (l + 1)
    rw [← dropPair_lines plain' others, ← tokensAfter_newline, String.toList_join] at next
    have here := reads l (utf8 (texts.flatMap String.toList) ++ 10 :: rest)
    rw [next] at here
    have lines : l + (a :: args).length = l + 1 + args.length := by
      rw [List.length_cons]
      omega
    rw [String.toList_join, List.flatMap_cons, utf8_append, bytes, lines]
    simpa [declared, Guest.Declared.lexemes] using here

/-- The tokens of a source are those of its declarations and those of the code some lines further down. -/
theorem tokens_build {bindings : List Binding} {t : Tool} {source : String}
    (plain : ∀ a ∈ t.args, Plain bindings a) (run : build bindings t = .ok source) :
    ∃ k ts, List.Forall₂ (Lexeme.Mirrors k) (tokens t.code) ts ∧
      tokens source = Guest.Declared.lexemes 1 (declared bindings t.args) ++ ts := by
  obtain ⟨lines, mapped, run⟩ := bind_eq_ok.mp run
  cases run
  cases args : t.args with
  | nil =>
    rw [args] at mapped
    cases mapped
    exact ⟨0, _, tokensAfter_below (skipBlanks_below 0 1 _) .nil, rfl⟩
  | cons a rest =>
    have some : lines.isEmpty = false := by
      rw [args, List.mapM_cons] at mapped
      obtain ⟨_, _, mapped⟩ := bind_eq_ok.mp mapped
      obtain ⟨_, _, mapped⟩ := bind_eq_ok.mp mapped
      cases mapped
      rfl
    obtain ⟨k, mirrors⟩ := tokensAfter_newline_below t.code.toUTF8.toList (Nat.le_add_right 1 t.args.length)
    refine ⟨k, _, mirrors, ?_⟩
    rw [← args, ← tokensAfter_lines plain mapped 1, some, tokens, toUTF8_toList, toUTF8_toList, if_neg nofun,
      String.toList_append, String.toList_append, utf8_append, utf8_append, List.append_assoc]
    rfl

/-! The statements of a source -/

/-- The statement that binds an argument on a line. -/
def declaration (bindings : List Binding) (line : Nat) (a : Argument) : Stat :=
  .declare [(a.name.toUTF8, .plain)] [(boundValue bindings a).expr line] line

/-- One statement for each argument in the order of declaration, each on a line of its own. -/
def declarations (bindings : List Binding) (args : List Argument) : Block :=
  args.mapIdx fun i a => declaration bindings (i + 1) a

theorem statements_declared (bindings : List Binding) (args : List Argument) :
    Guest.Declared.statements 1 (declared bindings args) = declarations bindings args := by
  have from_ (l : Nat) : Guest.Declared.statements l (declared bindings args) =
      args.mapIdx fun i a => declaration bindings (i + l) a := by
    induction args generalizing l with
    | nil => rfl
    | cons a args ih =>
      rw [List.mapIdx_cons]
      change _ :: Guest.Declared.statements (l + 1) (declared bindings args) = _
      rw [ih]
      simp [declaration, Nat.add_comm, Nat.add_left_comm]
  exact from_ 1

/-- Whether the value of the last argument is the smallest integer and the code starts with a parenthesis. -/
def Joins (bindings : List Binding) (t : Tool) : Prop :=
  (∃ a b, t.args.getLast? = some a ∧ (bindings.find? fun b => b.name = a.name) = some b ∧
    b.value = .int Int64.minValue) ∧
  (tokens t.code).head?.map (·.token) = some (.mark .openParen)

theorem scalarLiteral_eq_smallest {v : Scalar} : scalarLiteral v = .smallest ↔ v = .int Int64.minValue := by
  cases v with
  | int i =>
    rw [scalarLiteral]
    split <;> simp_all
  | _ => simp [scalarLiteral]

theorem boundValue_eq_smallest {bindings : List Binding} {a : Argument} : boundValue bindings a = .smallest ↔
    ∃ b, (bindings.find? fun b => b.name = a.name) = some b ∧ b.value = .int Int64.minValue := by
  rw [boundValue]
  cases bindings.find? fun b => b.name = a.name with
  | none => simp
  | some b => simp [scalarLiteral_eq_smallest]

theorem joins_iff {bindings : List Binding} {t : Tool} {u : Lexeme} {ts : List Lexeme} (text : tokens t.code = u :: ts) :
    Joins bindings t ↔ (declared bindings t.args).Joins u.token := by
  rw [Joins, Guest.Declared.Joins, text, declared, List.getLast?_map]
  constructor
  · rintro ⟨⟨a, b, last, found, smallest⟩, paren⟩
    refine ⟨Option.some.inj paren, a.name.toUTF8, ?_⟩
    rw [last, Option.map_some, boundValue_eq_smallest.mpr ⟨b, found, smallest⟩]
  · rintro ⟨paren, x, last⟩
    obtain ⟨a, last, same⟩ := Option.map_eq_some_iff.mp last
    obtain ⟨b, found, smallest⟩ := boundValue_eq_smallest.mp (congrArg Prod.snd same)
    exact ⟨⟨a, b, last, found, smallest⟩, congrArg some paren⟩

/-- The source of a call is read as one declaration for each argument, in order, and the statements of the code
some lines further down, exactly if the code does not join the last declaration. -/
theorem compile_build_iff {bindings : List Binding} {t : Tool} {source : String} {body : Block}
    (plain : ∀ a ∈ t.args, Plain bindings a) (built : build bindings t = .ok source)
    (valid : Guest.compile t.code = .ok body) (few : ¬ Guest.TooManyVariables (Guest.compile source)) :
    (∃ k, Guest.compile source = .ok (declarations bindings t.args ++ Stat.shiftAll k body)) ↔ ¬ Joins bindings t := by
  obtain ⟨k, ts, mirrors, text⟩ := tokens_build plain built
  rw [Guest.compile, text] at few ⊢
  rw [Guest.compile] at valid
  rw [← statements_declared]
  cases code : tokens t.code with
  | nil => exact absurd code (tokensAfter_ne_nil _ _ _)
  | cons u us =>
    rw [code] at valid mirrors
    rw [joins_iff code]
    constructor
    · rintro ⟨k, run⟩ joins
      cases mirrors with
      | cons first others =>
        have same := first.resolve_right fun broken => by
          rw [joins.1] at broken
          exact nomatch broken.1
        rw [same] at run
        exact Guest.parse_joined (t := shift _ u) joins _ run
    · intro apart
      refine ⟨k, ?_⟩
      rw [Guest.shift_stats]
      exact (Guest.parse_declared mirrors apart valid).resolve_right few

/-- A tool of one integer. -/
def ofInteger (code : String) : Tool :=
  { id := default, name := "needle", code, args := [{ name := "n", type := .int }], returnType := .int,
    createdAt := default, updatedAt := default }

/-- The smallest integer for the argument of such a tool. -/
def smallest : List Binding := [⟨"n", .int Int64.minValue⟩]

theorem build_smallest (code : String) :
    build smallest (ofInteger code) = .ok ("local n = (-9223372036854775807 - 1)\n\n" ++ code) := rfl

theorem smallest_plain (code : String) : ∀ a ∈ (ofInteger code).args, Plain smallest a := by
  intro a member
  obtain rfl := List.mem_singleton.mp member
  exact .inr rfl

theorem compile_build_iff_smallest : ∃ body k, Guest.compile "return n" = .ok body ∧
    Guest.compile "local n = (-9223372036854775807 - 1)\n\nreturn n" =
      .ok (declarations smallest (ofInteger "return n").args ++ Stat.shiftAll k body) := by
  obtain ⟨body, valid⟩ := exists_of_isOk (by decide +kernel : (Guest.compile "return n").isOk = true)
  obtain ⟨whole, reads⟩ := exists_of_isOk
    (by decide +kernel : (Guest.compile "local n = (-9223372036854775807 - 1)\n\nreturn n").isOk = true)
  have few : ¬ Guest.TooManyVariables (Guest.compile "local n = (-9223372036854775807 - 1)\n\nreturn n") := by
    rintro ⟨_, _, error⟩
    rw [reads] at error
    cases error
  obtain ⟨k, run⟩ := (compile_build_iff (smallest_plain "return n") (build_smallest "return n") valid few).mpr
    fun joins => by
      have paren := congrArg (Option.map (Guest.Parser.isMark .openParen)) joins.2
      rw [Option.map_map] at paren
      exact absurd paren (by decide +kernel)
  exact ⟨body, k, valid, run⟩

/-- A parenthesis after the smallest integer: the two are a call, and the first statement of the code is gone. -/
theorem compile_build_joined_smallest : ∃ body whole, Guest.compile "(tostring)(1) return 5" = .ok body ∧
    build smallest (ofInteger "(tostring)(1) return 5") =
      .ok "local n = (-9223372036854775807 - 1)\n\n(tostring)(1) return 5" ∧
    Guest.compile "local n = (-9223372036854775807 - 1)\n\n(tostring)(1) return 5" = .ok whole ∧
    ∀ k, whole ≠ declarations smallest (ofInteger "(tostring)(1) return 5").args ++ Stat.shiftAll k body := by
  obtain ⟨body, valid⟩ := exists_of_isOk (by decide +kernel : (Guest.compile "(tostring)(1) return 5").isOk = true)
  obtain ⟨whole, reads⟩ := exists_of_isOk (by decide +kernel :
    (Guest.compile "local n = (-9223372036854775807 - 1)\n\n(tostring)(1) return 5").isOk = true)
  have short : (Guest.compile "local n = (-9223372036854775807 - 1)\n\n(tostring)(1) return 5").map List.length =
      (Guest.compile "(tostring)(1) return 5").map List.length := by decide +kernel
  refine ⟨body, whole, valid, build_smallest _, reads, ?_⟩
  rintro k rfl
  rw [reads, valid] at short
  have same := Except.ok.inj short
  rw [List.length_append, Stat.shiftAll_eq_map, List.length_map] at same
  have one : (declarations smallest (ofInteger "(tostring)(1) return 5").args).length = 1 := rfl
  omega

end ScriptTools.Source
