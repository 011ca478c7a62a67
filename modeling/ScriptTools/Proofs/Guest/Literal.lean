import ScriptTools.Proofs.Guest.Mirror
import ScriptTools.Proofs.Text.Bytes

/-!
Declarations of one variable with a literal, as the grammar reads them.
-/

namespace ScriptTools.Guest

/-- The forms of a literal in the source of a call. -/
inductive Literal where
  | nil
  | bool (b : Bool)
  | string (s : ByteArray)
  | number (negative : Bool) (n : Number) (text : List UInt8)
  /-- The smallest integer, which is written as a difference in parentheses. -/
  | smallest

namespace Literal

/-- The numeral of an integer. -/
def numeral (n : Nat) : Token := .number (.int (Int64.ofInt n)) ((Decimal.digitChars n).map Text.byte)

def tokens : Literal → List Token
  | nil => [.keyword .nil_]
  | bool b => [.keyword (if b then .true_ else .false_)]
  | string s => [.string s (.quoted 34)]
  | number negative n text => (if negative then [.mark .minus] else []) ++ [.number n text]
  | smallest => [.mark .openParen, .mark .minus, numeral 9223372036854775807, .mark .minus, numeral 1,
      .mark .closeParen]

theorem exists_cons (l : Literal) : ∃ t ts, l.tokens = t :: ts ∧ ∀ m, t ≠ .broken m := by
  cases l with
  | number negative n text => cases negative <;> exact ⟨_, _, rfl, nofun⟩
  | _ => exact ⟨_, _, rfl, nofun⟩

/-- The expression that a literal on a line is. -/
def expr (line : Nat) : Literal → Expr
  | nil => .nil
  | bool b => .bool b
  | string s => .string s
  | number negative n _ => if negative then .unary .negate (.number n) line else .number n
  | smallest =>
    .paren (.binary (.arith .sub)
      (.unary .negate (.number (.int (Int64.ofInt 9223372036854775807))) line) (.number (.int (Int64.ofInt 1))) line)

end Literal

/-- A token that is an expression by itself. -/
inductive Atom : Token → Expr → Prop
  | nil : Atom (.keyword .nil_) .nil
  | true : Atom (.keyword .true_) (.bool true)
  | false : Atom (.keyword .false_) (.bool false)
  | number (n : Number) (text : List UInt8) : Atom (.number n text) (.number n)
  | string (s : ByteArray) (form : StringForm) : Atom (.string s form) (.string s)

theorem Atom.whole {t : Token} {e : Expr} (atom : Atom t e) : ¬ t.IsBroken := by
  rintro ⟨m, rfl⟩
  cases atom

theorem Atom.unaryOp? {t : Token} {e : Expr} (atom : Atom t e) : Parser.unaryOp? t = none := by
  cases atom <;> rfl

namespace Parser

/-- Whether an expression in parentheses goes on with a token. -/
def startsSuffix : Token → Bool
  | .mark .dot | .mark .openBracket | .mark .colon => true
  | t => Grammar.startsArguments t

/-- A token that an expression above a limit does not go on with. -/
def Stops (limit : Nat) (t : Token) : Prop := ∀ op, binaryOp? t = some op → (binding op).1 ≤ limit

/-- A literal is over where a token follows that it cannot go on with. -/
structure Ends (l : Literal) (t : Token) : Prop where
  whole : ¬ t.IsBroken
  operator : binaryOp? t = none
  comma : isMark .comma t = false
  suffix : l = .smallest → startsSuffix t = false

variable {t u : Lexeme} {rest : List Lexeme} {size behind line : Nat} {events : List (ScopeEvent × Lexeme)}

theorem Stops.of_none {limit : Nat} {t : Token} (none : binaryOp? t = none) : Stops limit t := by
  intro op room
  rw [none] at room
  cases room

theorem advance_cons (whole : ¬ u.token.IsBroken) :
    advance ⟨t :: u :: rest, size, behind, events⟩ = .ok ((), ⟨u :: rest, size, t.line, events⟩) := by
  rw [advance_eq_ok]
  refine ⟨rfl, fun v here => ?_⟩
  cases here
  exact whole

/-- A token is taken in if it is one that is asked for. -/
theorem accept_cons {p : Token → Bool} (asked : p t.token = true) (whole : ¬ u.token.IsBroken) :
    accept p ⟨t :: u :: rest, size, behind, events⟩ = .ok (true, ⟨u :: rest, size, t.line, events⟩) := by
  refine bind_eq_ok.mpr ⟨t.token, _, rfl, ?_⟩
  rw [if_pos asked]
  exact bind_eq_ok.mpr ⟨(), _, advance_cons whole, rfl⟩

theorem accept_stop {p : Token → Bool} (other : p t.token = false) :
    accept p ⟨t :: rest, size, behind, events⟩ = .ok (false, ⟨t :: rest, size, behind, events⟩) := by
  refine bind_eq_ok.mpr ⟨t.token, _, rfl, ?_⟩
  rw [other]
  rfl

theorem chain_stop {α : Type} {a : α} {step : α → Parser (Option α)} {c : Cursor} {n : Nat}
    (stops : step a c = .ok (none, c)) : chain step (n + 1) a c = .ok (a, c) :=
  bind_eq_ok.mpr ⟨none, c, stops, rfl⟩

theorem follow_stop {α : Type} {a : α} {step : α → Parser (Option α)} {c : Cursor} (room : 2 ≤ c.size)
    (stops : step a c = .ok (none, c)) : follow a step c = .ok (a, c) := by
  obtain ⟨n, size⟩ := Nat.exists_eq_add_of_le' room
  refine bind_eq_ok.mpr ⟨c, c, rfl, ?_⟩
  rw [size]
  exact chain_stop stops

/-- A list of one item. -/
theorem commaList_single {α : Type} {item : Parser α} {a : α} {c : Cursor}
    (first : item c = .ok (a, ⟨t :: rest, size, behind, events⟩)) (room : 2 ≤ size)
    (other : isMark .comma t.token = false) :
    commaList item c = .ok ([a], ⟨t :: rest, size, behind, events⟩) := by
  obtain ⟨n, rfl⟩ := Nat.exists_eq_add_of_le' room
  refine bind_eq_ok.mpr ⟨a, _, first, bind_eq_ok.mpr ⟨[], ⟨t :: rest, n + 2, behind, events⟩, ?_, rfl⟩⟩
  refine bind_eq_ok.mpr ⟨_, _, rfl, bind_eq_ok.mpr ⟨none, ⟨t :: rest, n + 2, behind, events⟩, ?_, rfl⟩⟩
  exact bind_eq_ok.mpr ⟨false, _, accept_stop other, rfl⟩

namespace Grammar

variable {g : Grammar} {e : Expr} {limit : Nat}

theorem operators_stop (stops : Stops limit t.token) :
    g.operators limit e ⟨t :: rest, size, behind, events⟩ = .ok (none, ⟨t :: rest, size, behind, events⟩) := by
  refine bind_eq_ok.mpr ⟨t.token, _, rfl, ?_⟩
  cases op : binaryOp? t.token with
  | none => rfl
  | some op' =>
    dsimp only
    rw [if_neg (Nat.not_lt.mpr (stops op' op))]
    rfl

theorem suffix_stop (none : startsSuffix t.token = false) :
    g.suffix e ⟨t :: rest, size, behind, events⟩ = .ok (Option.none, ⟨t :: rest, size, behind, events⟩) := by
  obtain ⟨token, line⟩ := t
  cases token with
  | mark m => cases m <;> first | rfl | cases none
  | string => cases none
  | _ => rfl

theorem simple_atom (atom : Atom t.token e) (whole : ¬ u.token.IsBroken) :
    g.simple ⟨t :: u :: rest, size, behind, events⟩ = .ok (e, ⟨u :: rest, size, t.line, events⟩) := by
  obtain ⟨token, line⟩ := t
  change Atom token e at atom
  cases atom <;>
    exact bind_eq_ok.mpr ⟨_, _, rfl, bind_eq_ok.mpr ⟨(), _, advance_cons whole, rfl⟩⟩

theorem operand_atom (atom : Atom t.token e) (whole : ¬ u.token.IsBroken) :
    g.operand ⟨t :: u :: rest, size, behind, events⟩ = .ok (e, ⟨u :: rest, size, t.line, events⟩) := by
  refine bind_eq_ok.mpr ⟨t.token, _, rfl, ?_⟩
  rw [atom.unaryOp?]
  exact simple_atom atom whole

theorem exprAbove_atom (atom : Atom t.token e) (whole : ¬ u.token.IsBroken) (stops : Stops limit u.token)
    (room : 2 ≤ size) :
    g.exprAbove limit ⟨t :: u :: rest, size, behind, events⟩ = .ok (e, ⟨u :: rest, size, t.line, events⟩) :=
  bind_eq_ok.mpr ⟨e, _, operand_atom atom whole, follow_stop room (operators_stop stops)⟩

end Grammar

section

variable {e : Expr} {limit n : Nat}

/-- An atom behind a minus sign. -/
theorem operand_negated (atom : Atom t.token e) (whole : ¬ u.token.IsBroken) (stops : Stops unaryBinding u.token)
    (room : 2 ≤ size) :
    (grammar (n + 1)).operand ⟨⟨.mark .minus, line⟩ :: t :: u :: rest, size, behind, events⟩ =
      .ok (.unary .negate e line, ⟨u :: rest, size, t.line, events⟩) := by
  refine bind_eq_ok.mpr ⟨_, _, rfl, bind_eq_ok.mpr ⟨line, _, rfl, ?_⟩⟩
  refine bind_eq_ok.mpr ⟨(), _, advance_cons atom.whole, ?_⟩
  exact bind_eq_ok.mpr ⟨e, _, Grammar.exprAbove_atom atom whole stops room, rfl⟩

theorem exprAbove_negated (atom : Atom t.token e) (whole : ¬ u.token.IsBroken) (none : binaryOp? u.token = none)
    (room : 2 ≤ size) :
    (grammar (n + 1)).exprAbove limit ⟨⟨.mark .minus, line⟩ :: t :: u :: rest, size, behind, events⟩ =
      .ok (.unary .negate e line, ⟨u :: rest, size, t.line, events⟩) :=
  bind_eq_ok.mpr ⟨_, _, operand_negated atom whole (.of_none none) room,
    follow_stop room (Grammar.operators_stop (.of_none none))⟩

/-- The difference that is the smallest integer, up to its closing parenthesis. -/
theorem exprAbove_difference {a b : Token} {e₁ e₂ : Expr} (first : Atom a e₁) (second : Atom b e₂) (room : 2 ≤ size) :
    (grammar (n + 1)).exprAbove 0 ⟨⟨.mark .minus, line⟩ :: ⟨a, line⟩ :: ⟨.mark .minus, line⟩ :: ⟨b, line⟩ ::
        ⟨.mark .closeParen, line⟩ :: rest, size, behind, events⟩ =
      .ok (.binary (.arith .sub) (.unary .negate e₁ line) e₂ line,
        ⟨⟨.mark .closeParen, line⟩ :: rest, size, line, events⟩) := by
  have left : Stops unaryBinding (.mark .minus) := by
    intro op minus
    cases minus
    decide
  refine bind_eq_ok.mpr ⟨_, _, operand_negated first nofun left room, ?_⟩
  obtain ⟨m, rfl⟩ := Nat.exists_eq_add_of_le' room
  refine bind_eq_ok.mpr ⟨_, _, rfl, bind_eq_ok.mpr ⟨some (.binary (.arith .sub) (.unary .negate e₁ line) e₂ line),
    ⟨⟨.mark .closeParen, line⟩ :: rest, m + 2, line, events⟩, ?_, ?_⟩⟩
  swap
  · exact chain_stop (Grammar.operators_stop (.of_none rfl))
  refine bind_eq_ok.mpr ⟨_, _, rfl, bind_eq_ok.mpr ⟨line, _, rfl, ?_⟩⟩
  refine bind_eq_ok.mpr ⟨(), _, advance_cons second.whole, bind_eq_ok.mpr ⟨e₂, _, ?_, rfl⟩⟩
  exact Grammar.exprAbove_atom second nofun (.of_none rfl) room

theorem primary_smallest (whole : ¬ u.token.IsBroken) (room : 2 ≤ size) :
    (grammar (n + 2)).primary ⟨Literal.smallest.tokens.map (⟨·, line⟩) ++ u :: rest, size, behind, events⟩ =
      .ok (Literal.smallest.expr line, ⟨u :: rest, size, line, events⟩) := by
  refine bind_eq_ok.mpr ⟨line, _, rfl, bind_eq_ok.mpr ⟨_, _, rfl, bind_eq_ok.mpr ⟨(), _, advance_cons nofun, ?_⟩⟩⟩
  refine bind_eq_ok.mpr ⟨_, _, exprAbove_difference (.number _ _) (.number _ _) room, ?_⟩
  exact bind_eq_ok.mpr ⟨(), _, bind_eq_ok.mpr ⟨true, _, accept_cons rfl whole, rfl⟩, rfl⟩

theorem exprAbove_smallest (whole : ¬ u.token.IsBroken) (operator : binaryOp? u.token = none)
    (suffix : startsSuffix u.token = false) (room : 2 ≤ size) :
    (grammar (n + 2)).exprAbove limit
        ⟨Literal.smallest.tokens.map (⟨·, line⟩) ++ u :: rest, size, behind, events⟩ =
      .ok (Literal.smallest.expr line, ⟨u :: rest, size, line, events⟩) := by
  refine bind_eq_ok.mpr ⟨_, _, ?_, follow_stop room (Grammar.operators_stop (.of_none operator))⟩
  refine bind_eq_ok.mpr ⟨_, _, rfl, bind_eq_ok.mpr ⟨_, _, rfl, ?_⟩⟩
  exact bind_eq_ok.mpr ⟨_, _, primary_smallest whole room, follow_stop room (Grammar.suffix_stop suffix)⟩

/-- A literal is read as its expression where it ends. -/
theorem expr_literal {l : Literal} (ends : Ends l u.token) (room : 2 ≤ size) :
    (grammar (n + 3)).expr 0 ⟨l.tokens.map (⟨·, line⟩) ++ u :: rest, size, behind, events⟩ =
      .ok (l.expr line, ⟨u :: rest, size, line, events⟩) := by
  have atom {t : Token} {e : Expr} (atom : Atom t e) :
      (grammar (n + 3)).expr 0 ⟨⟨t, line⟩ :: u :: rest, size, behind, events⟩ =
        .ok (e, ⟨u :: rest, size, line, events⟩) :=
    Grammar.exprAbove_atom atom ends.whole (.of_none ends.operator) room
  cases l with
  | nil => exact atom .nil
  | bool b => cases b <;> exact atom (by constructor)
  | string s => exact atom (.string s _)
  | number negative m text =>
    cases negative with
    | false => exact atom (.number m text)
    | true => exact exprAbove_negated (.number m text) ends.whole ends.operator room
  | smallest => exact exprAbove_smallest ends.whole ends.operator (ends.suffix rfl) room

end

/-- The tokens of a declaration. -/
def declarationTokens (x : Name) (l : Literal) : List Token :=
  .keyword .local_ :: .name x :: .mark .assign :: l.tokens

section

variable {x : Name} {n : Nat}

/-- The name of a declaration, up to its equals sign. -/
theorem localName_literal (room : 2 ≤ size) :
    commaList (do let x ← name; reserve x; return (x, ← Grammar.readAttribute))
        ⟨⟨.name x, line⟩ :: ⟨.mark .assign, line⟩ :: rest, size, behind, events⟩ =
      .ok ([(x, .plain)],
        ⟨⟨.mark .assign, line⟩ :: rest, size, line, (.reserve x, ⟨.mark .assign, line⟩) :: events⟩) := by
  refine commaList_single ?_ room rfl
  refine bind_eq_ok.mpr ⟨x, _, bind_eq_ok.mpr ⟨_, _, rfl, bind_eq_ok.mpr ⟨(), _, advance_cons nofun, rfl⟩⟩, ?_⟩
  refine bind_eq_ok.mpr ⟨(), _, rfl, bind_eq_ok.mpr ⟨.plain, _, ?_, rfl⟩⟩
  exact bind_eq_ok.mpr ⟨false, _, accept_stop rfl, rfl⟩

theorem accept_assign (l : Literal) :
    accept (isMark .assign) ⟨⟨.mark .assign, line⟩ :: (l.tokens.map (⟨·, line⟩) ++ rest), size, behind, events⟩ =
      .ok (true, ⟨l.tokens.map (⟨·, line⟩) ++ rest, size, line, events⟩) := by
  obtain ⟨t, ts, tokens, whole⟩ := l.exists_cons
  rw [tokens]
  exact accept_cons rfl fun ⟨m, broken⟩ => whole m broken

theorem localNames_literal {l : Literal} (ends : Ends l u.token) (room : 2 ≤ size) :
    (grammar (n + 3)).localNames ⟨⟨.name x, line⟩ :: ⟨.mark .assign, line⟩ :: (l.tokens.map (⟨·, line⟩) ++
        u :: rest), size, behind, events⟩ =
      .ok (.declare [(x, .plain)] [l.expr line] line,
        ⟨u :: rest, size, line, (.activate, u) :: (.reserve x, ⟨.mark .assign, line⟩) :: events⟩) := by
  refine bind_eq_ok.mpr ⟨_, _, localName_literal room, bind_eq_ok.mpr ⟨true, _, accept_assign l, ?_⟩⟩
  refine bind_eq_ok.mpr ⟨[l.expr line], ⟨u :: rest, size, line, _⟩, ?_, rfl⟩
  exact commaList_single (expr_literal ends room) room ends.comma

theorem statement_local_eq_ok {ss : List Stat} {d : Cursor} :
    (grammar (n + 1)).statement
        ⟨⟨.keyword .local_, line⟩ :: ⟨.name x, line⟩ :: rest, size, behind, events⟩ = .ok (ss, d) ↔
      ∃ s, (grammar n).localNames ⟨⟨.name x, line⟩ :: rest, size, line, events⟩ = .ok (s, d) ∧ [s] = ss := by
  let here : Cursor := ⟨⟨.keyword .local_, line⟩ :: ⟨.name x, line⟩ :: rest, size, behind, events⟩
  have first : advance here = .ok ((), ⟨⟨.name x, line⟩ :: rest, size, line, events⟩) := advance_cons nofun
  have second : accept (isKeyword .function_) ⟨⟨.name x, line⟩ :: rest, size, line, events⟩ =
      .ok (false, ⟨⟨.name x, line⟩ :: rest, size, line, events⟩) := accept_stop rfl
  constructor
  · intro run
    obtain ⟨_, _, at_line, run⟩ := bind_eq_ok.mp run
    cases at_line
    obtain ⟨_, _, peeked, run⟩ := bind_eq_ok.mp run
    cases peeked
    obtain ⟨_, _, advanced, run⟩ := bind_eq_ok.mp run
    cases first.symm.trans advanced
    obtain ⟨_, _, accepted, run⟩ := bind_eq_ok.mp run
    cases second.symm.trans accepted
    obtain ⟨s, _, declared, run⟩ := bind_eq_ok.mp run
    cases run
    exact ⟨s, declared, rfl⟩
  · rintro ⟨s, declared, rfl⟩
    refine bind_eq_ok.mpr ⟨line, _, rfl, bind_eq_ok.mpr ⟨_, _, rfl, ?_⟩⟩
    exact bind_eq_ok.mpr ⟨(), _, first, bind_eq_ok.mpr ⟨false, _, second, bind_eq_ok.mpr ⟨s, _, declared, rfl⟩⟩⟩

/-- A declaration is read as such where its literal ends. -/
theorem statement_literal {l : Literal} (ends : Ends l u.token) (room : 2 ≤ size) :
    (grammar (n + 4)).statement ⟨(declarationTokens x l).map (⟨·, line⟩) ++ u :: rest, size, behind, events⟩ =
      .ok ([.declare [(x, .plain)] [l.expr line] line],
        ⟨u :: rest, size, line, (.activate, u) :: (.reserve x, ⟨.mark .assign, line⟩) :: events⟩) :=
  statement_local_eq_ok.mpr ⟨_, localNames_literal ends room, rfl⟩

end

/-! A difference in parentheses that goes on -/

/-- What holds of all results of a step holds of what a chain of steps ends with. -/
theorem chain_holds {α : Type} {P : α → Prop} {step : α → Parser (Option α)}
    (steps : ∀ a c b d, step a c = .ok (some b, d) → P b) {n : Nat} {a r : α} {c d : Cursor} (holds : P a)
    (run : chain step n a c = .ok (r, d)) : P r := by
  induction n generalizing a c with
  | zero =>
    obtain ⟨_, error⟩ := fails_fail notStatement c
    rw [chain, error] at run
    cases run
  | succ n ih =>
    obtain ⟨b, e, first, rest⟩ := bind_eq_ok.mp run
    cases b with
    | none =>
      cases rest
      exact holds
    | some b => exact ih (steps a c b e first) rest

def IsParen (e : Expr) : Prop := ∃ inner, e = .paren inner

namespace Grammar

variable {g : Grammar}

theorem suffix_not_paren (e : Expr) (c : Cursor) (e' : Expr) (d : Cursor) (run : g.suffix e c = .ok (some e', d)) :
    ¬ IsParen e' := by
  have call {c : Cursor} (run : (do let line ← line; return some (Expr.call e (← g.arguments) line)) c =
      .ok (some e', d)) : ¬ IsParen e' := by
    obtain ⟨_, _, _, run⟩ := bind_eq_ok.mp run
    obtain ⟨_, _, _, run⟩ := bind_eq_ok.mp run
    cases run
    nofun
  obtain ⟨t, c, _, run⟩ := bind_eq_ok.mp run
  cases t with
  | string => exact call run
  | mark m =>
    cases m with
    | openParen => exact call run
    | openBrace => exact call run
    | dot =>
      obtain ⟨_, _, field, run⟩ := bind_eq_ok.mp run
      obtain ⟨_, _, _, field⟩ := bind_eq_ok.mp field
      obtain ⟨_, _, _, field⟩ := bind_eq_ok.mp field
      obtain ⟨_, _, _, field⟩ := bind_eq_ok.mp field
      cases field
      cases run
      nofun
    | openBracket =>
      obtain ⟨_, _, _, run⟩ := bind_eq_ok.mp run
      obtain ⟨_, _, _, run⟩ := bind_eq_ok.mp run
      obtain ⟨_, _, _, run⟩ := bind_eq_ok.mp run
      obtain ⟨_, _, _, run⟩ := bind_eq_ok.mp run
      cases run
      nofun
    | colon =>
      obtain ⟨_, _, _, run⟩ := bind_eq_ok.mp run
      obtain ⟨_, _, _, run⟩ := bind_eq_ok.mp run
      obtain ⟨_, _, _, run⟩ := bind_eq_ok.mp run
      obtain ⟨_, _, _, run⟩ := bind_eq_ok.mp run
      cases run
      nofun
    | _ => cases run
  | _ => cases run

theorem operators_not_paren {limit : Nat} (e : Expr) (c : Cursor) (e' : Expr) (d : Cursor)
    (run : g.operators limit e c = .ok (some e', d)) : ¬ IsParen e' := by
  obtain ⟨t, _, _, run⟩ := bind_eq_ok.mp run
  cases op : binaryOp? t with
  | none =>
    rw [op] at run
    cases run
  | some op' =>
    rw [op] at run
    dsimp only at run
    split at run
    · obtain ⟨line, _, _, run⟩ := bind_eq_ok.mp run
      obtain ⟨_, _, _, run⟩ := bind_eq_ok.mp run
      obtain ⟨right, _, _, run⟩ := bind_eq_ok.mp run
      cases run
      nofun
    · cases run

/-- Where arguments follow, a suffix is taken in. -/
theorem suffix_openParen {e : Expr} {r : Option Expr} {d : Cursor}
    (run : g.suffix e ⟨⟨.mark .openParen, line⟩ :: rest, size, behind, events⟩ = .ok (r, d)) :
    ∃ e', r = some e' := by
  obtain ⟨_, _, peeked, run⟩ := bind_eq_ok.mp run
  cases peeked
  obtain ⟨line, _, _, run⟩ := bind_eq_ok.mp run
  obtain ⟨args, _, _, run⟩ := bind_eq_ok.mp run
  cases run
  exact ⟨_, rfl⟩

end Grammar

theorem expr_smallest_call {n m : Nat} {e : Expr} {d : Cursor} (room : 2 ≤ size)
    (run : (grammar (n + 3)).expr 0 ⟨Literal.smallest.tokens.map (⟨·, line⟩) ++ ⟨.mark .openParen, m⟩ :: rest,
      size, behind, events⟩ = .ok (e, d)) : ¬ IsParen e := by
  obtain ⟨n', size'⟩ := Nat.exists_eq_add_of_le' room
  obtain ⟨left, c₁, operand, operators⟩ := bind_eq_ok.mp run
  obtain ⟨_, _, peeked, operand⟩ := bind_eq_ok.mp operand
  cases peeked
  obtain ⟨_, _, peeked, operand⟩ := bind_eq_ok.mp operand
  cases peeked
  obtain ⟨e₁, c₂, primary, suffixes⟩ := bind_eq_ok.mp operand
  rw [primary_smallest (u := ⟨.mark .openParen, m⟩) nofun room] at primary
  cases primary
  -- The first suffix is taken in, so what follows is no expression in parentheses any more.
  have called : ¬ IsParen left := by
    obtain ⟨_, _, here, suffixes⟩ := bind_eq_ok.mp suffixes
    cases here
    rw [size'] at suffixes
    obtain ⟨r, c₃, first, others⟩ := bind_eq_ok.mp suffixes
    obtain ⟨e₂, rfl⟩ := Grammar.suffix_openParen first
    exact chain_holds Grammar.suffix_not_paren (Grammar.suffix_not_paren _ _ _ _ first) others
  obtain ⟨_, _, here, operators⟩ := bind_eq_ok.mp operators
  exact chain_holds Grammar.operators_not_paren called operators

/-- A declaration that ends in a difference in parentheses takes in the parentheses that follow. -/
theorem statement_smallest_call {x : Name} {n m : Nat} {ss : List Stat} {d : Cursor} (room : 2 ≤ size)
    (run : (grammar (n + 4)).statement ⟨(declarationTokens x .smallest).map (⟨·, line⟩) ++
      ⟨.mark .openParen, m⟩ :: rest, size, behind, events⟩ = .ok (ss, d)) :
    ∃ names e es line', ss = [.declare names (e :: es) line'] ∧ ¬ IsParen e := by
  obtain ⟨s, declared, rfl⟩ := statement_local_eq_ok.mp run
  obtain ⟨_, _, names, declared⟩ := bind_eq_ok.mp declared
  cases (localName_literal room).symm.trans names
  obtain ⟨_, _, accepted, declared⟩ := bind_eq_ok.mp declared
  cases (accept_assign .smallest).symm.trans accepted
  obtain ⟨values, _, listed, declared⟩ := bind_eq_ok.mp declared
  obtain ⟨_, _, _, declared⟩ := bind_eq_ok.mp declared
  cases declared
  obtain ⟨e, _, first, listed⟩ := bind_eq_ok.mp listed
  obtain ⟨es, _, _, listed⟩ := bind_eq_ok.mp listed
  cases listed
  exact ⟨_, e, es, _, rfl, expr_smallest_call room first⟩

end Parser

end ScriptTools.Guest
