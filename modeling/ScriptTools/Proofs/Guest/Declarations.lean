import ScriptTools.Proofs.Guest.Literal
import ScriptTools.Proofs.Guest.MirrorGrammar
import ScriptTools.Proofs.Guest.ScopeBelow

/-!
A text after declarations of variables, one on each line. Where the text alone is a script, so is the whole,
and its statements are the declarations and the statements of the text; a text that starts with a
parenthesis after the smallest integer is the only exception.
-/

namespace ScriptTools.Guest

/-- Variables and the literals they are declared with. -/
abbrev Declared := List (Name × Literal)

namespace Declared

/-- The tokens of declarations, the first on a line and each of the others on the next. -/
def lexemes (line : Nat) : Declared → List Lexeme
  | [] => []
  | (x, l) :: ds => (Parser.declarationTokens x l).map (⟨·, line⟩) ++ lexemes (line + 1) ds

def statements (line : Nat) : Declared → Block
  | [] => []
  | (x, l) :: ds => .declare [(x, .plain)] [l.expr line] line :: statements (line + 1) ds

/-- What the parser reports about declarations before a token. -/
def events (line : Nat) (next : Lexeme) : Declared → List (ScopeEvent × Lexeme)
  | [] => []
  | (x, _) :: ds =>
    (.reserve x, ⟨.mark .assign, line⟩) ::
      (.activate, ((lexemes (line + 1) ds).head?).getD next) :: events (line + 1) next ds

theorem lexemes_append (ds es : Declared) (line : Nat) :
    lexemes line (ds ++ es) = lexemes line ds ++ lexemes (line + ds.length) es := by
  induction ds generalizing line with
  | nil => rfl
  | cons d ds ih =>
    rw [List.cons_append, lexemes, lexemes, ih, List.append_assoc, List.length_cons, Nat.add_right_comm, Nat.add_assoc]

theorem statements_append (ds es : Declared) (line : Nat) :
    statements line (ds ++ es) = statements line ds ++ statements (line + ds.length) es := by
  induction ds generalizing line with
  | nil => rfl
  | cons d ds ih =>
    rw [List.cons_append, statements, statements, ih, List.cons_append, List.length_cons, Nat.add_right_comm,
      Nat.add_assoc]

/-- The last declaration ends before a token. The others always do. -/
def Ends (ds : Declared) (t : Token) : Prop := ∀ d, ds.getLast? = some d → Parser.Ends d.2 t

theorem Ends.tail {d : Name × Literal} {ds : Declared} {t : Token} (ends : Ends (d :: ds) t) : ds.Ends t := by
  intro last here
  cases ds with
  | nil => cases here
  | cons e ds => exact ends last (by rwa [List.getLast?_cons_cons])

end Declared

namespace Parser

theorem ends_local (l : Literal) : Ends l (.keyword .local_) := ⟨nofun, rfl, rfl, fun _ => rfl⟩

variable {ds : Declared} {t : Lexeme} {rest : List Lexeme} {size line n m : Nat}

/-- The current token of a place. -/
def here (c : Cursor) : Lexeme := c.ahead.head?.getD ⟨.eof, c.behind⟩

theorem peek_eq_ok {c d : Cursor} {u : Token} : peek c = .ok (u, d) ↔ u = (here c).token ∧ d = c := by
  change Except.ok ((here c).token, c) = Except.ok (u, d) ↔ _
  rw [Except.ok.injEq, Prod.mk.injEq]
  exact and_congr eq_comm eq_comm

theorem bind_of_ok {α β : Type} {p : Parser α} {f : α → Parser β} {c d : Cursor} {a : α} (run : p c = .ok (a, d)) :
    (p >>= f) c = f a d := by
  change (p c >>= fun s => f s.1 s.2) = f a d
  rw [run]
  rfl

theorem map_of_ok {α β : Type} {p : Parser α} {f : α → β} {c d : Cursor} {a : α} (run : p c = .ok (a, d)) :
    (f <$> p) c = .ok (f a, d) := by
  rw [map_eq_pure_bind, bind_of_ok run]
  rfl

/-- A statement that does not end its block is followed by the others. -/
theorem Grammar.statementsFrom_succ {g : Grammar} {c d : Cursor} {part done : List Stat}
    (inner : endsBlock true (here c).token = false) (goes : isKeyword .return_ (here c).token = false)
    (run : g.statement c = .ok (part, d)) :
    g.statementsFrom (n + 1) done c = g.statementsFrom n (part.reverse ++ done) d := by
  rw [statementsFrom, bind_of_ok (peek_eq_ok.mpr ⟨rfl, rfl⟩), inner, if_neg nofun, bind_of_ok run, goes, if_neg nofun]

/-- What follows a declaration starts with the next one, or is the text. -/
theorem lexemes_append (ds : Declared) (line : Nat) (t : Lexeme) (rest : List Lexeme) :
    ∃ rest', ds.lexemes line ++ t :: rest = ((ds.lexemes line).head?).getD t :: rest' := by
  cases ds with
  | nil => exact ⟨rest, rfl⟩
  | cons d ds => exact ⟨_, rfl⟩

theorem ends_next {x : Name} {l : Literal} (ends : Declared.Ends ((x, l) :: ds) t.token) :
    Ends l (((ds.lexemes line).head?).getD t).token := by
  cases ds with
  | nil => exact ends (x, l) rfl
  | cons d ds => exact ends_local l

/-- Declarations are read one after the other. -/
theorem statementsFrom_declared (n m line : Nat) (rest : List Lexeme) (ends : ds.Ends t.token) (room : 2 ≤ size)
    (done : List Stat) (behind : Nat) (events : List (ScopeEvent × Lexeme)) : ∃ behind',
    (grammar (n + 4)).statementsFrom (m + ds.length) done ⟨ds.lexemes line ++ t :: rest, size, behind, events⟩ =
      (grammar (n + 4)).statementsFrom m ((ds.statements line).reverse ++ done)
        ⟨t :: rest, size, behind', (ds.events line t).reverse ++ events⟩ := by
  induction ds generalizing line done behind events with
  | nil => exact ⟨behind, rfl⟩
  | cons d ds ih =>
    obtain ⟨x, l⟩ := d
    obtain ⟨rest', after⟩ := lexemes_append ds (line + 1) t rest
    have next : Ends l (((Declared.lexemes (line + 1) ds).head?).getD t).token := ends_next ends
    obtain ⟨behind', others⟩ := ih (line + 1) ends.tail _ line _
    refine ⟨behind', ?_⟩
    rw [Declared.lexemes, List.append_assoc, after, List.length_cons, ← Nat.add_assoc]
    refine Eq.trans (Grammar.statementsFrom_succ rfl rfl (statement_literal next room)) ?_
    rw [← after, others]
    simp [Declared.statements, Declared.events]

/-! The first statement of the text -/

namespace Grammar

theorem statementsFrom_done (g : Grammar) (n : Nat) (done : List Stat) :
    g.statementsFrom n done = (done.reverse ++ ·) <$> g.statementsFrom n [] := by
  induction n generalizing done with
  | zero => rfl
  | succ n ih =>
    have step (done : List Stat) : g.statementsFrom (n + 1) done = peek >>= fun t =>
        if endsBlock true t then pure done.reverse
        else g.statement >>= fun part =>
          if isKeyword .return_ t then pure (part.reverse ++ done).reverse
          else (((part.reverse ++ done).reverse) ++ ·) <$> g.statementsFrom n [] := by
      simp only [statementsFrom, ih (_ ++ done)]
    rw [step, step, map_bind]
    refine congrArg _ (funext fun t => ?_)
    split
    · simp
    · rw [map_bind]
      refine congrArg _ (funext fun part => ?_)
      split
      · simp
      · simp [Functor.map_map]

/-- The first of the statements that are read. -/
theorem statementsFrom_cons {g : Grammar} {c d : Cursor} {b done : Block} (inner : endsBlock true (here c).token = false)
    (run : g.statementsFrom n done c = .ok (b, d)) :
    ∃ part e more, g.statement c = .ok (part, e) ∧ b = done.reverse ++ (part ++ more) := by
  cases n with
  | zero =>
    obtain ⟨_, error⟩ := fails_fail (α := Block) notStatement c
    rw [statementsFrom, error] at run
    cases run
  | succ n =>
    obtain ⟨u, c₁, peeked, run⟩ := bind_eq_ok.mp run
    obtain ⟨token, same⟩ := peek_eq_ok.mp peeked
    subst c₁ u
    rw [inner, if_neg nofun] at run
    obtain ⟨part, e, statement, run⟩ := bind_eq_ok.mp run
    split at run
    · cases run
      exact ⟨part, _, [], statement, by simp⟩
    · rw [statementsFrom_done, map_eq_pure_bind] at run
      obtain ⟨more, _, _, run⟩ := bind_eq_ok.mp run
      cases run
      exact ⟨part, _, more, statement, by simp⟩

theorem Mirrors.statementsFrom_first {o : Offset} {g : Grammar} (nested : g.Mirrors o) {n n' : Nat} (enough : n ≤ n')
    {c c' d : Cursor} {b : Block} (aligned : o.Aligned false c c')
    (run : g.statementsFrom n [] c = .ok (b, d)) :
    ∃ d' moved, g.statementsFrom n' [] c' = .ok (shift o.lines b, d') ∧ o.Aligned moved d d' := by
  cases n with
  | zero =>
    obtain ⟨_, error⟩ := fails_fail (α := Block) notStatement c
    rw [Grammar.statementsFrom, error] at run
    cases run
  | succ n =>
    obtain ⟨m, rfl⟩ := Nat.exists_eq_add_one_of_ne_zero (by omega : n' ≠ 0)
    obtain ⟨t, c₁, peeked, run⟩ := bind_eq_ok.mp run
    obtain ⟨c₁', peeked', aligned⟩ := Offset.Mirrors.peek c c' t c₁ aligned peeked
    by_cases last : endsBlock true t = true
    · rw [if_pos last] at run
      cases run
      refine ⟨c₁', false, bind_eq_ok.mpr ⟨t, c₁', peeked', ?_⟩, aligned⟩
      rw [if_pos last]
      rfl
    · rw [if_neg last] at run
      have statement : o.Mirrors false true
          (g.statement >>= fun part =>
            if isKeyword .return_ t then pure (part.reverse ++ []).reverse else g.statementsFrom n (part.reverse ++ []))
          (g.statement >>= fun part =>
            if isKeyword .return_ t then pure (part.reverse ++ []).reverse
            else g.statementsFrom m (part.reverse ++ [])) := by
        refine .bind (nested.statement false) fun part => .ite (fun _ => .pure ?_) fun _ => ?_
        · simp
        · have same : (shift o.lines part).reverse ++ [] = shift o.lines (part.reverse ++ []) := by
            rw [List.append_nil, List.append_nil, shift_reverse]
          rw [same]
          exact nested.statementsFrom (by omega) _
      obtain ⟨d', run', aligned⟩ := statement c₁ c₁' b d aligned run
      refine ⟨d', true, bind_eq_ok.mpr ⟨t, c₁', peeked', ?_⟩, aligned⟩
      rw [if_neg last]
      exact run'

theorem primary_first {g : Grammar} {c d : Cursor} {e : Expr} (run : g.primary c = .ok (e, d)) :
    (∃ x, (here c).token = .name x) ∨ (here c).token = .mark .openParen := by
  obtain ⟨_, _, at_line, run⟩ := bind_eq_ok.mp run
  cases at_line
  obtain ⟨u, c₁, peeked, run⟩ := bind_eq_ok.mp run
  obtain ⟨token, same⟩ := peek_eq_ok.mp peeked
  subst c₁
  rw [← token]
  cases u with
  | name x => exact .inl ⟨x, rfl⟩
  | mark m =>
    cases m with
    | openParen => exact .inr rfl
    | _ => cases run
  | _ => cases run

theorem expressionStatement_first {g : Grammar} {c d : Cursor} {s : Stat}
    (run : g.expressionStatement c = .ok (s, d)) :
    (∃ x, (here c).token = .name x) ∨ (here c).token = .mark .openParen := by
  obtain ⟨_, _, suffixed, _⟩ := bind_eq_ok.mp run
  obtain ⟨_, _, primary, _⟩ := bind_eq_ok.mp suffixed
  exact primary_first primary

/-- A token that goes on with no literal, unless it is one in parentheses. -/
structure Opens (t : Token) : Prop where
  operator : binaryOp? t = none
  comma : isMark .comma t = false
  suffix : startsSuffix t = false ∨ t = .mark .openParen

theorem oneStatement_first {g : Grammar} {c d : Cursor} {ss : List Stat} (run : g.oneStatement c = .ok (ss, d)) :
    Opens (here c).token := by
  have expression (run : (do return [← g.expressionStatement]) c = .ok (ss, d)) : Opens (here c).token := by
    obtain ⟨_, _, run, _⟩ := bind_eq_ok.mp run
    rcases expressionStatement_first run with ⟨x, name⟩ | paren
    · rw [name]
      exact ⟨rfl, rfl, .inl rfl⟩
    · rw [paren]
      exact ⟨rfl, rfl, .inr rfl⟩
  obtain ⟨_, _, at_line, run⟩ := bind_eq_ok.mp run
  cases at_line
  obtain ⟨u, c₁, peeked, run⟩ := bind_eq_ok.mp run
  obtain ⟨token, same⟩ := peek_eq_ok.mp peeked
  subst c₁
  rw [← token] at expression ⊢
  cases u with
  | mark m =>
    cases m with
    | semicolon => exact ⟨rfl, rfl, .inl rfl⟩
    | doubleColon => exact ⟨rfl, rfl, .inl rfl⟩
    | _ => exact expression run
  | keyword k =>
    cases k with
    | and_ => exact expression run
    | or_ => exact expression run
    | _ => exact ⟨rfl, rfl, .inl rfl⟩
  | _ => exact expression run

end Grammar

/-- Parentheses that follow the smallest integer are taken in by its declaration. -/
theorem statementsFrom_joined {x : Name} {l behind : Nat} {events : List (ScopeEvent × Lexeme)} {b : Block}
    {d : Cursor} (room : 2 ≤ size)
    (run : (grammar (n + 4)).statementsFrom (m + ds.length) []
      ⟨Declared.lexemes line (ds ++ [(x, .smallest)]) ++ ⟨.mark .openParen, l⟩ :: rest, size, behind, events⟩ =
        .ok (b, d)) :
    ∃ names e es line' more, b = ds.statements line ++ .declare names (e :: es) line' :: more ∧ ¬ IsParen e := by
  have last : ds.Ends (.keyword .local_) := fun d _ => ends_local d.2
  have text : Declared.lexemes line (ds ++ [(x, .smallest)]) ++ ⟨.mark .openParen, l⟩ :: rest =
      ds.lexemes line ++ ((declarationTokens x .smallest).map (⟨·, line + ds.length⟩) ++
        ⟨.mark .openParen, l⟩ :: rest) := by
    rw [Declared.lexemes_append, List.append_assoc, Declared.lexemes, Declared.lexemes, List.append_nil]
  obtain ⟨behind', declared⟩ := statementsFrom_declared (t := ⟨.keyword .local_, line + ds.length⟩) n m line _ last
    room [] behind events
  rw [text] at run
  obtain ⟨part, _, more, statement, rfl⟩ := Grammar.statementsFrom_cons rfl (declared.symm.trans run)
  obtain ⟨names, e, es, line', rfl, other⟩ := statement_smallest_call room statement
  exact ⟨names, e, es, line', more, by simp, other⟩

/-! Whole scripts -/

/-- A place after an event. -/
def report (e : ScopeEvent) (c : Cursor) : Cursor := { c with events := (e, here c) :: c.events }

/-- The place where the statements of a script start. -/
def opened (c : Cursor) : Cursor := report .takeVarargs (report (.openFunction none) c)

theorem chunk_eq_ok {c d : Cursor} {body : Block} :
    chunk c = .ok (body, d) ↔ c.Ready ∧ ∃ e, (grammar levels).statements (opened c) = .ok (body, e) ∧
      (here e).token = .eof ∧ d = report .closeFunction e := by
  constructor
  · intro run
    obtain ⟨_, c₁, checked, read⟩ := bind_eq_ok.mp run
    obtain ⟨same, ready⟩ := checkText_eq_ok.mp checked
    subst c₁
    obtain ⟨_, _, event, read⟩ := bind_eq_ok.mp read
    cases event
    obtain ⟨_, _, event, read⟩ := bind_eq_ok.mp read
    cases event
    obtain ⟨b, e, statements, read⟩ := bind_eq_ok.mp read
    obtain ⟨u, c₂, peeked, read⟩ := bind_eq_ok.mp read
    obtain ⟨token, same⟩ := peek_eq_ok.mp peeked
    subst c₂
    cases u with
    | eof =>
      cases read
      exact ⟨ready, e, statements, token.symm, rfl⟩
    | _ => cases read
  · rintro ⟨ready, e, statements, last, rfl⟩
    refine bind_eq_ok.mpr ⟨(), c, checkText_eq_ok.mpr ⟨rfl, ready⟩, ?_⟩
    refine bind_eq_ok.mpr ⟨(), _, rfl, bind_eq_ok.mpr ⟨(), _, rfl, bind_eq_ok.mpr ⟨body, e, statements, ?_⟩⟩⟩
    refine bind_eq_ok.mpr ⟨(here e).token, e, rfl, ?_⟩
    rw [last]
    rfl

theorem chunk_first {c d : Cursor} {body : Block} (run : chunk c = .ok (body, d)) : Grammar.Opens (here c).token := by
  obtain ⟨_, e, statements, last, _⟩ := chunk_eq_ok.mp run
  obtain ⟨c₁, _, got, statements⟩ := bind_eq_ok.mp statements
  cases got
  cases size : (opened c).size with
  | zero =>
    rw [size] at statements
    cases statements
  | succ n =>
    rw [size] at statements
    obtain ⟨u, c₂, peeked, statements⟩ := bind_eq_ok.mp statements
    obtain ⟨token, same⟩ := peek_eq_ok.mp peeked
    subst c₂
    change u = (here c).token at token
    split at statements
    · cases statements
      change (here c).token = _ at last
      rw [last]
      exact ⟨rfl, rfl, .inl rfl⟩
    · obtain ⟨_, _, first, _⟩ := bind_eq_ok.mp statements
      exact Grammar.oneStatement_first (g := grammar 198) (c := opened c) first

/-- A script after declarations that end before it, with the report of the parser on both. -/
theorem chunk_declared {k : Nat} {ts ts' : List Lexeme} {body : Block} {d : Cursor} {size size' : Nat}
    (mirrors : List.Forall₂ (Lexeme.Mirrors k) (t :: ts) (shift k t :: ts'))
    (ends : ds.Ends t.token) (enough : size + ds.length ≤ size') (room : 2 ≤ size')
    (run : chunk ⟨t :: ts, size, 1, []⟩ = .ok (body, d)) :
    ∃ later d' u, d.events = later ++ [(.takeVarargs, t), (.openFunction none, t)] ∧
      chunk ⟨ds.lexemes 1 ++ shift k t :: ts', size', 1, []⟩ = .ok (ds.statements 1 ++ shift k body, d') ∧
      d'.events =
        shift k later ++ (ds.events 1 (shift k t)).reverse ++ [(.takeVarargs, u), (.openFunction none, u)] := by
  obtain ⟨ready, e, statements, last, rfl⟩ := chunk_eq_ok.mp run
  obtain ⟨c₁, _, got, statements⟩ := bind_eq_ok.mp statements
  cases got
  obtain ⟨m, rfl⟩ := Nat.exists_eq_add_of_le' (Nat.le_of_add_left_le enough)
  let below : Cursor := ⟨ds.lexemes 1 ++ shift k t :: ts', m + ds.length, 1, []⟩
  let before := (ds.events 1 (shift k t)).reverse ++ [(.takeVarargs, here below), (.openFunction none, here below)]
  let o : Offset := ⟨k, [(.takeVarargs, t), (.openFunction none, t)], before⟩
  obtain ⟨behind', declared⟩ := statementsFrom_declared (t := shift k t) 195 m 1 ts' ends room [] 1 [(.takeVarargs, here below), (.openFunction none, here below)]
  have aligned : o.Aligned false (opened ⟨t :: ts, size, 1, []⟩) ⟨shift k t :: ts', m + ds.length, behind', before⟩ :=
    ⟨mirrors, ready, by change size ≤ m + ds.length; omega, nofun, nofun, [], rfl, rfl⟩
  obtain ⟨d', moved, statements', aligned'⟩ :=
    (grammar_mirrors o levels).statementsFrom_first (by change size ≤ m; omega) aligned statements
  obtain ⟨later, alone, under⟩ := aligned'.events
  have current : here d' = shift k (here e) := by
    obtain ⟨d₁, read, _⟩ := Offset.Mirrors.current e d' (here e) e aligned' rfl
    exact congrArg Prod.fst (Except.ok.inj read)
  refine ⟨(.closeFunction, here e) :: later, report .closeFunction d', here below, ?_, ?_, ?_⟩
  · change (_, _) :: e.events = _
    rw [alone]
    rfl
  · refine chunk_eq_ok.mpr ⟨?_, d', ?_, ?_, rfl⟩
    · cases ds with
      | nil => exact Cursor.Ready.below ready mirrors
      | cons d ds =>
        intro v first
        cases first
        nofun
    · refine bind_eq_ok.mpr ⟨_, _, rfl, ?_⟩
      refine declared.trans ?_
      rw [Grammar.statementsFrom_done, List.append_nil, List.reverse_reverse]
      exact map_of_ok statements'
    · rw [current]
      exact last
  · change (_, _) :: d'.events = _
    rw [under, current]
    simp only [o, before, List.append_assoc]
    rfl

end Parser

/-! The rules of scope on the whole -/

namespace Scope

/-- The script itself with some variables. -/
def script (names : List (Name × Attribute)) : Level :=
  { line := none, varargs := true, frames := [{ loop := false, names }] }

/-- The variables of declarations, latest first. -/
def declaredNames (ds : Declared) : List (Name × Attribute) := (ds.map fun d => (d.1, .plain)).reverse

theorem firstFault?_declare (names : List (Name × Attribute)) (x : Name) (t u : Lexeme)
    (events : List (ScopeEvent × Lexeme)) :
    firstFault? [script names] ((.reserve x, t) :: (.activate, u) :: events) =
      if names.length < variableLimit then firstFault? [script ((x, .plain) :: names)] events
      else some (t, .tooManyVariables none) := by
  have visible : (script names).visible + (script names).reserved.length = names.length := Nat.zero_add _
  have reserve : step [script names] (.reserve x) = ((script names).reserve x).map ([·]) := rfl
  rw [firstFault?, reserve, Level.reserve, visible]
  by_cases room : names.length < variableLimit
  · rw [if_pos room, if_pos room]
    rfl
  · rw [if_neg room, if_neg room]
    rfl

/-- Declarations are in order while there is room for their variables. -/
theorem firstFault?_declared {ds : Declared} {line : Nat} {next : Lexeme} (names : List (Name × Attribute))
    (events : List (ScopeEvent × Lexeme)) (room : names.length + ds.length ≤ variableLimit) :
    firstFault? [script names] (ds.events line next ++ events) =
      firstFault? [script (declaredNames ds ++ names)] events := by
  induction ds generalizing line names with
  | nil => rfl
  | cons d ds ih =>
    rw [List.length_cons] at room
    rw [Declared.events, List.cons_append, List.cons_append, firstFault?_declare, if_pos (by omega),
      ih (_ :: names) (by rw [List.length_cons]; omega)]
    simp [declaredNames]

theorem firstFault?_declared_or (ds : Declared) (line : Nat) (next : Lexeme) (names : List (Name × Attribute))
    (events : List (ScopeEvent × Lexeme)) :
    firstFault? [script names] (ds.events line next ++ events) =
        firstFault? [script (declaredNames ds ++ names)] events ∨
      ∃ t, firstFault? [script names] (ds.events line next ++ events) = some (t, .tooManyVariables none) := by
  induction ds generalizing line names with
  | nil => exact .inl rfl
  | cons d ds ih =>
    rw [Declared.events, List.cons_append, List.cons_append, firstFault?_declare]
    split
    · have same : declaredNames (d :: ds) ++ names = declaredNames ds ++ (d.1, .plain) :: names := by
        simp [declaredNames]
      rw [same]
      exact ih (line + 1) ((d.1, .plain) :: names)
    · exact .inr ⟨_, rfl⟩

theorem declaredNames_plain (ds : Declared) : ∀ v ∈ declaredNames ds, v.2 = .plain := by
  intro v member
  obtain ⟨d, _, rfl⟩ := List.mem_map.mp (List.mem_reverse.mp member)
  rfl

/-- Variables that stand before a script. -/
theorem script_below (k : Nat) (ds : Declared) : LevelsBelow k [script []] [script (declaredNames ds)] :=
  .script (declaredNames_plain ds) (fun _ => rfl) ⟨rfl, rfl, rfl, .last ⟨rfl, .nil, rfl⟩ rfl⟩

end Scope

/-- Whether a script is refused because its outermost function has too many variables. -/
def TooManyVariables (r : Except ParseFault Block) : Prop :=
  ∃ line token, r = .error (.malformed line ((ScopeFault.tooManyVariables none).message token))

theorem parse_eq_ok {ts : List Lexeme} {body : Block} :
    parse ts = .ok body ↔ ∃ d, Parser.chunk ⟨ts, ts.length + 1, 1, []⟩ = .ok (body, d) ∧
      Scope.firstFault? [] d.events.reverse = none := by
  have start : Parser.chunk.run { ahead := ts, size := ts.length + 1 } = Parser.chunk ⟨ts, ts.length + 1, 1, []⟩ := rfl
  rw [parse, start]
  cases Parser.chunk ⟨ts, ts.length + 1, 1, []⟩ with
  | error e =>
    dsimp only
    split <;> simp
  | ok r =>
    obtain ⟨body', d⟩ := r
    dsimp only
    split
    · rename_i fault
      simp [fault]
    · rename_i none
      simp [none]

theorem parse_tooMany {ts : List Lexeme} {body : Block} {d : Cursor} {t : Lexeme}
    (run : Parser.chunk ⟨ts, ts.length + 1, 1, []⟩ = .ok (body, d))
    (fault : Scope.firstFault? [] d.events.reverse = some (t, .tooManyVariables none)) :
    TooManyVariables (parse ts) := by
  refine ⟨t.line, t.token, ?_⟩
  have start : Parser.chunk.run { ahead := ts, size := ts.length + 1 } = .ok (body, d) := run
  rw [parse, start]
  dsimp only
  rw [fault]

/-- Whether the last declaration goes on with the token after it: parentheses after parentheses are a call. -/
def Declared.Joins (ds : Declared) (t : Token) : Prop :=
  t = .mark .openParen ∧ ∃ x, ds.getLast? = some (x, .smallest)

theorem Declared.ends_of_not_joins {ds : Declared} {t : Token} (whole : ¬ t.IsBroken) (opens : Parser.Grammar.Opens t)
    (apart : ¬ ds.Joins t) : ds.Ends t := by
  intro d last
  refine ⟨whole, opens.operator, opens.comma, fun smallest => ?_⟩
  refine opens.suffix.resolve_right fun paren => apart ⟨paren, d.1, ?_⟩
  rw [last, ← smallest]

theorem Declared.length_le (ds : Declared) (line : Nat) : ds.length ≤ (ds.lexemes line).length := by
  induction ds generalizing line with
  | nil => exact Nat.le_refl _
  | cons d ds ih =>
    have more := ih (line + 1)
    simp only [lexemes, Parser.declarationTokens, List.length_cons, List.length_append, List.map_cons]
    omega

/-- A script after declarations that it does not join: what the parser gives for both and what it reports. -/
theorem chunk_below {k : Nat} {t : Lexeme} {ts ts' : List Lexeme} {ds : Declared} {body : Block} {d : Cursor}
    (mirrors : List.Forall₂ (Lexeme.Mirrors k) (t :: ts) ts') (apart : ¬ ds.Joins t.token)
    (run : Parser.chunk ⟨t :: ts, (t :: ts).length + 1, 1, []⟩ = .ok (body, d)) :
    ∃ later d' next, d.events.reverse = (.openFunction none, t) :: (.takeVarargs, t) :: later ∧
      Parser.chunk ⟨ds.lexemes 1 ++ ts', (ds.lexemes 1 ++ ts').length + 1, 1, []⟩ =
        .ok (ds.statements 1 ++ shift k body, d') ∧
      Scope.firstFault? [] d'.events.reverse =
        Scope.firstFault? [Scope.script []] (ds.events 1 next ++ shift k later) := by
  have whole : ¬ t.token.IsBroken := (Parser.chunk_eq_ok.mp run).1 t rfl
  have ends := Declared.ends_of_not_joins whole (Parser.chunk_first run) apart
  cases mirrors with
  | @cons _ t' _ ts' first others =>
    obtain rfl := first.resolve_right fun broken => whole broken.1
    have length := others.length_eq
    have more := ds.length_le 1
    have enough : (t :: ts).length + 1 + ds.length ≤ (ds.lexemes 1 ++ shift k t :: ts').length + 1 := by
      simp only [List.length_append, List.length_cons]
      omega
    have room : 2 ≤ (ds.lexemes 1 ++ shift k t :: ts').length + 1 := by
      simp only [List.length_append, List.length_cons]
      omega
    obtain ⟨later, d', u, alone, run', below⟩ :=
      Parser.chunk_declared (.cons (.inl rfl) others) ends enough room run
    refine ⟨later.reverse, d', shift k t, ?_, run', ?_⟩
    · rw [alone, List.reverse_append]
      rfl
    · rw [below, List.reverse_append, List.reverse_append, shift_reverse, List.reverse_reverse]
      rfl

/-- A script after declarations that it does not join is those and the script, unless there are too many
variables. -/
theorem parse_declared {k : Nat} {t : Lexeme} {ts ts' : List Lexeme} {ds : Declared} {body : Block}
    (mirrors : List.Forall₂ (Lexeme.Mirrors k) (t :: ts) ts') (apart : ¬ ds.Joins t.token)
    (run : parse (t :: ts) = .ok body) :
    parse (ds.lexemes 1 ++ ts') = .ok (ds.statements 1 ++ shift k body) ∨
      TooManyVariables (parse (ds.lexemes 1 ++ ts')) := by
  obtain ⟨d, chunk, sound⟩ := parse_eq_ok.mp run
  obtain ⟨later, d', next, alone, chunk', below⟩ := chunk_below mirrors apart chunk
  rw [alone] at sound
  replace sound : Scope.firstFault? [Scope.script []] later = none := sound
  rcases Scope.firstFault?_declared_or ds 1 next [] (shift k later)
    with same | ⟨u, fault⟩
  · rw [same, List.append_nil] at below
    rcases (Scope.script_below k ds).firstFault? later sound with none | ⟨u, fault⟩
    · exact .inl (parse_eq_ok.mpr ⟨d', chunk', below.trans none⟩)
    · exact .inr (parse_tooMany chunk' (below.trans fault))
  · exact .inr (parse_tooMany chunk' (below.trans fault))

/-- A text that the last declaration goes on with never stands as a script after it. -/
theorem parse_joined {t : Lexeme} {ts : List Lexeme} {ds : Declared} (joins : ds.Joins t.token) (body : Block) :
    parse (ds.lexemes 1 ++ t :: ts) ≠ .ok (ds.statements 1 ++ body) := by
  obtain ⟨paren, x, last⟩ := joins
  obtain ⟨front, rfl⟩ := List.getLast?_eq_some_iff.mp last
  obtain ⟨_, line⟩ := t
  cases paren
  intro run
  obtain ⟨d, chunk, _⟩ := parse_eq_ok.mp run
  obtain ⟨_, e, statements, _, _⟩ := Parser.chunk_eq_ok.mp chunk
  obtain ⟨c, _, got, statements⟩ := Parser.bind_eq_ok.mp statements
  cases got
  have length := Declared.length_le (front ++ [(x, .smallest)]) 1
  generalize size : (Declared.lexemes 1 (front ++ [(x, .smallest)]) ++ ⟨.mark .openParen, line⟩ :: ts).length + 1 = n
    at statements
  simp only [List.length_append, List.length_cons, List.length_nil] at length size
  obtain ⟨m, rfl⟩ := Nat.exists_eq_add_of_le' (by omega : front.length ≤ n)
  obtain ⟨names, first, es, line', more, same, other⟩ :=
    Parser.statementsFrom_joined (n := 195) (by omega : 2 ≤ m + front.length) statements
  rw [Declared.statements_append, List.append_assoc, List.append_cancel_left_eq] at same
  cases same
  exact other ⟨_, rfl⟩

end ScriptTools.Guest
