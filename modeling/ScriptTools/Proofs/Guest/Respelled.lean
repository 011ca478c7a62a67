import ScriptTools.Proofs.Guest.Literal

/-!
How the numeral of a declaration is written makes no difference to the parser. Up to the declaration both texts are
the same, so that every rule of the grammar reads the same there; the declaration itself is taken in as a whole, and
then the texts are the same again. A message can only show a token from outside.
-/

namespace ScriptTools.Guest.Parser

variable {α β : Type}

/-- A declaration of one variable with a numeral, in two spellings, and what follows it. -/
structure Respelling where
  name : Name
  negative : Bool
  number : Number
  first : List UInt8
  second : List UInt8
  line : Nat
  rest : List Lexeme

/-- A token that is asked for is not one that the question excludes. -/
theorem isLocal_of_asked {t : Token} {p : Token → Bool} (other : p (.keyword .local_) = false) (asked : p t = true) :
    isKeyword .local_ t = false := by
  cases t with
  | keyword k =>
    cases k with
    | local_ => exact absurd (other.symm.trans asked) nofun
    | _ => rfl
  | _ => rfl

theorem isLocal_of_unaryOp? {t : Token} {op : UnaryOp} (is : unaryOp? t = some op) : isKeyword .local_ t = false := by
  cases t with
  | keyword k => cases k <;> first | rfl | cases is
  | _ => rfl

theorem isLocal_of_binaryOp? {t : Token} {op : BinaryOp} (is : binaryOp? t = some op) : isKeyword .local_ t = false := by
  cases t with
  | keyword k => cases k <;> first | rfl | cases is
  | _ => rfl

namespace Respelling

variable (r : Respelling)

/-- The text from the declaration on, in one of the spellings. -/
def lexemes (text : List UInt8) : List Lexeme :=
  (declarationTokens r.name (.number r.negative r.number text)).map (⟨·, r.line⟩) ++ r.rest

/-- Places before the declaration in the two texts. -/
inductive Apart : Cursor → Cursor → Prop
  | before (front : List Lexeme) (size behind : Nat) (events : List (ScopeEvent × Lexeme)) :
      Apart ⟨front ++ r.lexemes r.first, size, behind, events⟩ ⟨front ++ r.lexemes r.second, size, behind, events⟩

/-- What a parser gives in the two texts: the same, or the same value still before the declaration. -/
inductive Alike : Except (ParseFault × List (ScopeEvent × Lexeme)) (α × Cursor) →
    Except (ParseFault × List (ScopeEvent × Lexeme)) (α × Cursor) → Prop
  | same (out : Except (ParseFault × List (ScopeEvent × Lexeme)) (α × Cursor)) : Alike out out
  | apart (a : α) {d d' : Cursor} (before : r.Apart d d') : Alike (.ok (a, d)) (.ok (a, d'))

/-- A parser that makes no difference between the two texts. -/
def Blind (p : Parser α) : Prop := ∀ ⦃c c'⦄, r.Apart c c' → r.Alike (p c) (p c')

/-- The same at places where some token comes next. -/
def BlindAt (t : Token) (p : Parser α) : Prop :=
  ∀ ⦃c c'⦄, r.Apart c c' → (c.ahead.head?.map Lexeme.token) = some t → r.Alike (p c) (p c')

variable {r} {t : Token} {p : Parser α} {f : α → Parser β}

/-- The same token comes next in both texts, on the same line. -/
theorem Apart.head {c c' : Cursor} (apart : r.Apart c c') :
    ∃ u, c.ahead.head? = some u ∧ c'.ahead.head? = some u ∧ ∀ v, (c.ahead.head?).getD v = u ∧ (c'.ahead.head?).getD v = u := by
  obtain ⟨front, size, behind, events⟩ := apart
  cases front with
  | nil => exact ⟨⟨.keyword .local_, r.line⟩, rfl, rfl, fun _ => ⟨rfl, rfl⟩⟩
  | cons u front => exact ⟨u, rfl, rfl, fun _ => ⟨rfl, rfl⟩⟩

theorem Blind.at (blind : r.Blind p) : r.BlindAt t p := fun _ _ apart _ => blind apart

theorem Blind.pure (a : α) : r.Blind (pure a) := fun _ _ apart => .apart a apart

theorem Alike.bind {out out' : Except (ParseFault × List (ScopeEvent × Lexeme)) (α × Cursor)} (alike : r.Alike out out')
    (next : ∀ a, r.Blind (f a)) : r.Alike (out >>= fun s => f s.1 s.2) (out' >>= fun s => f s.1 s.2) := by
  cases alike with
  | same => exact .same _
  | apart a before => exact next a before

theorem Blind.bind (blind : r.Blind p) (next : ∀ a, r.Blind (f a)) : r.Blind (p >>= f) :=
  fun _ _ apart => (blind apart).bind next

theorem BlindAt.bind (blind : r.BlindAt t p) (next : ∀ a, r.Blind (f a)) : r.BlindAt t (p >>= f) :=
  fun _ _ apart here => (blind apart here).bind next

theorem Blind.stop (fault : ParseFault) : r.Blind (stop fault : Parser α) := by
  rintro _ _ ⟨front, size, behind, events⟩
  exact .same _

theorem Blind.ite {P : Prop} [Decidable P] {q : Parser α} (yes : P → r.Blind p) (no : ¬ P → r.Blind q) :
    r.Blind (if P then p else q) := by
  split
  · exact yes ‹_›
  · exact no ‹_›

theorem BlindAt.ite {P : Prop} [Decidable P] {q : Parser α} (yes : P → r.BlindAt t p) (no : ¬ P → r.BlindAt t q) :
    r.BlindAt t (if P then p else q) := by
  split
  · exact yes ‹_›
  · exact no ‹_›

/-! Looking ahead -/

/-- What follows may depend on the token that comes next. -/
theorem Blind.current {f : Lexeme → Parser α} (next : ∀ u, r.BlindAt u.token (f u)) : r.Blind (Parser.current >>= f) := by
  intro c c' apart
  obtain ⟨u, here, _, current⟩ := apart.head
  change r.Alike (f ((c.ahead.head?).getD _) c) (f ((c'.ahead.head?).getD _) c')
  rw [(current _).1, (current _).2]
  exact next u apart (by rw [here]; rfl)

theorem BlindAt.current {f : Lexeme → Parser α} (next : ∀ line, r.BlindAt t (f ⟨t, line⟩)) :
    r.BlindAt t (Parser.current >>= f) := by
  intro c c' apart here
  obtain ⟨⟨u, line⟩, first, _, current⟩ := apart.head
  rw [first] at here
  cases here
  change r.Alike (f ((c.ahead.head?).getD _) c) (f ((c'.ahead.head?).getD _) c')
  rw [(current _).1, (current _).2]
  exact next line apart (by rw [first]; rfl)

theorem Blind.look {f : Token → Parser α} (next : ∀ t, r.BlindAt t (f t)) : r.Blind (Parser.peek >>= f) := by
  rw [Parser.peek, bind_assoc]
  simp only [pure_bind]
  exact .current fun u => next u.token

theorem BlindAt.look {f : Token → Parser α} (next : r.BlindAt t (f t)) : r.BlindAt t (Parser.peek >>= f) := by
  rw [Parser.peek, bind_assoc]
  simp only [pure_bind]
  exact .current fun _ => next

theorem BlindAt.line {f : Nat → Parser α} (next : ∀ l, r.BlindAt t (f l)) : r.BlindAt t (Parser.line >>= f) := by
  rw [Parser.line, bind_assoc]
  simp only [pure_bind]
  exact .current fun l => next l

theorem Blind.line : r.Blind Parser.line := .current fun u => (Blind.pure u.line).at

theorem Blind.fail (message : String) : r.Blind (fail message : Parser α) := .current fun _ => (Blind.stop _).at

theorem Blind.expected (what : String) : r.Blind (expected what : Parser α) := .fail _

theorem Blind.report (e : ScopeEvent × Lexeme) : r.Blind (modify fun c => { c with events := e :: c.events }) := by
  rintro _ _ ⟨front, size, behind, events⟩
  exact .apart () (.before front size behind _)

theorem Blind.emit (e : ScopeEvent) : r.Blind (emit e) := .current fun _ => (Blind.report _).at

theorem BlindAt.emit {e : ScopeEvent} {f : Unit → Parser α} (next : r.BlindAt t (f ())) :
    r.BlindAt t (Parser.emit e >>= f) := by
  rw [Parser.emit, bind_assoc]
  refine .current fun line => ?_
  rintro _ _ ⟨front, size, behind, events⟩ here
  exact next (.before front size behind _) here

/-! Taking in tokens -/

/-- Any other token than the one that starts the declaration is taken in before it. -/
theorem Blind.checkText : r.Blind checkText := by
  refine .current fun t => ?_
  obtain ⟨t, line⟩ := t
  cases t with
  | broken message => exact (Blind.stop _).at
  | _ => exact (Blind.pure ()).at

theorem BlindAt.advance (other : t ≠ .keyword .local_) : r.BlindAt t advance := by
  rintro _ _ ⟨front, size, behind, events⟩ here
  cases front with
  | nil =>
    cases here
    exact absurd rfl other
  | cons u front =>
    exact Blind.checkText (.before front size u.line events)

theorem BlindAt.take {f : Unit → Parser α} (other : isKeyword .local_ t = false) (next : r.Blind (f ())) :
    r.BlindAt t (Parser.advance >>= f) := by
  refine (BlindAt.advance ?_).bind fun _ => next
  rintro rfl
  cases other

theorem Blind.accept {p : Token → Bool} (other : p (.keyword .local_) = false) : r.Blind (accept p) :=
  .look fun _ => .ite (fun asked => .take (isLocal_of_asked other asked) (.pure true)) fun _ => (Blind.pure false).at

theorem Blind.mark (m : Mark) : r.Blind (mark m) :=
  .bind (.accept rfl) fun _ => .ite (fun _ => .expected _) fun _ => .pure ()

theorem Blind.keyword {k : Keyword} (other : k ≠ .local_) : r.Blind (keyword k) :=
  .bind (.accept (beq_eq_false_iff_ne.mpr other)) fun _ => .ite (fun _ => .expected _) fun _ => .pure ()

theorem Blind.close {closing : Token} (other : isKeyword .local_ closing = false) (opening : Token) (start : Nat) :
    r.Blind (close closing opening start) := by
  refine .bind (.accept ?_) fun _ => .ite (fun _ => .bind .line fun _ => .ite (fun _ => .expected _) fun _ => .fail _)
    fun _ => .pure ()
  cases closing with
  | keyword k => cases k <;> first | rfl | cases other
  | _ => rfl

theorem Blind.name : r.Blind Parser.name := by
  refine .look fun t => ?_
  cases t with
  | name x => exact .take rfl (.pure x)
  | _ => exact (Blind.expected _).at

/-! Repetitions -/

/-- What follows depends on the size of the text or the line of the token behind. -/
theorem Blind.place {f : Cursor → Parser α}
    (same : ∀ c c' : Cursor, c.size = c'.size → c.behind = c'.behind → f c = f c') (next : ∀ c, r.Blind (f c)) :
    r.Blind (get >>= f) := by
  rintro _ _ ⟨front, size, behind, events⟩
  have apart : r.Apart _ _ := .before front size behind events
  change r.Alike (f _ _) (f _ _)
  rw [same ⟨front ++ r.lexemes r.second, size, behind, events⟩ ⟨front ++ r.lexemes r.first, size, behind, events⟩ rfl rfl]
  exact next _ apart

theorem Blind.sized {f : Nat → Parser α} (next : ∀ n, r.Blind (f n)) : r.Blind (get >>= fun c => f c.size) :=
  .place (fun _ _ same _ => by rw [same]) fun c => next c.size

theorem Blind.loop {step : Parser (Option α)} (steps : r.Blind step) (n : Nat) (done : List α) :
    r.Blind (loop step n done) := by
  induction n generalizing done with
  | zero => exact .fail _
  | succ n ih =>
    refine .bind steps fun a => ?_
    cases a with
    | none => exact .pure _
    | some a => exact ih _

theorem Blind.many {step : Parser (Option α)} (steps : r.Blind step) : r.Blind (many step) :=
  .sized fun n => .loop steps n []

theorem Blind.chain {step : α → Parser (Option α)} (steps : ∀ a, r.Blind (step a)) (n : Nat) (a : α) :
    r.Blind (chain step n a) := by
  induction n generalizing a with
  | zero => exact .fail _
  | succ n ih =>
    refine .bind (steps a) fun b => ?_
    cases b with
    | none => exact .pure a
    | some b => exact ih b

theorem Blind.follow {step : α → Parser (Option α)} (a : α) (steps : ∀ a, r.Blind (step a)) : r.Blind (follow a step) :=
  .sized fun n => .chain steps n a

theorem Blind.forM {step : α → Parser Unit} (steps : ∀ a, r.Blind (step a)) (as : List α) : r.Blind (as.forM step) := by
  induction as with
  | nil => exact .pure ()
  | cons a as ih => exact .bind (steps a) fun _ => ih

theorem Blind.commaList {item : Parser α} (items : r.Blind item) : r.Blind (commaList item) :=
  .bind items fun _ => .bind (.many (.bind (.accept rfl) fun _ => .ite (fun _ => .bind items fun _ => .pure _) fun _ =>
    .pure _)) fun _ => .pure _

theorem Blind.reserve (x : Name) : r.Blind (reserve x) := .emit _

theorem Blind.reserveHidden (n : Nat) : r.Blind (reserveHidden n) := by
  induction n with
  | zero => exact .pure ()
  | succ n ih => exact .bind (.reserve _) fun _ => ih

theorem Blind.enclosed (loop : Bool) (inner : r.Blind p) : r.Blind (enclosed loop p) :=
  .bind (.emit _) fun _ => .bind inner fun _ => .bind (.emit _) fun _ => .pure _

end Respelling

/-! The grammar -/

open Respelling (Blind BlindAt)

/-- The nested parts make no difference between the two texts, and take in the numeral of the declaration whatever its
spelling. -/
structure Grammar.Blind (r : Respelling) (g : Grammar) : Prop where
  statement : r.Blind g.statement
  expr : ∀ limit, r.Blind (g.expr limit)
  numeral : ∀ limit size behind events,
    g.expr limit ⟨⟨.number r.number r.second, r.line⟩ :: r.rest, size, behind, events⟩ =
      g.expr limit ⟨⟨.number r.number r.first, r.line⟩ :: r.rest, size, behind, events⟩
  signed : ∀ limit size behind events,
    g.expr limit ⟨⟨.mark .minus, r.line⟩ :: ⟨.number r.number r.second, r.line⟩ :: r.rest, size, behind, events⟩ =
      g.expr limit ⟨⟨.mark .minus, r.line⟩ :: ⟨.number r.number r.first, r.line⟩ :: r.rest, size, behind, events⟩

namespace Grammar.Blind

variable {r : Respelling} {g : Grammar} (nested : g.Blind r)
include nested

theorem exprs : r.Blind g.exprs := .commaList (nested.expr 0)

theorem statementsFrom (n : Nat) (done : List Stat) : r.Blind (g.statementsFrom n done) := by
  induction n generalizing done with
  | zero => exact .fail _
  | succ n ih =>
    refine .look fun t => .ite (fun _ => (Blind.pure _).at) fun _ => Blind.at ?_
    exact .bind nested.statement fun part => .ite (fun _ => .pure _) fun _ => ih _

theorem statements : r.Blind g.statements := .sized fun n => nested.statementsFrom n []

theorem block : r.Blind g.block := .enclosed false nested.statements

omit nested in
theorem parameter : r.Blind parameter := by
  refine .look fun t => ?_
  cases t with
  | name x => exact .take rfl (.bind (.reserve x) fun _ => .pure _)
  | mark m =>
    cases m with
    | ellipsis => exact .take rfl (.bind (.emit _) fun _ => .pure _)
    | _ => exact (Blind.expected _).at
  | _ => exact (Blind.expected _).at

omit nested in
theorem parameters : r.Blind parameters := by
  refine .look fun t => .ite (fun _ => (Blind.pure _).at) fun _ => Blind.at (.bind parameter fun first => ?_)
  refine .follow _ fun a => .ite (fun _ => .pure _) fun _ => ?_
  exact .bind (.accept rfl) fun _ => .ite (fun _ => .bind parameter fun _ => .pure _) fun _ => .pure _

theorem functionBody (method : Bool) (start : Nat) : r.Blind (g.functionBody method start) := by
  refine .bind (.emit _) fun _ => .bind (.mark _) fun _ => ?_
  refine Blind.ite (fun _ => .bind (.reserve _) fun _ => .bind (.emit _) fun _ => ?_) fun _ => ?_
  all_goals
    refine .bind parameters fun a => .bind (.emit _) fun _ => .bind (.mark _) fun _ => ?_
    exact .bind nested.statements fun body => .bind (.close rfl _ _) fun _ => .bind (.emit _) fun _ => .pure _

theorem field : r.Blind g.field := by
  have item : r.Blind (do return Field.item (← g.expr 0)) := .bind (nested.expr 0) fun _ => .pure _
  have indexed : r.BlindAt (.mark .openBracket) (do
      advance
      let key ← g.expr 0
      mark .closeBracket
      mark .assign
      return Field.pair key (← g.expr 0)) :=
    .take rfl (.bind (nested.expr 0) fun _ => .bind (.mark _) fun _ => .bind (.mark _) fun _ =>
      .bind (nested.expr 0) fun _ => .pure _)
  have value (x : Name) : r.BlindAt (.mark .assign) (do advance; return Field.pair (.string x) (← g.expr 0)) :=
    .take rfl (.bind (nested.expr 0) fun _ => .pure _)
  -- The branch is chosen by two tokens.
  rintro _ _ ⟨front, size, behind, events⟩
  match front with
  | [] => exact item (.before [] size behind events)
  | ⟨t, l⟩ :: front =>
    have other := item (.before (⟨t, l⟩ :: front) size behind events)
    cases t with
    | mark m =>
      cases m with
      | openBracket => exact indexed (.before (⟨.mark .openBracket, l⟩ :: front) size behind events) rfl
      | _ => exact other
    | name x =>
      match front with
      | [] => exact other
      | ⟨u, k⟩ :: front =>
        cases u with
        | mark m =>
          cases m with
          | assign => exact value x (.before (⟨.mark .assign, k⟩ :: front) size l events) rfl
          | _ => exact other
        | _ => exact other
    | _ => exact other

theorem fields : r.Blind g.fields := by
  refine .bind (.follow _ fun a => .look fun t => .ite (fun _ => (Blind.pure _).at) fun _ => Blind.at ?_) fun a => .pure _
  exact .bind nested.field fun f => .bind (.accept rfl) fun more => .pure _

theorem table : r.Blind g.table :=
  .bind .line fun _ => .bind (.mark _) fun _ => .bind nested.fields fun _ => .bind .line fun _ =>
    .bind (.close rfl _ _) fun _ => .pure _

theorem arguments : r.Blind g.arguments := by
  refine .look fun t => ?_
  cases t with
  | string s form => exact .take rfl (.pure _)
  | mark m =>
    cases m with
    | openBrace => exact Blind.at (.bind nested.table fun _ => .pure _)
    | openParen =>
      refine .line fun _ => .take rfl (.bind (.accept rfl) fun _ => .ite (fun _ => .pure _) fun _ => ?_)
      exact .bind nested.exprs fun _ => .bind (.close rfl _ _) fun _ => .pure _
    | _ => exact (Blind.expected _).at
  | _ => exact (Blind.expected _).at

omit nested in
theorem dotField {t : Token} (other : isKeyword .local_ t = false) (object : Expr) : r.BlindAt t (dotField object) :=
  .take other (.bind .line fun _ => .bind .name fun _ => .pure _)

theorem suffix (e : Expr) : r.Blind (g.suffix e) := by
  have call : r.Blind (do let line ← line; return some (Expr.call e (← g.arguments) line)) :=
    .bind .line fun _ => .bind nested.arguments fun _ => .pure _
  refine .look fun t => ?_
  cases t with
  | string s form => exact call.at
  | mark m =>
    cases m with
    | dot => exact (dotField rfl e).bind fun _ => .pure _
    | openBracket => exact .take rfl (.bind .line fun _ => .bind (nested.expr 0) fun _ => .bind (.mark _) fun _ => .pure _)
    | colon => exact .take rfl (.bind .name fun _ => .bind .line fun _ => .bind nested.arguments fun _ => .pure _)
    | openParen => exact call.at
    | openBrace => exact call.at
    | _ => exact (Blind.pure _).at
  | _ => exact (Blind.pure _).at

theorem primary : r.Blind g.primary := by
  refine .bind .line fun _ => .look fun t => ?_
  cases t with
  | name x => exact .take rfl (.pure _)
  | mark m =>
    cases m with
    | openParen => exact .take rfl (.bind (nested.expr 0) fun _ => .bind (.close rfl _ _) fun _ => .pure _)
    | _ => exact (Blind.fail _).at
  | _ => exact (Blind.fail _).at

theorem suffixed : r.Blind g.suffixed := .bind nested.primary fun e => .follow e nested.suffix

theorem simple : r.Blind g.simple := by
  refine .look fun t => ?_
  cases t with
  | number n text => exact .take rfl (.pure _)
  | string s form => exact .take rfl (.pure _)
  | keyword k =>
    cases k with
    | nil_ => exact .take rfl (.pure _)
    | true_ => exact .take rfl (.pure _)
    | false_ => exact .take rfl (.pure _)
    | function_ => exact .take rfl (.bind .line fun start => nested.functionBody false start)
    | _ => exact nested.suffixed.at
  | mark m =>
    cases m with
    | ellipsis => exact .emit (.take rfl (.pure _))
    | openBrace => exact nested.table.at
    | _ => exact nested.suffixed.at
  | _ => exact nested.suffixed.at

theorem operand : r.Blind g.operand := by
  refine .look fun t => ?_
  cases op : unaryOp? t with
  | none => exact nested.simple.at
  | some op' =>
    exact .line fun _ => .take (isLocal_of_unaryOp? op) (.bind (nested.expr _) fun _ => .pure _)

theorem operators (limit : Nat) (left : Expr) : r.Blind (g.operators limit left) := by
  refine .look fun t => ?_
  cases op : binaryOp? t with
  | none => exact (Blind.pure _).at
  | some op' =>
    refine .ite (fun _ => ?_) fun _ => (Blind.pure _).at
    exact .line fun _ => .take (isLocal_of_binaryOp? op) (.bind (nested.expr _) fun _ => .pure _)

theorem exprAbove (limit : Nat) : r.Blind (g.exprAbove limit) :=
  .bind nested.operand fun e => .follow e (nested.operators limit)

/-! Statements -/

theorem branches (start n : Nat) : r.Blind (g.branches start n) := by
  induction n with
  | zero => exact .fail _
  | succ n ih =>
    refine .bind (nested.expr 0) fun condition => .bind (.keyword nofun) fun _ => .bind nested.block fun yes => ?_
    have alone : r.Blind (do endOf .if_ start; return Stat.branch condition yes []) :=
      .bind (.close rfl _ _) fun _ => .pure _
    refine .look fun t => ?_
    cases t with
    | keyword k =>
      cases k with
      | elseif_ => exact .take rfl (.bind ih fun _ => .pure _)
      | else_ => exact .take rfl (.bind nested.block fun _ => .bind (.close rfl _ _) fun _ => .pure _)
      | _ => exact alone.at
    | _ => exact alone.at

theorem whileLoop (start : Nat) : r.Blind (g.whileLoop start) :=
  .bind (nested.expr 0) fun _ => .bind (.emit _) fun _ => .bind (.keyword nofun) fun _ => .bind nested.block fun _ =>
    .bind (.close rfl _ _) fun _ => .bind (.emit _) fun _ => .pure _

theorem repeatLoop (start : Nat) : r.Blind (g.repeatLoop start) :=
  .enclosed true (.enclosed false (.bind nested.statements fun _ => .bind (.close rfl _ _) fun _ =>
    .bind (nested.expr 0) fun _ => .pure _))

theorem loopBody : r.Blind g.loopBody :=
  .bind .line fun _ => .bind (.keyword nofun) fun _ => .bind (.emit _) fun _ => .bind (.emit _) fun _ =>
    .bind nested.block fun _ => .bind (.emit _) fun _ => .pure _

theorem countLoop (x : Name) : r.Blind (g.countLoop x) := by
  refine .bind (.reserveHidden 3) fun _ => .bind (.reserve x) fun _ => .bind (.mark _) fun _ => ?_
  refine .bind (nested.expr 0) fun _ => .bind (.mark _) fun _ => .bind (nested.expr 0) fun _ => ?_
  refine .bind (.accept rfl) fun _ => Blind.ite (fun _ => .bind (nested.expr 0) fun _ => ?_) fun _ =>
    .bind (.pure _) fun _ => ?_
  all_goals exact .bind nested.loopBody fun _ => .pure _

theorem eachLoop (x : Name) : r.Blind (g.eachLoop x) := by
  refine .bind (.reserveHidden 4) fun _ => .bind (.reserve x) fun _ => .bind (.many ?_) fun _ => ?_
  · exact .bind (.accept rfl) fun _ => .ite (fun _ => .bind .name fun y => .bind (.reserve y) fun _ => .pure _) fun _ =>
      .pure _
  · exact .bind (.keyword nofun) fun _ => .bind .line fun _ => .bind nested.exprs fun _ => .bind nested.loopBody fun _ =>
      .pure _

theorem forLoop (start : Nat) : r.Blind (g.forLoop start) := by
  refine .enclosed true (.bind .name fun x => .look fun t => Blind.at ?_)
  have ended {p : Parser Stat} (loop : r.Blind p) : r.Blind (do let loop ← p; endOf .for_ start; return loop) :=
    .bind loop fun _ => .bind (.close rfl _ _) fun _ => .pure _
  cases t with
  | mark m =>
    cases m with
    | assign => exact ended (nested.countLoop x)
    | comma => exact ended (nested.eachLoop x)
    | _ => exact ended (.expected _)
  | keyword k =>
    cases k with
    | in_ => exact ended (nested.eachLoop x)
    | _ => exact ended (.expected _)
  | _ => exact ended (.expected _)

omit nested in
theorem functionName : r.Blind functionName := by
  refine .bind .line fun _ => .bind .name fun _ => .bind (.follow _ fun e => ?_) fun target => ?_
  · exact .look fun t => .ite (fun dot => (dotField (isLocal_of_asked rfl dot) e).bind fun _ => .pure _) fun _ =>
      (Blind.pure _).at
  · exact .look fun t => .ite (fun colon => (dotField (isLocal_of_asked rfl colon) target).bind fun _ => .pure _)
      fun _ => (Blind.pure _).at

omit nested in
theorem emitAssign (target : Expr) : r.Blind (emitAssign target) := by
  cases target with
  | name x line => exact .emit _
  | _ => exact .pure _

theorem functionStatement (line : Nat) : r.Blind (g.functionStatement line) :=
  .bind functionName fun f => .bind (nested.functionBody f.2 line) fun _ => .bind (emitAssign f.1) fun _ => .pure _

theorem localFunction : r.Blind g.localFunction := by
  refine .bind .name fun x => .bind (.reserve x) fun _ => .bind (.emit _) fun _ => .bind .line fun start => ?_
  refine .bind (nested.functionBody false start) fun f => ?_
  cases f with
  | function params dots body => exact .pure _
  | _ => exact .fail _

omit nested in
theorem readAttribute : r.Blind readAttribute :=
  .bind (.accept rfl) fun _ => .ite (fun _ => .bind .name fun _ => .bind (.mark _) fun _ => .bind (.emit _) fun _ => .pure _)
    fun _ => .pure _

theorem localNames : r.Blind g.localNames := by
  refine .bind (.commaList (.bind .name fun x => .bind (.reserve x) fun _ => .bind readAttribute fun _ => .pure _)) fun names => ?_
  have declared (values : List Expr) :
      r.Blind (do emit .activate; return Stat.declare names values (← get).behind) :=
    .bind (.emit _) fun _ => .place (fun _ _ _ same => by rw [same]) fun _ => .pure _
  exact .bind (.accept rfl) fun _ => Blind.ite (fun _ => .bind nested.exprs declared) fun _ => declared []

omit nested in
theorem target (e : Expr) : r.Blind (target e) := .ite (fun _ => emitAssign e) fun _ => .fail _

theorem assignment (first : Expr) : r.Blind (g.assignment first) := by
  refine .bind (target first) fun _ => .bind (.many ?_) fun more => ?_
  · exact .bind (.accept rfl) fun _ => .ite (fun _ => .bind nested.suffixed fun e => .bind (target e) fun _ => .pure _)
      fun _ => .pure _
  · exact .bind (.mark _) fun _ => .bind nested.exprs fun _ => .place (fun _ _ _ same => by rw [same]) fun _ => .pure _

theorem expressionStatement : r.Blind g.expressionStatement := by
  refine .bind nested.suffixed fun e => .look fun t => Blind.at (.ite (fun _ => nested.assignment e) fun _ => ?_)
  cases e with
  | call => exact .pure _
  | method => exact .pure _
  | _ => exact .fail _

omit nested in
theorem label : r.Blind label :=
  .bind .line fun _ => .bind (.mark _) fun _ => .bind .name fun _ => .bind (.mark _) fun _ => .pure _

omit nested in
theorem labels : r.Blind labels := by
  refine .bind label fun first => .bind (.many ?_) fun more => ?_
  · refine .bind (.accept rfl) fun _ => .ite (fun _ => .pure _) fun _ => .look fun t => Blind.at ?_
    exact .ite (fun _ => .bind label fun _ => .pure _) fun _ => .pure _
  · exact .look fun t => Blind.at (.bind (.forM (fun _ => .emit _) _) fun _ => .pure _)

theorem returnStatement : r.Blind g.returnStatement := by
  have ended (values : List Expr) :
      r.Blind (do let _ ← accept (isMark .semicolon); return Stat.return values) :=
    .bind (.accept rfl) fun _ => .pure _
  exact .look fun t => Blind.at (.ite (fun _ => ended []) fun _ => .bind nested.exprs ended)

/-- The expression of the declaration. -/
theorem expr_respelled (limit size behind : Nat) (events : List (ScopeEvent × Lexeme)) :
    g.expr limit ⟨(r.lexemes r.second).drop 3, size, behind, events⟩ =
      g.expr limit ⟨(r.lexemes r.first).drop 3, size, behind, events⟩ := by
  obtain ⟨x, negative, n, first, second, line, rest⟩ := r
  cases negative with
  | false => exact nested.numeral limit size behind events
  | true => exact nested.signed limit size behind events

/-- The declaration is taken in as a whole, and what is left of its numeral is the number. -/
theorem localNames_respelled (size behind : Nat) (events : List (ScopeEvent × Lexeme)) :
    g.localNames ⟨(r.lexemes r.second).drop 1, size, behind, events⟩ =
      g.localNames ⟨(r.lexemes r.first).drop 1, size, behind, events⟩ := by
  cases size with
  | zero => rfl
  | succ size =>
    have named (text : List UInt8) : g.localNames ⟨(r.lexemes text).drop 1, size + 1, behind, events⟩ =
        (g.exprs >>= fun values => do emit .activate; return Stat.declare [(r.name, .plain)] values (← get).behind)
          ⟨(r.lexemes text).drop 3, size + 1, r.line, (.reserve r.name, ⟨.mark .assign, r.line⟩) :: events⟩ := by
      cases negative : r.negative <;> rw [Respelling.lexemes, negative] <;> rfl
    have exprs (events : List (ScopeEvent × Lexeme)) :
        g.exprs ⟨(r.lexemes r.second).drop 3, size + 1, r.line, events⟩ =
          g.exprs ⟨(r.lexemes r.first).drop 3, size + 1, r.line, events⟩ := by
      change (g.expr 0 _ >>= _) = (g.expr 0 _ >>= _)
      rw [nested.expr_respelled]
    rw [named, named]
    change (g.exprs _ >>= _) = (g.exprs _ >>= _)
    rw [exprs]

theorem oneStatement : r.Blind g.oneStatement := by
  refine .bind .line fun line => .look fun t => ?_
  have expression : r.Blind (do return [← g.expressionStatement]) := .bind nested.expressionStatement fun _ => .pure _
  cases t with
  | mark m =>
    cases m with
    | semicolon => exact .take rfl (.pure _)
    | doubleColon => exact labels.at
    | _ => exact expression.at
  | keyword k =>
    cases k with
    | if_ => exact .take rfl (.sized fun n => .bind (nested.branches line n) fun s => .pure [s])
    | while_ => exact .take rfl (.bind (nested.whileLoop line) fun _ => .pure _)
    | do_ => exact .take rfl (.bind nested.block fun _ => .bind (.close rfl _ _) fun _ => .pure _)
    | for_ => exact .take rfl (.bind (nested.forLoop line) fun _ => .pure _)
    | repeat_ => exact .take rfl (.bind (nested.repeatLoop line) fun _ => .pure _)
    | function_ => exact .take rfl (.bind (nested.functionStatement line) fun _ => .pure _)
    | local_ =>
      rintro _ _ ⟨front, size, behind, events⟩ here
      have names : r.Blind (do
          if ← accept (isKeyword .function_) then return [← g.localFunction] else return [← g.localNames]) :=
        .bind (.accept rfl) fun _ => .ite (fun _ => .bind nested.localFunction fun _ => .pure _) fun _ =>
          .bind nested.localNames fun _ => .pure _
      cases front with
      | nil =>
        have whole (text : List UInt8) : (do
            advance
            if ← accept (isKeyword .function_) then return [← g.localFunction] else return [← g.localNames])
              ⟨r.lexemes text, size, behind, events⟩ =
            (g.localNames >>= fun s => Pure.pure [s]) ⟨(r.lexemes text).drop 1, size, r.line, events⟩ := rfl
        have names : (g.localNames >>= fun s => Pure.pure [s]) ⟨(r.lexemes r.second).drop 1, size, r.line, events⟩ =
            (g.localNames >>= fun s => Pure.pure [s]) ⟨(r.lexemes r.first).drop 1, size, r.line, events⟩ := by
          change (g.localNames _ >>= _) = (g.localNames _ >>= _)
          rw [nested.localNames_respelled]
        dsimp only [List.nil_append]
        rw [whole, whole, names]
        exact .same _
      | cons t front =>
        have later : r.Apart _ _ := .before front size t.line events
        change r.Alike ((checkText >>= fun _ => _) ⟨front ++ r.lexemes r.first, size, t.line, events⟩)
          ((checkText >>= fun _ => _) ⟨front ++ r.lexemes r.second, size, t.line, events⟩)
        exact Blind.bind .checkText (fun _ => names) later
    | return_ => exact .take rfl (.bind nested.returnStatement fun _ => .pure _)
    | break_ => exact .take rfl (.bind (.emit _) fun _ => .pure _)
    | goto_ => exact .take rfl (.bind .line fun _ => .bind .name fun _ => .bind (.emit _) fun _ => .pure _)
    | _ => exact expression.at
  | _ => exact expression.at

end Grammar.Blind

/-- No level of the grammar makes a difference. -/
theorem grammar_blind (r : Respelling) (n : Nat) : (grammar n).Blind r := by
  induction n with
  | zero => exact ⟨.stop _, fun _ => .stop _, fun _ _ _ _ => rfl, fun _ _ _ _ => rfl⟩
  | succ n ih =>
    refine ⟨ih.oneStatement, ih.exprAbove, fun _ _ _ _ => rfl, fun limit size behind events => ?_⟩
    have negated (text : List UInt8) : (grammar (n + 1)).expr limit
        ⟨⟨.mark .minus, r.line⟩ :: ⟨.number r.number text, r.line⟩ :: r.rest, size, behind, events⟩ =
        (((grammar n).expr unaryBinding >>= fun e => Pure.pure (Expr.unary .negate e r.line)) >>= fun e =>
          follow e ((grammar n).operators limit))
          ⟨⟨.number r.number text, r.line⟩ :: r.rest, size, r.line, events⟩ := rfl
    rw [negated, negated]
    change (((grammar n).expr _ _ >>= _) >>= _) = (((grammar n).expr _ _ >>= _) >>= _)
    rw [ih.numeral]

theorem chunk_blind (r : Respelling) : r.Blind chunk := by
  refine .bind .checkText fun _ => .bind (.emit _) fun _ => .bind (.emit _) fun _ => ?_
  refine .bind (grammar_blind r levels).statements fun body => .look fun t => Blind.at ?_
  cases t with
  | eof => exact .bind (.emit _) fun _ => .pure _
  | _ => exact .bind (.expected _) fun _ => .pure _

end Parser

/-- How the numeral of a declaration is written makes no difference to a script. -/
theorem parse_respelled (r : Parser.Respelling) (front : List Lexeme) :
    parse (front ++ r.lexemes r.second) = parse (front ++ r.lexemes r.first) := by
  have length : (front ++ r.lexemes r.second).length = (front ++ r.lexemes r.first).length := by
    cases negative : r.negative <;> simp [Parser.Respelling.lexemes, Parser.declarationTokens, Literal.tokens, negative]
  have alike := Parser.chunk_blind r (.before front ((front ++ r.lexemes r.first).length + 1) 1 [])
  rw [parse, parse, length]
  change r.Alike (Parser.chunk.run _) (Parser.chunk.run _) at alike
  generalize Parser.chunk.run { ahead := front ++ r.lexemes r.first, size := _ } = out at alike ⊢
  generalize Parser.chunk.run { ahead := front ++ r.lexemes r.second, size := _ } = out' at alike ⊢
  cases alike with
  | same => rfl
  | apart body before =>
    obtain ⟨front, size, behind, events⟩ := before
    rfl

end ScriptTools.Guest
