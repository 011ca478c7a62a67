import Mathlib.Data.List.Forall2
import ScriptTools.Guest.Parser
import ScriptTools.Proofs.Guest.Shift

/-!
A parser on a text that starts some lines further down. Where it succeeds on the text alone it succeeds
there too, with the same syntax and the same report but for the lines. The lemmas here are about the
parts that the grammar is made of.
-/

namespace ScriptTools.Guest

/-- What can be moved some lines down. A natural number is a line. -/
class Shift (α : Type) where
  shift : Nat → α → α

export Shift (shift)

instance : Shift Nat := ⟨fun k n => n + k⟩
instance : Shift Expr := ⟨Expr.shift⟩
instance : Shift Field := ⟨Field.shift⟩
instance : Shift Stat := ⟨Stat.shift⟩
instance : Shift Lexeme := ⟨Lexeme.shift⟩
instance : Shift ScopeEvent := ⟨ScopeEvent.shift⟩
instance : Shift Bool := ⟨fun _ b => b⟩
instance : Shift Unit := ⟨fun _ u => u⟩
instance : Shift Token := ⟨fun _ t => t⟩
instance : Shift Name := ⟨fun _ x => x⟩
instance : Shift Attribute := ⟨fun _ a => a⟩

instance {α β : Type} [Shift α] [Shift β] : Shift (α × β) := ⟨fun k p => (shift k p.1, shift k p.2)⟩
instance {α : Type} [Shift α] : Shift (List α) := ⟨fun k as => as.map (shift k)⟩
instance {α : Type} [Shift α] : Shift (Option α) := ⟨fun k a => a.map (shift k)⟩

theorem shift_exprs (k : Nat) (es : List Expr) : Expr.shiftAll k es = shift k es :=
  Expr.shiftAll_eq_map k es

theorem shift_fields (k : Nat) (fs : List Field) : Field.shiftAll k fs = shift k fs :=
  Field.shiftAll_eq_map k fs

theorem shift_stats (k : Nat) (ss : List Stat) : Stat.shiftAll k ss = shift k ss :=
  Stat.shiftAll_eq_map k ss

theorem shift_call (k : Nat) (callee : Expr) (args : List Expr) (line : Nat) :
    Expr.shift k (.call callee args line) = .call (shift k callee) (shift k args) (shift k line) := by
  rw [Expr.shift, shift_exprs]
  rfl

theorem shift_branch (k : Nat) (condition : Expr) (yes no : List Stat) :
    Stat.shift k (.branch condition yes no) = .branch (shift k condition) (shift k yes) (shift k no) := by
  rw [Stat.shift, shift_stats, shift_stats]
  rfl

theorem shift_reverse {α : Type} [Shift α] (k : Nat) (as : List α) :
    shift k as.reverse = (shift k as).reverse :=
  List.map_reverse

theorem shift_append {α : Type} [Shift α] (k : Nat) (as bs : List α) :
    shift k (as ++ bs) = shift k as ++ shift k bs :=
  List.map_append

theorem shift_names (k : Nat) (xs : List Name) : shift k xs = xs := List.map_id xs

theorem shift_filterMap {α : Type} [Shift α] (k : Nat) (as : List (Option α)) :
    (shift k as).filterMap (fun a => a) = shift k (as.filterMap fun a => a) := by
  induction as with
  | nil => rfl
  | cons a as ih =>
    cases a with
    | none => exact ih
    | some a => exact congrArg (shift k a :: ·) ih

def Token.IsBroken (t : Token) : Prop := ∃ m, t = .broken m

/-- Lexemes at the same place of two texts. Where a text is broken the reason may name a line. -/
def Lexeme.Mirrors (k : Nat) (t t' : Lexeme) : Prop :=
  t' = shift k t ∨ t.token.IsBroken ∧ t'.token.IsBroken

namespace Cursor

/-- The text goes on with a token or has ended. -/
def Ready (c : Cursor) : Prop := ∀ t, c.ahead.head? = some t → ¬ t.token.IsBroken

/-- The place after the current token. -/
def next (c : Cursor) : Cursor :=
  match c.ahead with
  | [] => c
  | t :: rest => { c with ahead := rest, behind := t.line }

theorem Ready.below {k : Nat} {c c' : Cursor} (ready : c.Ready)
    (ahead : List.Forall₂ (Lexeme.Mirrors k) c.ahead c'.ahead) : c'.Ready := by
  obtain ⟨ts, _, _, _⟩ := c
  obtain ⟨ts', _, _, _⟩ := c'
  cases ahead with
  | nil => nofun
  | @cons t _ _ _ first _ =>
    obtain rfl := first.resolve_right fun broken => ready t rfl broken.1
    intro u here
    cases here
    exact ready t rfl

end Cursor

namespace Parser

/-- How far down a text stands, and what was reported before each of the two. -/
structure Offset where
  lines : Nat
  alone : List (ScopeEvent × Lexeme)
  below : List (ScopeEvent × Lexeme)

variable {α β : Type} [Shift α] [Shift β]

namespace Offset

variable (o : Offset)

/-- Places in the two texts that correspond. Before the first token is taken in, the lines behind them
need not. -/
structure Aligned (moved : Bool) (c c' : Cursor) : Prop where
  ahead : List.Forall₂ (Lexeme.Mirrors o.lines) c.ahead c'.ahead
  ready : c.Ready
  size : c.size ≤ c'.size
  behind : moved = true → c'.behind = c.behind + o.lines
  more : moved = false → c.ahead ≠ []
  events : ∃ later, c.events = later ++ o.alone ∧ c'.events = shift o.lines later ++ o.below

/-- The second parser does on the second text what the first one does on the first. -/
def Mirrors (b b' : Bool) (p p' : Parser α) : Prop :=
  ∀ c c' a d, o.Aligned b c c' → p c = .ok (a, d) →
    ∃ d', p' c' = .ok (shift o.lines a, d') ∧ o.Aligned b' d d'

end Offset

/-- A parser that reads nothing anywhere. -/
def Fails (p : Parser α) : Prop := ∀ c, ∃ e, p c = .error e

omit [Shift α] in
theorem fails_fail (message : String) : Fails (fail message : Parser α) := fun _ => ⟨_, rfl⟩

omit [Shift α] [Shift β] in
theorem Fails.bind {p : Parser α} {f : α → Parser β} (fails : ∀ a, Fails (f a)) : Fails (p >>= f) := by
  intro c
  change ∃ e, (p c >>= fun s => f s.1 s.2) = .error e
  cases p c with
  | error e => exact ⟨e, rfl⟩
  | ok s => exact fails s.1 s.2

omit [Shift α] [Shift β] in
theorem bind_eq_ok {p : Parser α} {f : α → Parser β} {c e : Cursor} {b : β} :
    (p >>= f) c = .ok (b, e) ↔ ∃ a d, p c = .ok (a, d) ∧ f a d = .ok (b, e) := by
  change (p c >>= fun s => f s.1 s.2) = .ok (b, e) ↔ _
  cases p c with
  | error e => simp [bind, Except.bind]
  | ok s =>
    obtain ⟨a, d⟩ := s
    simp [bind, Except.bind]

theorem checkText_eq_ok {c d : Cursor} {u : Unit} :
    checkText c = .ok (u, d) ↔ d = c ∧ c.Ready := by
  unfold Cursor.Ready
  obtain ⟨ahead, size, behind, events⟩ := c
  have passes {ts : List Lexeme} : checkText ⟨ts, size, behind, events⟩ = .ok ((), ⟨ts, size, behind, events⟩) →
      (checkText ⟨ts, size, behind, events⟩ = .ok (u, d) ↔ d = ⟨ts, size, behind, events⟩) := by
    intro run
    rw [run]
    simp [eq_comm]
  cases ahead with
  | nil =>
    rw [passes rfl]
    simp
  | cons t rest =>
    obtain ⟨token, line⟩ := t
    cases token with
    | broken m =>
      have stops : checkText ⟨⟨.broken m, line⟩ :: rest, size, behind, events⟩ = .error (.malformed line m, events) := rfl
      rw [stops]
      simp [Token.IsBroken]
    | _ =>
      rw [passes rfl]
      simp [Token.IsBroken]

theorem advance_eq_ok {c d : Cursor} {u : Unit} :
    advance c = .ok (u, d) ↔ d = c.next ∧ d.Ready := by
  have run : advance c = checkText c.next := rfl
  rw [run, checkText_eq_ok]
  exact and_congr_right fun same => by rw [same]

namespace Offset.Mirrors

variable {o : Offset} {b b₁ b₂ : Bool}

theorem pure {a a' : α} (same : a' = shift o.lines a) : o.Mirrors b b (pure a) (pure a') := by
  intro c c' r d aligned run
  cases run
  exact ⟨c', by rw [same]; rfl, aligned⟩

theorem bind {p p' : Parser α} {f f' : α → Parser β} (first : o.Mirrors b b₁ p p')
    (next : ∀ a, o.Mirrors b₁ b₂ (f a) (f' (shift o.lines a))) :
    o.Mirrors b b₂ (p >>= f) (p' >>= f') := by
  intro c c' r e aligned run
  obtain ⟨a, d, run, rest⟩ := bind_eq_ok.mp run
  obtain ⟨d', run', aligned⟩ := first c c' a d aligned run
  obtain ⟨e', rest', aligned⟩ := next a d d' r e aligned rest
  exact ⟨e', bind_eq_ok.mpr ⟨_, d', run', rest'⟩, aligned⟩

/-- Nothing is asked of a parser where the first one fails. -/
theorem of_fails {p p' : Parser α} (fails : Fails p) : o.Mirrors b b₁ p p' := by
  intro c c' a d _ run
  obtain ⟨e, error⟩ := fails c
  rw [error] at run
  cases run

theorem stop {f : ParseFault} {p' : Parser α} : o.Mirrors b b₁ (stop f) p' :=
  of_fails fun _ => ⟨_, rfl⟩

theorem fail {message : String} {p' : Parser α} : o.Mirrors b b₁ (fail message) p' :=
  of_fails (fails_fail message)

theorem expected {what : String} {p' : Parser α} : o.Mirrors b b₁ (expected what) p' := fail

theorem current : o.Mirrors b b current current := by
  intro c c' t d aligned run
  cases run
  refine ⟨c', ?_, aligned⟩
  obtain ⟨ahead, ready, _, behind, more, _⟩ := aligned
  obtain ⟨ts, n, l, es⟩ := c
  obtain ⟨ts', n', l', es'⟩ := c'
  cases ahead with
  | nil =>
    cases b with
    | true =>
      obtain rfl := behind rfl
      rfl
    | false => exact absurd rfl (more rfl)
  | cons first _ =>
    obtain rfl := first.resolve_right fun broken => ready _ rfl broken.1
    rfl

theorem peek : o.Mirrors b b peek peek := bind current fun _ => pure rfl

/-- What follows depends on the current token. -/
theorem look {f f' : Token → Parser α} (next : ∀ t, o.Mirrors b b₁ (f t) (f' t)) :
    o.Mirrors b b₁ (Parser.peek >>= f) (Parser.peek >>= f') :=
  bind peek next

theorem line : o.Mirrors b b line line := bind current fun _ => pure rfl

theorem emit {e e' : ScopeEvent} (same : e' = shift o.lines e) : o.Mirrors b b (emit e) (emit e') := by
  refine bind current fun t => ?_
  intro c c' u d aligned run
  cases run
  obtain ⟨ahead, ready, size, behind, more, later, before, after⟩ := aligned
  refine ⟨_, rfl, ahead, ready, size, behind, more, (e, t) :: later, ?_, ?_⟩
  · simp [before]
  · simp [after, same, shift]

theorem advance : o.Mirrors b true advance advance := by
  intro c c' u d aligned run
  obtain ⟨rfl, ready⟩ := advance_eq_ok.mp run
  obtain ⟨ahead, sound, size, behind, more, events⟩ := aligned
  obtain ⟨ts, n, l, es⟩ := c
  obtain ⟨ts', n', l', es'⟩ := c'
  cases ahead with
  | nil =>
    have moved : b = true := by
      cases b with
      | true => rfl
      | false => exact absurd rfl (more rfl)
    exact ⟨_, advance_eq_ok.mpr ⟨rfl, ready⟩, .nil, ready, size, fun _ => behind moved, nofun, events⟩
  | @cons t t' rest rest' first others =>
    obtain rfl := first.resolve_right fun broken => sound t rfl broken.1
    have ready' : Cursor.Ready (.next ⟨shift o.lines t :: rest', n', l', es'⟩) := ready.below others
    exact ⟨_, advance_eq_ok.mpr ⟨rfl, ready'⟩, others, ready, size, fun _ => rfl, nofun, events⟩

/-- What follows depends on the place in the text. -/
theorem place {f f' : Cursor → Parser α}
    (next : ∀ c c', c.size ≤ c'.size → c'.behind = shift o.lines c.behind → o.Mirrors true b₁ (f c) (f' c')) :
    o.Mirrors true b₁ (get >>= f) (get >>= f') := by
  intro c c' r d aligned run
  exact next c c' aligned.size (aligned.behind rfl) c c' r d aligned run

theorem ite {P : Prop} [Decidable P] {p q p' q' : Parser α} (yes : P → o.Mirrors b b₁ p p')
    (no : ¬ P → o.Mirrors b b₁ q q') : o.Mirrors b b₁ (if P then p else q) (if P then p' else q') := by
  by_cases holds : P
  · rw [if_pos holds, if_pos holds]
    exact yes holds
  · rw [if_neg holds, if_neg holds]
    exact no holds

/-- What follows depends on whether a token was taken in. -/
theorem accept_bind (p : Token → Bool) {f f' : Bool → Parser α} (yes : o.Mirrors true b₁ (f true) (f' true))
    (no : o.Mirrors b b₁ (f false) (f' false)) :
    o.Mirrors b b₁ (accept p >>= f) (accept p >>= f') := by
  have looks (f : Bool → Parser α) :
      accept p >>= f = Parser.peek >>= fun t => if p t then Parser.advance >>= fun _ => f true else f false := by
    rw [accept, bind_assoc]
    congr 1
    funext t
    split <;> simp
  rw [looks, looks]
  exact look fun t => ite (fun _ => bind advance fun _ => yes) fun _ => no

theorem accept (p : Token → Bool) : o.Mirrors true true (accept p) (accept p) := by
  rw [← bind_pure (Parser.accept p)]
  exact accept_bind p (pure rfl) (pure rfl)

theorem mark (m : Mark) : o.Mirrors b true (mark m) (mark m) :=
  accept_bind _ (pure rfl) expected

theorem keyword (k : Keyword) : o.Mirrors b true (keyword k) (keyword k) :=
  accept_bind _ (pure rfl) expected

theorem close (closing opening : Token) (start start' : Nat) :
    o.Mirrors b true (close closing opening start) (close closing opening start') := by
  refine accept_bind _ (pure rfl) (of_fails (Fails.bind fun l => ?_))
  split
  · exact fails_fail _
  · exact fails_fail _

theorem name : o.Mirrors b true name name := by
  refine look fun t => ?_
  cases t with
  | name x => exact bind advance fun _ => pure rfl
  | _ => exact expected

/-- What follows depends on the name that is taken in. -/
theorem named {f f' : Name → Parser α} (next : ∀ x, o.Mirrors true b₁ (f x) (f' x)) :
    o.Mirrors b b₁ (Parser.name >>= f) (Parser.name >>= f') :=
  bind name next

theorem loop {step step' : Parser (Option α)} (steps : o.Mirrors true true step step') {n n' : Nat}
    (enough : n ≤ n') (done : List α) :
    o.Mirrors true true (loop step n done) (loop step' n' (shift o.lines done)) := by
  induction n generalizing n' done with
  | zero => exact fail
  | succ n ih =>
    obtain ⟨m, rfl⟩ := Nat.exists_eq_add_one_of_ne_zero (by omega : n' ≠ 0)
    refine bind steps fun a => ?_
    cases a with
    | none => exact pure (shift_reverse o.lines done).symm
    | some a => exact ih (by omega) (a :: done)

theorem many {step step' : Parser (Option α)} (steps : o.Mirrors true true step step') :
    o.Mirrors true true (many step) (many step') :=
  place fun _ _ enough _ => loop steps enough []

theorem chain {step step' : α → Parser (Option α)}
    (steps : ∀ a, o.Mirrors true true (step a) (step' (shift o.lines a))) {n n' : Nat} (enough : n ≤ n')
    (a : α) : o.Mirrors true true (chain step n a) (chain step' n' (shift o.lines a)) := by
  induction n generalizing n' a with
  | zero => exact fail
  | succ n ih =>
    obtain ⟨m, rfl⟩ := Nat.exists_eq_add_one_of_ne_zero (by omega : n' ≠ 0)
    refine bind (steps a) fun r => ?_
    cases r with
    | none => exact pure rfl
    | some a => exact ih (by omega) a

theorem follow {step step' : α → Parser (Option α)} {a a' : α} (same : a' = shift o.lines a)
    (steps : ∀ a, o.Mirrors true true (step a) (step' (shift o.lines a))) :
    o.Mirrors true true (follow a step) (follow a' step') := by
  subst same
  exact place fun _ _ enough _ => chain steps enough a

theorem forM {step step' : α → Parser Unit} (steps : ∀ a, o.Mirrors b b (step a) (step' (shift o.lines a)))
    (as : List α) : o.Mirrors b b (as.forM step) ((shift o.lines as).forM step') := by
  induction as with
  | nil => exact pure rfl
  | cons a as ih => exact bind (steps a) fun _ => ih

theorem commaList {item item' : Parser α} (items : o.Mirrors true true item item') :
    o.Mirrors true true (commaList item) (commaList item') := by
  refine bind items fun first => bind (many ?_) fun rest => pure rfl
  exact accept_bind _ (bind items fun _ => pure rfl) (pure rfl)

theorem reserve (x : Name) : o.Mirrors b b (reserve x) (reserve x) := emit rfl

theorem reserveHidden (n : Nat) : o.Mirrors b b (reserveHidden n) (reserveHidden n) := by
  induction n with
  | zero => exact pure rfl
  | succ n ih => exact bind (reserve _) fun _ => ih

theorem enclosed (loop : Bool) {p p' : Parser α} (inner : o.Mirrors true true p p') :
    o.Mirrors true true (enclosed loop p) (enclosed loop p') :=
  bind (emit rfl) fun _ => bind inner fun _ => bind (emit rfl) fun _ => pure rfl

end Offset.Mirrors

end Parser

end ScriptTools.Guest
