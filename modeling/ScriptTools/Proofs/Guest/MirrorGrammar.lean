import ScriptTools.Proofs.Guest.Mirror

/-!
The grammar reads the same syntax some lines further down: one lemma for each rule, and by induction on the
levels, for the grammar as a whole.
-/

namespace ScriptTools.Guest.Parser

open Offset (Mirrors)

/-- The nested parts read the same further down. A statement may be the first of its text. -/
structure Grammar.Mirrors (o : Offset) (g : Grammar) : Prop where
  statement : ∀ b, o.Mirrors b true g.statement g.statement
  expr : ∀ limit, o.Mirrors true true (g.expr limit) (g.expr limit)

namespace Grammar.Mirrors

variable {o : Offset} {g : Grammar} (nested : g.Mirrors o)
include nested

theorem exprs : o.Mirrors true true g.exprs g.exprs := .commaList (nested.expr 0)

theorem statementsFrom {n n' : Nat} (enough : n ≤ n') (done : List Stat) :
    o.Mirrors true true (g.statementsFrom n done) (g.statementsFrom n' (shift o.lines done)) := by
  induction n generalizing n' done with
  | zero => exact .fail
  | succ n ih =>
    obtain ⟨m, rfl⟩ := Nat.exists_eq_add_one_of_ne_zero (by omega : n' ≠ 0)
    refine .look fun t => .ite (fun _ => .pure (shift_reverse _ _).symm) fun _ => ?_
    refine .bind (nested.statement true) fun part => ?_
    have same : (shift o.lines part).reverse ++ shift o.lines done = shift o.lines (part.reverse ++ done) := by
      rw [shift_append, shift_reverse]
    simp only [same]
    exact .ite (fun _ => .pure (shift_reverse _ _).symm) fun _ => ih (by omega) _

theorem statements : o.Mirrors true true g.statements g.statements :=
  .place fun _ _ enough _ => nested.statementsFrom enough []

theorem block : o.Mirrors true true g.block g.block := .enclosed false nested.statements

omit nested in
theorem parameter : o.Mirrors true true parameter parameter := by
  refine .look fun t => ?_
  cases t with
  | name x => exact .bind .advance fun _ => .bind (.reserve x) fun _ => .pure rfl
  | mark m =>
    cases m with
    | ellipsis => exact .bind .advance fun _ => .bind (.emit rfl) fun _ => .pure rfl
    | _ => exact .expected
  | _ => exact .expected

omit nested in
theorem parameters : o.Mirrors true true parameters parameters := by
  refine .look fun t => .ite (fun _ => .pure rfl) fun _ => .bind parameter fun first => ?_
  refine .follow (by cases first <;> rfl) fun r => .ite (fun _ => .pure rfl) fun _ => ?_
  exact .accept_bind _ (.bind parameter fun p => .pure (by cases p <;> rfl)) (.pure rfl)

theorem functionBody (method : Bool) (start : Nat) :
    o.Mirrors true true (g.functionBody method start) (g.functionBody method (shift o.lines start)) := by
  refine .bind (.emit rfl) fun _ => .bind (.mark .openParen) fun _ => ?_
  refine Offset.Mirrors.ite (fun _ => .bind (.reserve _) fun _ => .bind (.emit rfl) fun _ => ?_) (fun _ => ?_)
  all_goals
    refine .bind parameters fun r => .bind (.emit rfl) fun _ => .bind (.mark _) fun _ => ?_
    refine .bind nested.statements fun body => .bind (.close _ _ _ _) fun _ => .bind (.emit rfl) fun _ => ?_
    refine .pure ?_
    change Expr.function _ _ _ = Expr.shift o.lines (.function _ _ _)
    rw [Expr.shift, shift_stats]
    simp only [shift_names]
    rfl

theorem field : o.Mirrors true true g.field g.field := by
  have item : o.Mirrors true true (do return Field.item (← g.expr 0)) (do return Field.item (← g.expr 0)) :=
    .bind (nested.expr 0) fun _ => .pure rfl
  have pair (x : Name) : o.Mirrors true true
      (do advance; advance; return Field.pair (.string x) (← g.expr 0))
      (do advance; advance; return Field.pair (.string x) (← g.expr 0)) :=
    .bind .advance fun _ => .bind .advance fun _ => .bind (nested.expr 0) fun _ => .pure rfl
  have indexed : o.Mirrors true true
      (do
        advance
        let key ← g.expr 0
        mark .closeBracket
        mark .assign
        return Field.pair key (← g.expr 0))
      (do
        advance
        let key ← g.expr 0
        mark .closeBracket
        mark .assign
        return Field.pair key (← g.expr 0)) :=
    .bind .advance fun _ => .bind (nested.expr 0) fun _ => .bind (.mark _) fun _ => .bind (.mark _) fun _ =>
      .bind (nested.expr 0) fun _ => .pure rfl
  intro c c' r d aligned run
  obtain ⟨ts, n, l, es⟩ := c
  obtain ⟨ts', n', l', es'⟩ := c'
  have ready := aligned.ready
  -- The branch is chosen by two tokens, and the second one may be where the text breaks off.
  cases aligned.ahead with
  | nil => exact item _ _ r d aligned run
  | @cons t t' rest rest' first others =>
    obtain rfl := first.resolve_right fun broken => ready t rfl broken.1
    obtain ⟨token, at_⟩ := t
    cases token with
    | name x =>
      cases others with
      | nil => exact item _ _ r d aligned run
      | @cons u u' _ _ second _ =>
        obtain ⟨token, _⟩ := u
        rcases second with rfl | ⟨⟨m, broken⟩, m', broken'⟩
        · cases token with
          | mark m =>
            cases m with
            | assign => exact pair x _ _ r d aligned run
            | _ => exact item _ _ r d aligned run
          | _ => exact item _ _ r d aligned run
        · obtain ⟨token', _⟩ := u'
          cases broken
          cases broken'
          exact item _ _ r d aligned run
    | mark m =>
      cases m with
      | openBracket => exact indexed _ _ r d aligned run
      | _ => exact item _ _ r d aligned run
    | _ => exact item _ _ r d aligned run

theorem fields : o.Mirrors true true g.fields g.fields := by
  refine .bind (.follow rfl (fun a => ?_)) fun r => .pure (shift_reverse _ _).symm
  refine .look fun t => .ite (fun _ => .pure rfl) fun _ => ?_
  exact .bind nested.field fun f => .bind (.accept _) fun more => .pure rfl

theorem table : o.Mirrors true true g.table g.table := by
  refine .bind .line fun start => .bind (.mark .openBrace) fun _ => .bind nested.fields fun fs => ?_
  refine .bind .line fun line => .bind (.close _ _ _ _) fun _ => .pure ?_
  change Expr.table _ _ = Expr.shift o.lines (.table _ _)
  rw [Expr.shift, shift_fields]
  rfl

theorem arguments : o.Mirrors true true g.arguments g.arguments := by
  refine .look fun t => ?_
  cases t with
  | string s form => exact .bind .advance fun _ => .pure rfl
  | mark m =>
    cases m with
    | openBrace => exact .bind nested.table fun _ => .pure rfl
    | openParen =>
      refine .bind .line fun start => .bind .advance fun _ => .accept_bind _ (.pure rfl) ?_
      exact .bind nested.exprs fun args => .bind (.close _ _ _ _) fun _ => .pure rfl
    | _ => exact .expected
  | _ => exact .expected

omit nested in
theorem dotField (object : Expr) :
    o.Mirrors true true (dotField object) (dotField (shift o.lines object)) :=
  .bind .advance fun _ => .bind .line fun _ => .named fun _ => .pure rfl

theorem suffix (e : Expr) : o.Mirrors true true (g.suffix e) (g.suffix (shift o.lines e)) := by
  have call : o.Mirrors true true
      (do let line ← line; return some (Expr.call e (← g.arguments) line))
      (do let line ← line; return some (Expr.call (shift o.lines e) (← g.arguments) line)) := by
    refine .bind .line fun line => .bind nested.arguments fun args => .pure ?_
    change some (Expr.call _ _ _) = some (Expr.shift o.lines (.call _ _ _))
    rw [shift_call]
  refine .look fun t => ?_
  cases t with
  | string s form => exact call
  | mark m =>
    cases m with
    | dot => exact .bind (dotField e) fun _ => .pure rfl
    | openBracket =>
      exact .bind .advance fun _ => .bind .line fun _ => .bind (nested.expr 0) fun _ =>
        .bind (.mark _) fun _ => .pure rfl
    | colon =>
      refine .bind .advance fun _ => .named fun x => .bind .line fun line => ?_
      refine .bind nested.arguments fun args => .pure ?_
      change some (Expr.method _ _ _ _) = some (Expr.shift o.lines (.method _ _ _ _))
      rw [Expr.shift, shift_exprs]
      rfl
    | openParen => exact call
    | openBrace => exact call
    | _ => exact .pure rfl
  | _ => exact .pure rfl

theorem primary (b : Bool) : o.Mirrors b true g.primary g.primary := by
  refine .bind .line fun line => .look fun t => ?_
  cases t with
  | name x => exact .bind .advance fun _ => .pure rfl
  | mark m =>
    cases m with
    | openParen =>
      exact .bind .advance fun _ => .bind (nested.expr 0) fun _ => .bind (.close _ _ _ _) fun _ => .pure rfl
    | _ => exact .fail
  | _ => exact .fail

theorem suffixed (b : Bool) : o.Mirrors b true g.suffixed g.suffixed :=
  .bind (nested.primary b) fun _ => .follow rfl fun e => nested.suffix e

theorem simple : o.Mirrors true true g.simple g.simple := by
  refine .look fun t => ?_
  cases t with
  | number n text => exact .bind .advance fun _ => .pure rfl
  | string s form => exact .bind .advance fun _ => .pure rfl
  | keyword k =>
    cases k with
    | nil_ => exact .bind .advance fun _ => .pure rfl
    | true_ => exact .bind .advance fun _ => .pure rfl
    | false_ => exact .bind .advance fun _ => .pure rfl
    | function_ => exact .bind .advance fun _ => .bind .line fun start => nested.functionBody false start
    | _ => exact nested.suffixed true
  | mark m =>
    cases m with
    | ellipsis => exact .bind (.emit rfl) fun _ => .bind .advance fun _ => .pure rfl
    | openBrace => exact nested.table
    | _ => exact nested.suffixed true
  | _ => exact nested.suffixed true

theorem operand : o.Mirrors true true g.operand g.operand := by
  refine .look fun t => ?_
  cases unaryOp? t with
  | none => exact nested.simple
  | some op => exact .bind .line fun _ => .bind .advance fun _ => .bind (nested.expr _) fun _ => .pure rfl

omit nested in
theorem operatorLine_shift (k : Nat) (op : BinaryOp) (right : Expr) (line : Nat) :
    operatorLine op (shift k right) (shift k line) = shift k (operatorLine op right line) := by
  cases op with
  | concat =>
    cases right with
    | binary op => cases op <;> rfl
    | _ => rfl
  | _ => rfl

theorem operators (limit : Nat) (left : Expr) :
    o.Mirrors true true (g.operators limit left) (g.operators limit (shift o.lines left)) := by
  refine .look fun t => ?_
  cases binaryOp? t with
  | none => exact .pure rfl
  | some op =>
    refine .ite (fun _ => ?_) fun _ => .pure rfl
    refine .bind .line fun line => .bind .advance fun _ => .bind (nested.expr _) fun right => .pure ?_
    rw [operatorLine_shift]
    rfl

theorem exprAbove (limit : Nat) : o.Mirrors true true (g.exprAbove limit) (g.exprAbove limit) :=
  .bind nested.operand fun _ => .follow rfl fun e => nested.operators limit e

/-! Statements -/

theorem branches (start : Nat) {n n' : Nat} (enough : n ≤ n') :
    o.Mirrors true true (g.branches start n) (g.branches (shift o.lines start) n') := by
  induction n generalizing n' with
  | zero => exact .fail
  | succ n ih =>
    obtain ⟨m, rfl⟩ := Nat.exists_eq_add_one_of_ne_zero (by omega : n' ≠ 0)
    refine .bind (nested.expr 0) fun condition => .bind (.keyword _) fun _ => .bind nested.block fun yes => ?_
    have alone : o.Mirrors true true
        (do endOf .if_ start; return Stat.branch condition yes [])
        (do endOf .if_ (shift o.lines start)
            return Stat.branch (shift o.lines condition) (shift o.lines yes) []) := by
      refine .bind (.close _ _ _ _) fun _ => .pure ?_
      change Stat.branch _ _ _ = Stat.shift o.lines (.branch _ _ _)
      rw [shift_branch]
      rfl
    refine .look fun t => ?_
    cases t with
    | keyword k =>
      cases k with
      | elseif_ =>
        refine .bind .advance fun _ => .bind (ih (by omega)) fun no => .pure ?_
        change Stat.branch _ _ _ = Stat.shift o.lines (.branch _ _ _)
        rw [shift_branch]
        rfl
      | else_ =>
        refine .bind .advance fun _ => .bind nested.block fun no => .bind (.close _ _ _ _) fun _ => .pure ?_
        change Stat.branch _ _ _ = Stat.shift o.lines (.branch _ _ _)
        rw [shift_branch]
      | _ => exact alone
    | _ => exact alone

theorem whileLoop (start : Nat) :
    o.Mirrors true true (g.whileLoop start) (g.whileLoop (shift o.lines start)) := by
  refine .bind (nested.expr 0) fun condition => .bind (.emit rfl) fun _ => .bind (.keyword _) fun _ => ?_
  refine .bind nested.block fun body => .bind (.close _ _ _ _) fun _ => .bind (.emit rfl) fun _ => .pure ?_
  change Stat.while _ _ = Stat.shift o.lines (.while _ _)
  rw [Stat.shift, shift_stats]
  rfl

theorem repeatLoop (start : Nat) :
    o.Mirrors true true (g.repeatLoop start) (g.repeatLoop (shift o.lines start)) := by
  refine .enclosed true (.enclosed false (.bind nested.statements fun body => ?_))
  refine .bind (.close _ _ _ _) fun _ => .bind (nested.expr 0) fun condition => .pure ?_
  change Stat.repeat _ _ = Stat.shift o.lines (.repeat _ _)
  rw [Stat.shift, shift_stats]
  rfl

theorem loopBody : o.Mirrors true true g.loopBody g.loopBody :=
  .bind .line fun _ => .bind (.keyword _) fun _ => .bind (.emit rfl) fun _ => .bind (.emit rfl) fun _ =>
    .bind nested.block fun _ => .bind (.emit rfl) fun _ => .pure rfl

theorem countLoop (x : Name) : o.Mirrors true true (g.countLoop x) (g.countLoop x) := by
  refine .bind (.reserveHidden 3) fun _ => .bind (.reserve x) fun _ => .bind (.mark _) fun _ => ?_
  refine .bind (nested.expr 0) fun first => .bind (.mark _) fun _ => .bind (nested.expr 0) fun last => ?_
  have same (step : Expr) (r : Block × Nat) :
      Stat.count x (shift o.lines first) (shift o.lines last) (shift o.lines step) (shift o.lines r).1
        (shift o.lines r).2 = shift o.lines (Stat.count x first last step r.1 r.2) := by
    change _ = Stat.shift o.lines (.count _ _ _ _ _ _)
    rw [Stat.shift, shift_stats]
    rfl
  refine .accept_bind _ (.bind (nested.expr 0) fun step => ?_) (.bind (.pure rfl) fun step => ?_)
  · exact .bind nested.loopBody fun r => .pure (same step r)
  · exact .bind nested.loopBody fun r => .pure (same step r)

theorem eachLoop (x : Name) : o.Mirrors true true (g.eachLoop x) (g.eachLoop x) := by
  refine .bind (.reserveHidden 4) fun _ => .bind (.reserve x) fun _ => .bind (.many ?_) fun more => ?_
  · exact .accept_bind _ (.named fun y => .bind (.reserve y) fun _ => .pure rfl) (.pure rfl)
  · refine .bind (.keyword _) fun _ => .bind .line fun line => .bind nested.exprs fun values => ?_
    refine .bind nested.loopBody fun r => .pure ?_
    change Stat.each _ _ _ _ = Stat.shift o.lines (.each _ _ _ _)
    rw [Stat.shift, shift_stats, shift_exprs]
    simp only [shift_names]
    rfl

theorem forLoop (start : Nat) :
    o.Mirrors true true (g.forLoop start) (g.forLoop (shift o.lines start)) := by
  refine .enclosed true (.named fun x => .look fun t => ?_)
  have ended {p : Parser Stat} (loop : o.Mirrors true true p p) : o.Mirrors true true
      (do let loop ← p; endOf .for_ start; return loop)
      (do let loop ← p; endOf .for_ (shift o.lines start); return loop) :=
    .bind loop fun _ => .bind (.close _ _ _ _) fun _ => .pure rfl
  cases t with
  | mark m =>
    cases m with
    | assign => exact ended (nested.countLoop x)
    | comma => exact ended (nested.eachLoop x)
    | _ => exact ended .expected
  | keyword k =>
    cases k with
    | in_ => exact ended (nested.eachLoop x)
    | _ => exact ended .expected
  | _ => exact ended .expected

omit nested in
theorem functionName : o.Mirrors true true functionName functionName := by
  refine .bind .line fun line => .named fun x => .bind (.follow rfl fun e => ?_) fun target => ?_
  · exact .look fun t => .ite (fun _ => .bind (dotField e) fun _ => .pure rfl) fun _ => .pure rfl
  · exact .look fun t => .ite (fun _ => .bind (dotField target) fun _ => .pure rfl) fun _ => .pure rfl

omit nested in
theorem emitAssign (target : Expr) (b : Bool) :
    o.Mirrors b b (emitAssign target) (emitAssign (shift o.lines target)) := by
  cases target with
  | name x line => exact .emit rfl
  | _ => exact .pure rfl

theorem functionStatement (line : Nat) :
    o.Mirrors true true (g.functionStatement line) (g.functionStatement (shift o.lines line)) :=
  .bind functionName fun r => .bind (nested.functionBody r.2 line) fun _ =>
    .bind (emitAssign r.1 true) fun _ => .pure rfl

theorem localFunction : o.Mirrors true true g.localFunction g.localFunction := by
  refine .named fun x => .bind (.reserve x) fun _ => .bind (.emit rfl) fun _ => .bind .line fun start => ?_
  refine .bind (nested.functionBody false start) fun f => ?_
  cases f with
  | function params dots body => exact .pure rfl
  | _ => exact .fail

omit nested in
theorem readAttribute : o.Mirrors true true readAttribute readAttribute := by
  refine .accept_bind _ ?_ (.pure rfl)
  have same (x : Name) (a : Attribute) :
      (if a == .plain then ScopeEvent.badAttribute x else .mark a) =
        shift o.lines (if a == .plain then ScopeEvent.badAttribute x else .mark a) := by
    cases a <;> rfl
  exact .named fun x => .bind (.mark _) fun _ => .bind (.emit (same x _)) fun _ => .pure rfl

theorem localNames : o.Mirrors true true g.localNames g.localNames := by
  refine .bind (.commaList ?_) fun names => ?_
  · exact .named fun x => .bind (.reserve x) fun _ => .bind readAttribute fun a => .pure rfl
  · have declared (values : List Expr) : o.Mirrors true true
        (do emit .activate; return Stat.declare names values (← get).behind)
        (do emit .activate; return Stat.declare names (shift o.lines values) (← get).behind) := by
      refine .bind (.emit rfl) fun _ => .place fun c c' _ same => .pure ?_
      rw [same]
      change Stat.declare _ _ _ = Stat.shift o.lines (.declare _ _ _)
      rw [Stat.shift, shift_exprs]
      rfl
    have same : shift o.lines names = names := List.map_id names
    rw [same]
    exact .accept_bind _ (.bind nested.exprs fun values => declared values) (declared [])

omit nested in
theorem target (e : Expr) : o.Mirrors true true (target e) (target (shift o.lines e)) := by
  have same : isTarget (shift o.lines e) = isTarget e := by cases e <;> rfl
  rw [Grammar.target, Grammar.target, same]
  exact .ite (fun _ => emitAssign e true) fun _ => .fail

theorem assignment (first : Expr) :
    o.Mirrors true true (g.assignment first) (g.assignment (shift o.lines first)) := by
  refine .bind (target first) fun _ => .bind (.many ?_) fun more => ?_
  · refine .accept_bind _ ?_ (.pure rfl)
    exact .bind (nested.suffixed true) fun e => .bind (target e) fun _ => .pure rfl
  · refine .bind (.mark _) fun _ => .bind nested.exprs fun values => .place fun c c' _ same => .pure ?_
    rw [same]
    change Stat.assign _ _ _ = Stat.shift o.lines (.assign _ _ _)
    rw [Stat.shift, shift_exprs, shift_exprs]
    rfl

theorem expressionStatement (b : Bool) : o.Mirrors b true g.expressionStatement g.expressionStatement := by
  refine .bind (nested.suffixed b) fun e => .look fun t => .ite (fun _ => nested.assignment e) fun _ => ?_
  cases e with
  | call => exact .pure rfl
  | method => exact .pure rfl
  | _ => exact .fail

omit nested in
theorem label (b : Bool) : o.Mirrors b true label label :=
  .bind .line fun _ => .bind (.mark _) fun _ => .named fun _ => .bind (.mark _) fun _ => .pure rfl

omit nested in
theorem labels (b : Bool) : o.Mirrors b true labels labels := by
  refine .bind (label b) fun first => .bind (.many ?_) fun more => ?_
  · refine .accept_bind _ (.pure rfl) (.look fun t => .ite (fun _ => ?_) fun _ => .pure rfl)
    exact .bind (label true) fun _ => .pure rfl
  · have all : shift o.lines first :: (shift o.lines more).filterMap (fun x => x) =
        shift o.lines (first :: more.filterMap fun x => x) :=
      congrArg (shift o.lines first :: ·) (shift_filterMap o.lines more)
    rw [all]
    generalize first :: more.filterMap (fun x => x) = all
    refine .look fun t => ?_
    dsimp only
    rw [← shift_reverse]
    refine .bind (.forM ?_ _) fun _ => .pure ?_
    · exact fun x => .emit rfl
    · simp only [shift, List.map_map]
      rfl

theorem returnStatement : o.Mirrors true true g.returnStatement g.returnStatement := by
  have ended (values : List Expr) : o.Mirrors true true
      (do let _ ← accept (isMark .semicolon); return Stat.return values)
      (do let _ ← accept (isMark .semicolon); return Stat.return (shift o.lines values)) := by
    refine .bind (.accept _) fun _ => .pure ?_
    change Stat.return _ = Stat.shift o.lines (.return _)
    rw [Stat.shift, shift_exprs]
  refine .look fun t => ?_
  exact .ite (fun _ => ended []) fun _ => .bind nested.exprs fun values => ended values

theorem oneStatement (b : Bool) : o.Mirrors b true g.oneStatement g.oneStatement := by
  refine .bind .line fun line => .look fun t => ?_
  have expression : o.Mirrors b true (do return [← g.expressionStatement]) (do return [← g.expressionStatement]) :=
    .bind (nested.expressionStatement b) fun _ => .pure rfl
  cases t with
  | mark m =>
    cases m with
    | semicolon => exact .bind .advance fun _ => .pure rfl
    | doubleColon => exact labels b
    | _ => exact expression
  | keyword k =>
    cases k with
    | if_ =>
      exact .bind .advance fun _ => .place fun _ _ enough _ => .bind (nested.branches line enough) fun _ => .pure rfl
    | while_ => exact .bind .advance fun _ => .bind (nested.whileLoop line) fun _ => .pure rfl
    | do_ =>
      refine .bind .advance fun _ => .bind nested.block fun body => .bind (.close _ _ _ _) fun _ => .pure ?_
      change [Stat.block _] = [Stat.shift o.lines (.block _)]
      rw [Stat.shift, shift_stats]
    | for_ => exact .bind .advance fun _ => .bind (nested.forLoop line) fun _ => .pure rfl
    | repeat_ => exact .bind .advance fun _ => .bind (nested.repeatLoop line) fun _ => .pure rfl
    | function_ => exact .bind .advance fun _ => .bind (nested.functionStatement line) fun _ => .pure rfl
    | local_ =>
      refine .bind .advance fun _ => .accept_bind _ ?_ ?_
      · exact .bind nested.localFunction fun _ => .pure rfl
      · exact .bind nested.localNames fun _ => .pure rfl
    | return_ => exact .bind .advance fun _ => .bind nested.returnStatement fun _ => .pure rfl
    | break_ => exact .bind .advance fun _ => .bind (.emit rfl) fun _ => .pure rfl
    | goto_ =>
      exact .bind .advance fun _ => .bind .line fun l => .named fun x => .bind (.emit rfl) fun _ => .pure rfl
    | _ => exact expression
  | _ => exact expression

end Grammar.Mirrors

/-- Every level of the grammar reads the same further down. -/
theorem grammar_mirrors (o : Offset) (n : Nat) : (grammar n).Mirrors o := by
  induction n with
  | zero => exact ⟨fun _ => .stop, fun _ => .stop⟩
  | succ n ih => exact ⟨fun b => ih.oneStatement b, fun limit => ih.exprAbove limit⟩

end ScriptTools.Guest.Parser
