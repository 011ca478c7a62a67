import ScriptTools.Guest.Scope

/-!
Syntax and reports of a text that starts some lines further down: the same, but for the lines.
-/

namespace ScriptTools.Guest

mutual

/-- An expression `k` lines further down. -/
def Expr.shift (k : Nat) : Expr → Expr
  | .nil => .nil
  | .bool b => .bool b
  | .number n => .number n
  | .string s => .string s
  | .varargs => .varargs
  | .function params dots body => .function params dots (Stat.shiftAll k body)
  | .name x line => .name x (line + k)
  | .index object key line => .index (object.shift k) (key.shift k) (line + k)
  | .call callee args line => .call (callee.shift k) (Expr.shiftAll k args) (line + k)
  | .method object name args line =>
    .method (object.shift k) name (Expr.shiftAll k args) (line + k)
  | .unary op operand line => .unary op (operand.shift k) (line + k)
  | .binary op left right line => .binary op (left.shift k) (right.shift k) (line + k)
  | .paren inner => .paren (inner.shift k)
  | .table fields line => .table (Field.shiftAll k fields) (line + k)

def Expr.shiftAll (k : Nat) : List Expr → List Expr
  | [] => []
  | e :: es => e.shift k :: Expr.shiftAll k es

def Field.shift (k : Nat) : Field → Field
  | .item value => .item (value.shift k)
  | .pair key value => .pair (key.shift k) (value.shift k)

def Field.shiftAll (k : Nat) : List Field → List Field
  | [] => []
  | f :: fs => f.shift k :: Field.shiftAll k fs

/-- A statement `k` lines further down. -/
def Stat.shift (k : Nat) : Stat → Stat
  | .declare names values line => .declare names (Expr.shiftAll k values) (line + k)
  | .assign targets values line =>
    .assign (Expr.shiftAll k targets) (Expr.shiftAll k values) (line + k)
  | .call e => .call (e.shift k)
  | .block body => .block (Stat.shiftAll k body)
  | .while condition body => .while (condition.shift k) (Stat.shiftAll k body)
  | .repeat body condition => .repeat (Stat.shiftAll k body) (condition.shift k)
  | .branch condition yes no =>
    .branch (condition.shift k) (Stat.shiftAll k yes) (Stat.shiftAll k no)
  | .count x first last step body line =>
    .count x (first.shift k) (last.shift k) (step.shift k) (Stat.shiftAll k body) (line + k)
  | .each names values body line =>
    .each names (Expr.shiftAll k values) (Stat.shiftAll k body) (line + k)
  | .localFunction x params dots body => .localFunction x params dots (Stat.shiftAll k body)
  | .return values => .return (Expr.shiftAll k values)
  | .break => .break
  | .goto label => .goto label
  | .label label => .label label

def Stat.shiftAll (k : Nat) : List Stat → List Stat
  | [] => []
  | s :: ss => s.shift k :: Stat.shiftAll k ss

end

theorem Expr.shiftAll_eq_map (k : Nat) (es : List Expr) : Expr.shiftAll k es = es.map (Expr.shift k) := by
  induction es with
  | nil => rw [Expr.shiftAll, List.map_nil]
  | cons e es ih => rw [Expr.shiftAll, List.map_cons, ih]

theorem Field.shiftAll_eq_map (k : Nat) (fs : List Field) :
    Field.shiftAll k fs = fs.map (Field.shift k) := by
  induction fs with
  | nil => rw [Field.shiftAll, List.map_nil]
  | cons f fs ih => rw [Field.shiftAll, List.map_cons, ih]

theorem Stat.shiftAll_eq_map (k : Nat) (ss : List Stat) : Stat.shiftAll k ss = ss.map (Stat.shift k) := by
  induction ss with
  | nil => rw [Stat.shiftAll, List.map_nil]
  | cons s ss ih => rw [Stat.shiftAll, List.map_cons, ih]

/-- What is reported `k` lines further down. -/
def ScopeEvent.shift (k : Nat) : ScopeEvent → ScopeEvent
  | .openFunction line => .openFunction (line.map (· + k))
  | .label x last line => .label x last (line + k)
  | .goto x line => .goto x (line + k)
  | .break line => .break (line + k)
  | e => e

def Lexeme.shift (k : Nat) (t : Lexeme) : Lexeme := ⟨t.token, t.line + k⟩

end ScriptTools.Guest
