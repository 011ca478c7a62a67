import ScriptTools.Proofs.Guest.Declarations
import ScriptTools.Proofs.Guest.Run

/-!
What a script gives that declares variables with literals and returns one of them: the value of its literal,
however many others there are.
-/

namespace ScriptTools.Guest

/-- The value that a literal stands for. -/
def Literal.value : Literal → Value
  | nil => .nil
  | bool b => .bool b
  | string s => .string s
  | number negative n _ => .number (if negative then negateNumber n else n)
  | smallest => .int Int64.minValue

variable {World : Type}

theorem Literal.isSingle_expr (l : Literal) (line : Nat) : (l.expr line).isSingle = true := by
  cases l with
  | number negative => cases negative <;> rfl
  | _ => rfl

/-- Literals have their value in every state. -/
theorem evalExpr_literal (env : Env) (l : Literal) (line : Nat) (s : State World) :
    evalExpr env (l.expr line) s = .done l.value s := by
  cases l with
  | number negative n text => cases negative <;> rfl
  | _ => rfl

theorem evalExprs_literal (env : Env) (l : Literal) (line : Nat) (s : State World) :
    evalExprs env [l.expr line] s = .done [l.value] s := by
  rw [evalExprs_cons (l.isSingle_expr line), Eval.bind_of_done (evalExpr_literal env l line s)]
  rfl

/-- A variable of a place stands for a cell that holds a value. -/
def Env.Shows (env : Env) (s : State World) (x : Name) (v : Value) : Prop :=
  ∃ id outer place, env.resolve x = .cell id outer place ∧ s.cells[id]? = some v

/-- Which table the global variables are in does not matter to a variable that has a cell. -/
theorem resolveIn_cell {x : Name} {outer : Bool} {environment : Option Nat} {vs : List Variable} {id : Nat}
    {o place : Bool} (found : resolveIn x outer environment vs = .cell id o place) (other : Option Nat) :
    resolveIn x outer other vs = .cell id o place := by
  induction vs generalizing outer environment other with
  | nil => cases found
  | cons v vs ih =>
    cases v with
    | border => exact ih found other
    | cell y id' place' =>
      unfold resolveIn at found ⊢
      by_cases same : (x == y) = true
      · rw [if_pos same] at found ⊢
        exact found
      · rw [if_neg same] at found ⊢
        cases environment <;> cases other <;> exact ih found _

/-- The state after a variable has got its cell. -/
def State.extend (s : State World) (v : Value) : State World := { s with cells := s.cells.push v }

theorem State.follows_extend (s : State World) (v : Value) : (s.extend v).Follows s :=
  ⟨rfl, fun quiet => { quiet with }, fun unlimited => { unlimited with }⟩

namespace Env.Shows

variable {env : Env} {s : State World} {x y : Name} {v w : Value}

theorem latest (env : Env) (s : State World) (x : Name) (v : Value) :
    (env.bind x s.cells.size).Shows (s.extend v) x v := by
  refine ⟨s.cells.size, false, true, ?_, Array.getElem?_push_size⟩
  rw [Env.resolve, Env.bind, resolveIn, if_pos (beq_self_eq_true x)]

/-- A variable of another name hides nothing. -/
theorem later (shows_ : env.Shows s x v) (other : y ≠ x) :
    (env.bind y s.cells.size).Shows (s.extend w) x v := by
  obtain ⟨id, outer, place, found, holds⟩ := shows_
  refine ⟨id, outer, place, ?_, ?_⟩
  · rw [Env.resolve, Env.bind, resolveIn, if_neg fun same => other (beq_iff_eq.mp same).symm]
    exact resolveIn_cell found _
  · obtain ⟨inside, _⟩ := Array.getElem?_eq_some_iff.mp holds
    rw [State.extend, Array.getElem?_push_lt inside, ← holds, Array.getElem?_eq_getElem inside]

theorem evalExpr (shows_ : env.Shows s x v) (line : Nat) : evalExpr env (.name x line) s = .done v s := by
  obtain ⟨id, outer, place, found, holds⟩ := shows_
  rw [Guest.evalExpr, Eval.readName, found]
  exact congrArg (fun v => Progress.done (v.getD .nil) s) holds

end Env.Shows

theorem declareAll_single (constant : Bool) (x : Name) (v : Value) (env : Env) (s : State World) :
    Eval.declareAll constant [(x, .plain)] [v] env s = .done (env.bind x s.cells.size) (s.extend v) := by
  cases constant <;> rfl

theorem evalStat_declare (env : Env) (x : Name) (l : Literal) (line : Nat) (s : State World) :
    evalStat env (.declare [(x, .plain)] [l.expr line] line) s =
      .done (.next (env.bind x s.cells.size)) (s.extend l.value) := by
  rw [evalStat, Eval.bind_of_done (evalExprs_literal env l line s),
    Eval.bind_of_done (declareAll_single _ x l.value env s)]
  rfl

theorem evalStats_declare (env : Env) (x : Name) (l : Literal) (line : Nat) (rest : Block) (s : State World) :
    evalStats env (.declare [(x, .plain)] [l.expr line] line :: rest) s =
      evalStats (env.bind x s.cells.size) rest (s.extend l.value) := by
  rw [evalStats, Eval.bind_of_done (evalStat_declare env x l line s)]
  rfl

variable {env : Env} {s : State World} {x : Name} {v : Value}

theorem evalStats_return (shows_ : env.Shows s x v) (line : Nat) :
    evalStats env [.return [.name x line]] s = .done (.return [v]) s := by
  have listed : evalExprs env [.name x line] s = .done [v] s := by
    rw [evalExprs_cons rfl, Eval.bind_of_done (shows_.evalExpr line)]
    rfl
  have returned : evalStat env (.return [.name x line]) s = .done (.return [v]) s := by
    rw [evalStat]
    exact Eval.bind_of_done listed
  rw [evalStats, Eval.bind_of_done returned]
  rfl


/-- Declarations of other variables before a variable is returned. -/
theorem evalStats_others (ds : Declared) (line m : Nat) (shows_ : env.Shows s x v) (others : ∀ d ∈ ds, d.1 ≠ x) :
    ∃ s', evalStats env (ds.statements line ++ [.return [.name x m]]) s = .done (.return [v]) s' ∧ s'.Follows s := by
  induction ds generalizing env s line with
  | nil => exact ⟨s, evalStats_return shows_ m, .refl s⟩
  | cons d ds ih =>
    obtain ⟨y, l⟩ := d
    rw [Declared.statements, List.cons_append, evalStats_declare]
    obtain ⟨s', run, follows⟩ := ih (line + 1) (shows_.later (others (y, l) (by simp)))
      fun d member => others d (by simp [member])
    exact ⟨s', run, follows.trans (s.follows_extend l.value)⟩

/-- Of variables with different names, the one that is returned has the value of its literal. -/
theorem evalStats_declared (env : Env) {ds : Declared} (line m : Nat) {x : Name} {l : Literal}
    (distinct : (ds.map Prod.fst).Nodup) (member : (x, l) ∈ ds) (s : State World) :
    ∃ s', evalStats env (ds.statements line ++ [.return [.name x m]]) s = .done (.return [l.value]) s' ∧ s'.Follows s := by
  induction ds generalizing env line s with
  | nil => cases member
  | cons d ds ih =>
    obtain ⟨y, k⟩ := d
    rw [List.map_cons, List.nodup_cons] at distinct
    rw [Declared.statements, List.cons_append, evalStats_declare]
    have first := s.follows_extend k.value
    rcases List.mem_cons.mp member with same | member
    · cases same
      have others : ∀ d ∈ ds, d.1 ≠ x := fun d inside same =>
        distinct.1 (List.mem_map.mpr ⟨d, inside, same⟩)
      obtain ⟨s', run, follows⟩ := evalStats_others ds (line + 1) m (.latest env s x l.value) others
      exact ⟨s', run, follows.trans first⟩
    · obtain ⟨s', run, follows⟩ := ih (env.bind y s.cells.size) (line + 1) distinct.2 member (s.extend k.value)
      exact ⟨s', run, follows.trans first⟩

theorem steady_declared (env : Env) {ds : Declared} (line m : Nat) {x : Name} {l : Literal}
    (distinct : (ds.map Prod.fst).Nodup) (member : (x, l) ∈ ds) :
    Eval.Steady (evalStats env (ds.statements line ++ [.return [.name x m]]) : Eval World Flow)
      (Flow.Gives [l.value]) := by
  refine Eval.steady_of_done fun s => ?_
  obtain ⟨s', run, follows⟩ := evalStats_declared env line m distinct member s
  exact ⟨_, s', run, follows, .inl rfl⟩

/-! The text of such a script -/

/-- The tokens of a script that returns a name. -/
def returnLexemes (x : Name) : List Lexeme := [⟨.keyword .return_, 1⟩, ⟨.name x, 1⟩, ⟨.eof, 1⟩]

theorem chunk_return (x : Name) :
    Parser.chunk ⟨returnLexemes x, (returnLexemes x).length + 1, 1, []⟩ = .ok ([.return [.name x 1]],
      ⟨[⟨.eof, 1⟩], 4, 1, [(.closeFunction, ⟨.eof, 1⟩), (.takeVarargs, ⟨.keyword .return_, 1⟩),
        (.openFunction none, ⟨.keyword .return_, 1⟩)]⟩) := rfl

/-- Declarations and the return of a name are a script as long as there is room for the variables. -/
theorem parse_return {ds : Declared} {k : Nat} {x : Name} {ts : List Lexeme} (few : ds.length ≤ Scope.variableLimit)
    (mirrors : List.Forall₂ (Lexeme.Mirrors k) (returnLexemes x) ts) :
    parse (ds.lexemes 1 ++ ts) = .ok (ds.statements 1 ++ [.return [.name x (1 + k)]]) := by
  obtain ⟨later, d, next, alone, chunk, below⟩ := chunk_below mirrors (fun joins => nomatch joins.1) (chunk_return x)
  refine parse_eq_ok.mpr ⟨d, chunk, below.trans ?_⟩
  cases alone
  rw [Scope.firstFault?_declared [] _ (by rwa [List.length_nil, Nat.zero_add])]
  rfl

theorem hasLabel_declared (ds : Declared) (line : Nat) (es : List Expr) :
    hasLabel (ds.statements line ++ [.return es]) = false := by
  induction ds generalizing line with
  | nil => rfl
  | cons d ds ih => exact ih (line + 1)

end ScriptTools.Guest
