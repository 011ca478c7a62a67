import ScriptTools.Proofs.Guest.Calm

/-!
Scripts that only declare and assign: their values are names, functions and tables of such, and nothing is
called.
-/

namespace ScriptTools.Guest

/-- Expressions whose value is read or made where they stand. -/
def Expr.isValue : Expr → Bool
  | .nil | .bool _ | .number _ | .string _ | .function .. | .name .. => true
  | _ => false

def Field.isEntry : Field → Bool
  | .pair (.string _) e => e.isValue
  | _ => false

/-- Values, and tables of values with names. -/
def Expr.isStraight : Expr → Bool
  | .table fields _ => fields.all Field.isEntry
  | e => e.isValue

def Expr.isName : Expr → Bool
  | .name .. => true
  | _ => false

/-- Declarations of variables other than the environment, and assignments to variables. -/
def Stat.isStraight : Stat → Bool
  | .declare names values _ =>
    names.all (fun n => n.2 == .plain && !(n.1 == environmentName)) && values.all Expr.isStraight
  | .assign targets values _ => targets.all Expr.isName && values.all Expr.isStraight
  | _ => false

/-- An environment in which no variable stands for the table of globals. -/
def Env.Ordinary (env : Env) : Prop := ∀ x id place, .cell x id place ∈ env.names → (x == environmentName) = false

variable {World : Type} {env : Env}

theorem Env.Ordinary.bind (ordinary : env.Ordinary) {x : Name} (other : (x == environmentName) = false) (id : Nat) (place : Bool) :
    (env.bind x id place).Ordinary := by
  intro y i p member
  rcases List.mem_cons.mp member with same | member
  · cases same
    exact other
  · exact ordinary y i p member

theorem resolveIn_ordinary {vs : List Variable} (ordinary : ∀ y id place, .cell y id place ∈ vs → (y == environmentName) = false)
    (x : Name) (outer : Bool) :
    resolveIn x outer none vs = .global none ∨ ∃ id o place, resolveIn x outer none vs = .cell id o place := by
  induction vs generalizing outer with
  | nil => exact .inl rfl
  | cons v vs ih =>
    have rest := ih fun y id place member => ordinary y id place (by simp [member])
    cases v with
    | border => exact rest true
    | cell y id place =>
      rw [resolveIn]
      split
      · exact .inr ⟨_, _, _, rfl⟩
      · rw [ordinary y id place (by simp), if_neg nofun]
        exact rest outer

namespace Eval

theorem steady_readName (ordinary : env.Ordinary) (x : Name) (line : Nat) :
    Steady (readName env x line : Eval World Value) fun _ => True := by
  intro depth nested s quiet
  suffices ∃ v, readName env x line s = .done v s by
    obtain ⟨v, run⟩ := this
    exact .inl ⟨v, s, run, .refl s, trivial⟩
  rw [readName, Env.resolve]
  rcases resolveIn_ordinary ordinary x false with global | ⟨id, o, place, cell⟩
  · rw [global]
    dsimp only
    split
    · exact ⟨_, rfl⟩
    · have own : rawGet s.globals (.string x) s = .done ((s.tables[s.globals]?.getD {}).get (.string x)) s := rfl
      obtain ⟨v, run⟩ := index_globals quiet (env.site line .unnamed) .unnamed x
      have table : environment none s = .done (.ref (.table s.globals)) s := rfl
      rw [bind_of_done table]
      dsimp only
      rw [bind_of_done own]
      split
      · exact ⟨v, run⟩
      · exact ⟨_, rfl⟩
  · rw [cell]
    exact ⟨_, rfl⟩

theorem steady_writeName (ordinary : env.Ordinary) (x : Name) (line : Nat) (v : Value) :
    Steady (writeName env x line v : Eval World Unit) fun _ => True := by
  intro depth nested s quiet
  rw [writeName, Env.resolve]
  rcases resolveIn_ordinary ordinary x false with global | ⟨id, o, place, cell⟩
  · rw [global]
    have table : environment none s = .done (.table s.globals) s := rfl
    dsimp only
    rw [bind_of_done table, setIndex_globals quiet]
    exact steady_rawSet _ _ _ quiet
  · rw [cell]
    exact steady_writeCell id v quiet

end Eval

open Eval

/-! Expressions -/

theorem steady_isValue (ordinary : env.Ordinary) {e : Expr} (value : e.isValue = true) :
    Steady (evalExpr env e : Eval World Value) fun _ => True := by
  cases e with
  | nil | bool | number | string => exact .pure trivial
  | function => exact steady_newClosure _
  | name x line => exact steady_readName ordinary x line
  | _ => cases value

theorem steady_evalFields (ordinary : env.Ordinary) (id line : Nat) {fields : List Field}
    (entries : fields.all Field.isEntry = true) :
    Steady (evalFields env id line fields : Eval World (List Value)) (· = []) := by
  induction fields with
  | nil => exact .pure rfl
  | cons f fields ih =>
    rw [List.all_cons, Bool.and_eq_true] at entries
    obtain ⟨here, rest⟩ := entries
    cases f with
    | item e => cases here
    | pair key e =>
      cases key with
      | string k =>
        rw [evalFields]
        refine .bind (.pure rfl : Steady _ (· = .string k)) fun v same => ?_
        subst v
        refine .bind (steady_isValue ordinary here) fun v _ => ?_
        exact .bind (steady_rawSet id (.string k) v) fun _ _ => ih rest
      | _ => cases here

theorem steady_isStraight (ordinary : env.Ordinary) {e : Expr} (straight : e.isStraight = true) :
    Steady (evalExpr env e : Eval World Value) fun _ => True := by
  cases e with
  | table fields line =>
    rw [evalExpr]
    refine .bind (steady_newTable rfl) fun v table => ?_
    obtain ⟨id, rfl⟩ := table
    refine .bind (steady_evalFields ordinary id line straight) fun vs none => ?_
    subst vs
    exact .pure trivial
  | _ => exact steady_isValue ordinary straight

/-- Whether an expression has one value wherever it stands. -/
def Expr.isSingle : Expr → Bool
  | .varargs | .call .. | .method .. => false
  | _ => true

theorem Expr.isSingle_of_isStraight {e : Expr} (straight : e.isStraight = true) : e.isSingle = true := by
  cases e <;> first | rfl | cases straight

theorem evalExprs_cons {e : Expr} (single : e.isSingle = true) (es : List Expr) :
    (evalExprs env (e :: es) : Eval World (List Value)) =
      (do let v ← evalExpr env e; return v :: (← evalExprs env es)) := by
  cases e with
  | varargs | call | method => cases single
  | _ => cases es <;> rfl

theorem steady_evalExprs (ordinary : env.Ordinary) {es : List Expr} (straight : es.all Expr.isStraight = true) :
    Steady (evalExprs env es : Eval World (List Value)) fun _ => True := by
  induction es with
  | nil => exact .pure trivial
  | cons e es ih =>
    rw [List.all_cons, Bool.and_eq_true] at straight
    rw [evalExprs_cons (Expr.isSingle_of_isStraight straight.1)]
    refine .bind (steady_isStraight ordinary straight.1) fun v _ => ?_
    exact .bind (ih straight.2) fun vs _ => .pure trivial

/-! Statements -/

theorem steady_declareAll (constant : Bool) {names : List (Name × Attribute)} (vs : List Value)
    (ordinary : env.Ordinary) (others : ∀ n ∈ names, (n.1 == environmentName) = false) :
    Steady (declareAll constant names vs env : Eval World Env) fun env' => env'.Ordinary := by
  induction names generalizing vs env with
  | nil => exact .pure ordinary
  | cons n names ih =>
    obtain ⟨x, a⟩ := n
    rw [declareAll]
    refine .bind (steady_newCell _) fun id _ => ?_
    exact ih vs.tail (ordinary.bind (others (x, a) (by simp)) id _) fun n member => others n (by simp [member])

theorem steady_evalTargets {targets : List Expr} (names : targets.all Expr.isName = true) :
    Steady (evalTargets env targets : Eval World (List Target)) fun ts => ∀ t ∈ ts, ∃ x line, t = .variable x line := by
  induction targets with
  | nil => exact .pure fun t member => absurd member List.not_mem_nil
  | cons e es ih =>
    rw [List.all_cons, Bool.and_eq_true] at names
    obtain ⟨here, rest⟩ := names
    cases e with
    | name x line =>
      rw [evalTargets]
      refine .bind (.pure rfl : Steady _ (· = .variable x line)) fun t same => ?_
      refine .bind (ih rest) fun ts others => .pure fun u member => ?_
      rcases List.mem_cons.mp member with rfl | member
      · exact ⟨x, line, same⟩
      · exact others u member
    | _ => cases here

theorem steady_storeAll (ordinary : env.Ordinary) (line : Nat) {ts : List Target} (vs : List Value)
    (named : ∀ t ∈ ts, ∃ x line, t = .variable x line) :
    Steady (storeAll env line ts vs : Eval World Unit) fun _ => True := by
  induction ts generalizing vs with
  | nil => exact .pure trivial
  | cons t ts ih =>
    obtain ⟨x, l, rfl⟩ := named t (by simp)
    exact .bind (ih vs.tail fun u member => named u (by simp [member])) fun _ _ => steady_writeName ordinary x l _

theorem steady_evalStat (ordinary : env.Ordinary) {st : Stat} (straight : st.isStraight = true) :
    Steady (evalStat env st : Eval World Flow) fun flow => ∃ env', flow = .next env' ∧ env'.Ordinary := by
  cases st with
  | declare names values line =>
    rw [Stat.isStraight, Bool.and_eq_true, List.all_eq_true] at straight
    obtain ⟨plain, straight⟩ := straight
    have others : ∀ n ∈ names, n.2 = .plain ∧ (n.1 == environmentName) = false := by
      intro n member
      simpa using plain n member
    have open_ : (names.zipIdx.find? fun n => n.1.2 == .close) = none := by
      rw [List.find?_eq_none]
      intro n member
      rw [(others n.1 (List.fst_mem_of_mem_zipIdx member)).1]
      decide
    rw [evalStat]
    refine .bind (steady_evalExprs ordinary straight) fun vs _ => ?_
    refine .bind (steady_declareAll _ vs ordinary fun n member => (others n member).2) fun env' ordinary' => ?_
    rw [open_]
    exact .pure ⟨env', rfl, ordinary'⟩
  | assign targets values line =>
    rw [Stat.isStraight, Bool.and_eq_true] at straight
    obtain ⟨names, straight⟩ := straight
    have next : ∃ env', Flow.next env = .next env' ∧ env'.Ordinary := ⟨env, rfl, ordinary⟩
    have several : Steady (do
        let ts ← evalTargets env targets
        let vs ← evalExprs env values
        storeAll env line ts vs
        return .next env : Eval World Flow) fun flow => ∃ env', flow = .next env' ∧ env'.Ordinary := by
      refine .bind (steady_evalTargets names) fun ts named => ?_
      refine .bind (steady_evalExprs ordinary straight) fun vs _ => ?_
      exact .bind (steady_storeAll ordinary line vs named) fun _ _ => .pure next
    unfold evalStat
    split
    · rw [List.all_cons, Bool.and_eq_true] at straight
      refine .bind (steady_isStraight ordinary straight.1) fun v _ => ?_
      exact .bind (steady_writeName ordinary _ _ v) fun _ _ => .pure next
    · exact several
  | _ => cases straight

theorem closing?_of_isStraight {st : Stat} (straight : st.isStraight = true) : closing? st = none := by
  cases st with
  | declare names values line =>
    rw [Stat.isStraight, Bool.and_eq_true, List.all_eq_true] at straight
    rw [closing?, Option.map_eq_none_iff, List.find?_eq_none]
    intro n member close
    have plain := straight.1 n member
    rw [beq_iff_eq.mp close] at plain
    cases plain
  | assign => rfl
  | _ => cases straight

theorem hasLabel_of_isStraight {body : Block} (straight : body.all Stat.isStraight = true) : hasLabel body = false := by
  rw [hasLabel, List.any_eq_false]
  intro st member label
  have here := List.all_eq_true.mp straight st member
  cases st with
  | label => cases here
  | _ => cases label

theorem steady_evalStats (ordinary : env.Ordinary) {body : Block} (straight : body.all Stat.isStraight = true) :
    Steady (evalStats env body : Eval World Flow) fun flow => ∃ env', flow = .next env' := by
  induction body generalizing env with
  | nil => exact .pure ⟨env, rfl⟩
  | cons st rest ih =>
    rw [List.all_cons, Bool.and_eq_true] at straight
    rw [evalStats]
    refine .bind (steady_evalStat ordinary straight.1) fun flow next => ?_
    obtain ⟨env', rfl, ordinary'⟩ := next
    dsimp only
    rw [closing?_of_isStraight straight.1]
    exact ih ordinary' straight.2

end ScriptTools.Guest
