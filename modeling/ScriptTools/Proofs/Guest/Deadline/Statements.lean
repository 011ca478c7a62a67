import ScriptTools.Proofs.Guest.Deadline.Operations

/-!
Expressions, statements and loops go on only while there is time. A block that is left closes its variables,
which calls a metamethod at any time, but nothing after that.
-/

namespace ScriptTools.Guest

namespace Eval

variable {World α : Type} {env : Env}

/-! Variables -/

theorem still_readCell (id : Nat) : Still (readCell id : Eval World Value) := still_look _

theorem still_writeCell (id : Nat) (v : Value) : Still (writeCell id v : Eval World Unit) := still_modify fun _ => rfl

theorem still_environment (id? : Option Nat) : Still (environment id? : Eval World Value) := by
  unfold environment
  split
  · exact still_readCell _
  · exact still_look _

theorem awake_readName (x : Name) (line : Nat) : Awake (readName env x line : Eval World Value) := by
  unfold readName
  split
  · exact (still_readCell _).awake
  · refine .ite (still_environment _).awake ((still_environment _).awake.bind fun e => ?_)
    split
    · exact (still_rawGet _ _).awake.bind fun own => .ite (awake_index _ _ _) .pure
    · exact awake_index _ _ _

theorem awake_writeName (x : Name) (line : Nat) (v : Value) : Awake (writeName env x line v : Eval World Unit) := by
  unfold writeName
  split
  · exact (still_writeCell _ _).awake
  · exact (still_environment _).awake.bind fun e => awake_setIndex _ _ _ _

theorem awake_storeAll (line : Nat) (targets : List Target) (vs : List Value) :
    Awake (storeAll env line targets vs : Eval World Unit) := by
  induction targets generalizing vs with
  | nil => exact .pure
  | cons t targets ih =>
    refine (ih vs.tail).bind fun _ => ?_
    unfold store
    split
    · exact awake_writeName _ _ _
    · exact awake_setIndex _ _ _ _

theorem still_declareAll (constant : Bool) (names : List (Name × Attribute)) (vs : List Value) (env : Env) :
    Still (declareAll constant names vs env : Eval World Env) := by
  induction names generalizing vs env with
  | nil => exact .pure
  | cons name names ih => exact (still_newCell _).bind fun id => ih _ _

theorem still_declareNames (names : List Name) (vs : List Value) (env : Env) :
    Still (declareNames names vs env : Eval World Env) := by
  induction names generalizing vs env with
  | nil => exact .pure
  | cons name names ih => exact (still_newCell _).bind fun id => ih _ _

theorem still_dropCells (mark : Nat) : Still (dropCells mark : Eval World Unit) := fun _ => .inl ⟨_, _, rfl, rfl⟩

/-! Operators -/

theorem awake_unary (op : UnaryOp) (e : Expr) (v : Value) (line : Nat) :
    Awake (unary env op e v line : Eval World Value) := by
  cases op with
  | not => exact .pure
  | negate => exact awake_negate _ _
  | length => exact awake_length _ _
  | complement => exact awake_complement _ _

theorem awake_binary (op : BinaryOp) (a b : Expr) (x y : Value) (line : Nat) :
    Awake (binary env op a b x y line : Eval World Value) := by
  cases op with
  | arith op => exact awake_arith _ _ _ _ _
  | bit op => exact awake_bits _ _ _ _ _
  | compare op => exact (awake_compare _ _ _).bind fun _ => .pure
  | concat => exact awake_concat _ _ _ _
  | and => exact .pure
  | or => exact .pure

/-! Closing -/

theorem awake_fail (e : Failure) : Awake (fail e : Eval World α) := fun _ _ _ inTime => .early inTime

theorem awake_checkClosable (line : Nat) (x : Name) (v : Value) : Awake (checkClosable env line x v : Eval World Unit) :=
  .ite (awake_meta (still_metamethod _ _) (awake_errorAt _ _) fun _ => .pure) .pure

theorem wakes_close {script : String} {n : Nat} {d : Designation} (f : Value) (args : List Value) :
    Wakes (callMeta (.line script n d) "close" f args : Eval World Value) := by
  have leaving : (Site.line script n (.metamethod "close")).IsLeaving := rfl
  have wakes : Wakes (callFromScript (.line script n (.metamethod "close")) f args : Eval World (List Value)) :=
    fun left s last => sober_callFromScript (.inr leaving) f args last
  exact wakes.bind fun _ => .pure

theorem awake_result (r : Except Failure α) : Awake (match r with
    | .ok a => Pure.pure a
    | .error e => fail e : Eval World α) := by
  split
  · exact .pure
  · exact awake_fail _

/-- A block that was left late is left for good, once its variable is closed. -/
theorem sober_closeAfter {left : Prop} {line : Nat} {d : Designation} (v : Value) {r : Except Failure α} {s : State World}
    {last : Reply} (known : ∀ a, r = .ok a → s.InTime) (fails : ∀ e, r = .error e → Fails left last e s) :
    (closeAfter (env.site line d) v r s).Sober left (fun _ _ s => s.InTime) last := by
  unfold closeAfter
  dsimp only
  split
  · exact (still_metamethod _ _).wakes_bind (fun f => (wakes_close _ _).bind fun _ => awake_result r) left s last
  · cases r with
    | ok a => exact known a rfl
    | error e => exact fails e rfl

theorem awake_closeAfter_protect {m : Eval World α} (awake : Awake m) (line : Nat) (d : Designation) (v : Value) :
    Awake (do
      let r ← protect m
      closeAfter (env.site line d) v r) := by
  intro left s last inTime
  rw [bind_apply]
  exact (awake left s last inTime).protect.bind fun last r s known => sober_closeAfter v known.1 known.2

/-! Statements -/

theorem awake_task {t : Task} (loop : t.isCall = false) : Awake (task t : Eval World Flow) := by
  intro left s last inTime
  refine ⟨.inl inTime, fun _ r s' known => ?_⟩
  cases r with
  | ok flow => exact known loop rfl
  | error e => exact .reply rfl

theorem awake_settleTail (flow : Flow) : Awake (settleTail flow : Eval World Flow) := by
  unfold settleTail
  split
  · exact (awake_callFromScript _ _ _).bind fun _ => .pure
  · exact .pure

theorem still_leaveBlock (mark : Nat) (flow : Flow) : Still (leaveBlock env mark flow : Eval World Flow) := by
  refine (still_dropCells _).bind fun _ => ?_
  split <;> exact .pure

theorem awake_numberOr (site : Site) (what : String) (v : Value) : Awake (numberOr site what v : Eval World Number) := by
  unfold numberOr
  split
  · exact .pure
  · exact (still_typeTitle _).awake.bind fun _ => awake_errorAt _ _

theorem awake_unless {p : Prop} [Decidable p] {fails : Eval World Unit} {goesOn : Eval World α} (fault : Awake fails)
    (next : Awake goesOn) : Awake (if p then fails >>= fun _ => goesOn else goesOn) := .ite (fault.bind fun _ => next) next

theorem awake_startCount (x : Name) (first last step : Value) (body : Block) (line : Nat) :
    Awake (startCount env x first last step body line : Eval World Flow) := by
  unfold startCount
  dsimp only
  split
  · refine awake_unless (awake_errorAt _ _) ((awake_numberOr _ _ _).bind fun bound => ?_)
    split
    · exact awake_task rfl
    · exact .pure
  · refine (awake_numberOr _ _ _).bind fun bound => (awake_numberOr _ _ _).bind fun step =>
      (awake_numberOr _ _ _).bind fun first => ?_
    exact awake_unless (awake_errorAt _ _) (.ite .pure (awake_task rfl))

theorem awake_startEach (names : List Name) (values : List Value) (body : Block) (line : Nat) :
    Awake (startEach env names values body line : Eval World Flow) := by
  unfold startEach
  split
  · refine .ite ((awake_checkClosable _ _ _).bind fun _ => ?_) (awake_task rfl)
    exact awake_closeAfter_protect ((awake_task rfl).bind awake_settleTail) _ _ _
  · exact .pure

end Eval

open Eval

variable {World : Type} {env : Env}

/-! Expressions -/

theorem awake_expressions (env : Env) :
    (∀ e, Awake (evalExpr env e : Eval World Value)) ∧
      (∀ id line fields, Awake (evalFields env id line fields : Eval World (List Value))) ∧
        ∀ es, Awake (evalExprs env es : Eval World (List Value)) := by
  refine evalExpr.mutual_induct _ _ _ ?nil ?bool ?number ?string ?varargs ?function ?name ?index ?call ?method ?unary ?binary
    ?paren ?table ?none ?lastVarargs ?lastCall ?lastMethod ?more ?noFields ?itemVarargs ?itemCall ?itemMethod ?item ?pair
  case nil | varargs | none | lastVarargs => exact .pure
  case bool | number | string => exact fun _ => .pure
  case function => exact fun _ _ _ => (still_newClosure _).awake
  case name => exact fun x line => awake_readName x line
  case index =>
    intro object key line object' key'
    rw [evalExpr]
    exact object'.bind fun o => key'.bind fun k => awake_index _ _ _
  case call =>
    intro f args line callee values
    rw [evalExpr]
    exact callee.bind fun f => values.bind fun vs => (awake_callFromScript _ _ _).bind fun _ => .pure
  case method =>
    intro object x args line object' values
    rw [evalExpr]
    exact object'.bind fun o => (awake_index _ _ _).bind fun f => values.bind fun vs =>
      (awake_callFromScript _ _ _).bind fun _ => .pure
  case unary =>
    intro op e line operand
    rw [evalExpr]
    exact operand.bind fun v => awake_unary _ _ _ _
  case binary =>
    intro op a b line left right
    rw [evalExpr]
    refine left.bind fun x => ?_
    split
    · exact .ite right .pure
    · exact .ite .pure right
    · refine right.bind fun y => ?_
      split
      · exact .pure
      · exact awake_binary _ _ _ _ _ _
  case paren =>
    intro e inner
    rw [evalExpr]
    exact inner
  case table =>
    intro fields line m n counts fields'
    rw [evalExpr, counts]
    refine (still_newTable _).awake.bind fun t => ?_
    split
    · have enters (items : List Value) (id : Nat) :
          Still (modify fun s => { s with tables := s.tables.modify id fun t => t.withItems items } : Eval World Unit) :=
        still_modify fun _ => rfl
      exact (fields' _).bind fun values => awake_unless (enters values _).awake .pure
    · exact .pure
  case lastCall =>
    intro f args line callee values
    rw [evalExprs]
    exact callee.bind fun f => values.bind fun vs => awake_callFromScript _ _ _
  case lastMethod =>
    intro object x args line object' values
    rw [evalExprs]
    exact object'.bind fun o => (awake_index _ _ _).bind fun f => values.bind fun vs => awake_callFromScript _ _ _
  case more =>
    intro e rest varargs call method first others
    rw [evalExprs]
    · exact first.bind fun v => others.bind fun vs => .pure
    · exact varargs
    · exact call
    · exact method
  case noFields | itemVarargs => exact fun _ _ => .pure
  case itemCall =>
    intro id line f args callLine callee values
    rw [evalFields]
    exact callee.bind fun f => values.bind fun vs => awake_callFromScript _ _ _
  case itemMethod =>
    intro id line object x args callLine object' values
    rw [evalFields]
    exact object'.bind fun o => (awake_index _ _ _).bind fun f => values.bind fun vs => awake_callFromScript _ _ _
  case item =>
    intro id line e rest varargs call method first others
    rw [evalFields]
    · exact first.bind fun v => others.bind fun vs => .pure
    · exact varargs
    · exact call
    · exact method
  case pair =>
    intro id line key e rest key' value others
    rw [evalFields]
    exact key'.bind fun k => value.bind fun v => (awake_setRaw _ _ _ _).bind fun _ => others

theorem awake_evalExpr (e : Expr) : Awake (evalExpr env e : Eval World Value) := (awake_expressions env).1 e

theorem awake_evalExprs (es : List Expr) : Awake (evalExprs env es : Eval World (List Value)) :=
  (awake_expressions env).2.2 es

theorem awake_evalTarget (e : Expr) : Awake (evalTarget env e : Eval World Target) := by
  unfold evalTarget
  split
  · exact (awake_evalExpr _).bind fun o => (awake_evalExpr _).bind fun k => .pure
  · exact .pure
  · exact .pure

theorem awake_evalTargets (es : List Expr) : Awake (evalTargets env es : Eval World (List Target)) := by
  induction es with
  | nil => exact .pure
  | cons e es ih => exact (awake_evalTarget e).bind fun t => ih.bind fun ts => .pure

theorem awake_evalReturn (es : List Expr) : Awake (evalReturn env es : Eval World Flow) := by
  unfold evalReturn
  split
  · exact (awake_evalExpr _).bind fun f => (awake_evalExprs _).bind fun vs => .pure
  · exact (awake_evalExpr _).bind fun o => (awake_index _ _ _).bind fun f => (awake_evalExprs _).bind fun vs => .pure
  · exact (awake_evalExprs _).bind fun vs => .pure

/-! Statements -/

theorem awake_runStats {body : Block} {run : Eval World Flow} (awake : Awake run) : Awake (runStats env body run) :=
  .ite (awake_task rfl) awake

theorem awake_runBlock {body : Block} {run : Eval World Flow} (awake : Awake run) : Awake (runBlock env body run) :=
  (still_look _).awake.bind fun _ => (awake_runStats awake).bind fun _ => (still_leaveBlock _ _).awake

theorem awake_statements :
    (∀ env st, Awake (evalStat env st : Eval World Flow)) ∧
      ∀ env body, Awake (evalStats env body : Eval World Flow) := by
  refine @evalStat.mutual_induct World _ _ ?declare ?assignName ?assign ?call ?block ?whileLoop ?repeatLoop ?branch ?count
    ?each ?localFunction ?returned ?left ?goto ?label ?none ?more
  case declare =>
    intro env names values line
    rw [evalStat]
    refine (awake_evalExprs _).bind fun vs => (still_declareAll _ _ _ _).awake.bind fun env' => ?_
    split
    · exact (awake_checkClosable _ _ _).bind fun _ => .pure
    · exact .pure
  case assignName =>
    intro env line x l e
    rw [evalStat]
    exact (awake_evalExpr _).bind fun v => (awake_writeName _ _ _).bind fun _ => .pure
  case assign =>
    intro env targets values line other
    rw [evalStat]
    · exact (awake_evalTargets _).bind fun ts => (awake_evalExprs _).bind fun vs =>
        (awake_storeAll _ _ _).bind fun _ => .pure
    · exact other
  case call =>
    intro env e
    rw [evalStat]
    exact (awake_evalExpr _).bind fun _ => .pure
  case block =>
    intro env body ih
    rw [evalStat]
    exact awake_runBlock ih
  case whileLoop => exact fun _ _ _ => awake_task rfl
  case repeatLoop => exact fun _ _ _ => awake_task rfl
  case branch =>
    intro env condition yes no ih ih'
    rw [evalStat]
    exact (awake_evalExpr _).bind fun v => .ite (awake_runBlock ih) (awake_runBlock ih')
  case count =>
    intro env x first last step body line
    rw [evalStat]
    exact (awake_evalExpr _).bind fun a => (awake_evalExpr _).bind fun b => (awake_evalExpr _).bind fun d =>
      awake_startCount _ _ _ _ _ _
  case each =>
    intro env names values body line
    rw [evalStat]
    exact (awake_evalExprs _).bind fun vs => awake_startEach _ _ _ _
  case localFunction =>
    intro env x params varargs body
    rw [evalStat]
    exact (still_newCell _).awake.bind fun id => (still_newClosure _).awake.bind fun f =>
      (still_writeCell _ _).awake.bind fun _ => .pure
  case returned => exact fun _ _ => awake_evalReturn _
  case left => exact fun _ => .pure
  case goto => exact fun _ _ => .pure
  case label => exact fun _ _ => .pure
  case none => exact fun _ => .pure
  case more =>
    intro env st rest first others
    rw [evalStats]
    refine first.bind fun flow => ?_
    split
    · split
      · exact others _
      · exact (awake_readName _ _).bind fun v =>
          awake_closeAfter_protect ((awake_runStats (others _)).bind awake_settleTail) _ _ _
    · exact .pure
    · exact .pure

theorem awake_evalBlock (body : Block) : Awake (evalBlock env body : Eval World Flow) :=
  awake_runBlock (awake_statements.2 _ _)

end ScriptTools.Guest
