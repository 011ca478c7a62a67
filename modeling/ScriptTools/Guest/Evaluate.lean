import ScriptTools.Guest.Operation

/-!
What expressions and statements do. Calls and loops are left to the machine as tasks, so that the
evaluation of a piece of syntax follows its structure.
-/

namespace ScriptTools.Guest

/-- What a name stands for: a cell, which may belong to a function around, or an entry of the table of
globals, which a variable may replace. -/
inductive Resolution where
  | cell (id : Nat) (outer place : Bool)
  | global (environment : Option Nat)

def environmentName : Name := "_ENV".toUTF8

def resolveIn (x : Name) (outer : Bool) (environment : Option Nat) : List Variable → Resolution
  | [] => .global environment
  | .border :: rest => resolveIn x true environment rest
  | .cell y id place :: rest =>
    if x == y then .cell id outer place
    else
      match environment with
      | none => resolveIn x outer (if y == environmentName then some id else none) rest
      | some _ => resolveIn x outer environment rest

namespace Env

def resolve (env : Env) (x : Name) : Resolution := resolveIn x false none env.names

def bind (env : Env) (x : Name) (id : Nat) (place : Bool := true) : Env :=
  { env with names := .cell x id place :: env.names }

/-- The environment of a function that is made here. -/
def inner (env : Env) : Env := { names := .border :: env.names, script := env.script }

def site (env : Env) (line : Nat) (d : Designation) : Site := .line env.script line d

/-- How a message names the value of an expression. -/
def designate (env : Env) : Expr → Designation
  | .name x _ =>
    match env.resolve x with
    | .cell _ outer true => if outer then .upvalue x else .local x
    | .cell _ _ false => .unnamed
    | .global _ => .global x
  | .index (.name x _) (.string k) _ => if x == environmentName then .global k else .field k
  | .index _ (.string k) _ => .field k
  | .index _ (.number (.int i)) _ =>
    if 0 ≤ i && i < 256 then .field "integer index".toUTF8 else .field "?".toUTF8
  | .index .. => .field "?".toUTF8
  | .string s => .constant s
  | .paren e => env.designate e
  | _ => .unnamed

end Env

/-- Where an assignment puts a value. -/
inductive Target where
  | variable (x : Name) (line : Nat)
  | entry (object key : Value) (d : Designation)

namespace Table

/-- Gives the items of a new table, which take precedence over entries with the same keys. -/
def withItems (t : Table) (items : List Value) : Table :=
  let items := items.toArray
  let entries := t.slots.entries.map fun e =>
    match positive? e.1 with
    | some n => if n ≤ items.size then (e.1, .nil) else e
    | none => e
  { t with items, slots := { t.slots with entries } }

end Table

/-- The number of items and of other entries that a table is written with. -/
def fieldCounts (fields : List Field) : Nat × Nat :=
  fields.foldl (fun (m, n) f =>
    match f with
    | .item _ => (m + 1, n)
    | .pair .. => (m, n + 1)) (0, 0)

/-- The values for a number of names: further ones are dropped, missing ones are `nil`. -/
def adjust : Nat → List Value → List Value
  | 0, _ => []
  | n + 1, [] => .nil :: adjust n []
  | n + 1, v :: vs => v :: adjust n vs

/-- Whether an expression is a constant that is known beforehand. -/
def isConstant : Expr → Bool
  | .nil | .bool _ | .number _ | .string _ => true
  | .unary .negate (.number _) _ => true
  | _ => false

def hasLabel (body : Block) : Bool :=
  body.any fun st =>
    match st with
    | .label _ => true
    | _ => false

/-- The variable of a statement that is closed where its block ends. -/
def closing? : Stat → Option Name
  | .declare names _ _ => (names.find? fun n => n.2 == .close).map (·.1)
  | _ => none

/-- Counts the rounds of a loop over integers after the first, if there is one. -/
def rounds? (first last step : Int64) : Option Nat :=
  let a := first.toInt
  let b := last.toInt
  if 0 < step then (if a ≤ b then some ((b - a) / step.toInt).toNat else none)
  else if b ≤ a then some ((a - b) / -step.toInt).toNat
  else none

/-- The bound of a loop over integers: a number rounded towards the loop and cut to the range of
integers. -/
def integerBound (step : Int64) : Number → Int64
  | .int i => i
  | .float x =>
    let y := if step < 0 then x.ceil else x.floor
    match Decimal.whole? y with
    | some i => i
    | none => if 0 < x then Int64.maxValue else Int64.minValue

namespace Eval

variable {World : Type}

def failureValue : Failure → Value
  | .raised v => v
  | .memory => .text "not enough memory"

def readCell (id : Nat) : Eval World Value := look fun s => s.cells[id]?.getD .nil

def writeCell (id : Nat) (v : Value) : Eval World Unit :=
  modify fun s => { s with cells := s.cells.setIfInBounds id v }

def environment (id? : Option Nat) : Eval World Value :=
  match id? with
  | some id => readCell id
  | none => look fun s => .table s.globals

def readName (env : Env) (x : Name) (line : Nat) : Eval World Value :=
  match env.resolve x with
  | .cell id _ _ => readCell id
  | .global e => do
    if e.isNone && x == environmentName then return ← environment none
    match ← environment e with
    | .ref (.table id) =>
      let own ← rawGet id (.string x)
      if own.isNil then index (env.site line .unnamed) .unnamed (.table id) (.string x)
      else return own
    | v => index (env.site line .unnamed) (.upvalue environmentName) v (.string x)

def writeName (env : Env) (x : Name) (line : Nat) (v : Value) : Eval World Unit :=
  match env.resolve x with
  | .cell id _ _ => writeCell id v
  | .global e => do
    setIndex (env.site line .unnamed) (.upvalue environmentName) (← environment e) (.string x) v

/-- Puts a value where an assignment wants it. -/
def store (env : Env) (line : Nat) (v : Value) : Target → Eval World Unit
  | .variable x line => writeName env x line v
  | .entry object key d => setIndex (env.site line .unnamed) d object key v

/-- Assigns the last value first. -/
def storeAll (env : Env) (line : Nat) : List Target → List Value → Eval World Unit
  | [], _ => pure ()
  | t :: ts, vs => do
    storeAll env line ts vs.tail
    store env line (firstValue vs) t

def unary (env : Env) (op : UnaryOp) (e : Expr) (v : Value) (line : Nat) : Eval World Value :=
  let site := env.site line .unnamed
  match op with
  | .not => return .bool !v.truth
  | .negate => negate site v (env.designate e)
  | .length => length site v (env.designate e)
  | .complement => complement site v (env.designate e)

def binary (env : Env) (op : BinaryOp) (a b : Expr) (x y : Value) (line : Nat) : Eval World Value :=
  let site := env.site line .unnamed
  match op with
  | .arith op => arith site op x y (env.designate a) (env.designate b)
  | .bit op => bits site op x y (env.designate a) (env.designate b)
  | .compare op => return .bool (← compare site op x y)
  | .concat => concat site x y (env.designate a) (env.designate b)
  | .and | .or => return y

/-- Arithmetic on numbers, which needs nothing but their values. -/
def quick? (op : BinaryOp) (x y : Value) : Option Value :=
  match op, x, y with
  | .arith op, .number m, .number n => (op.apply m n).map .number
  | .compare .less, .number m, .number n => some (.bool (m.lt n))
  | .compare .lessEqual, .number m, .number n => some (.bool (m.le n))
  | .compare .greater, .number m, .number n => some (.bool (n.lt m))
  | .compare .greaterEqual, .number m, .number n => some (.bool (n.le m))
  | .compare .equal, .number m, .number n => some (.bool (m.eq n))
  | .compare .notEqual, .number m, .number n => some (.bool !(m.eq n))
  | _, _, _ => none

/-- Makes variables for names, in order. The last one may be a constant. -/
def declareAll (constant : Bool) : List (Name × Attribute) → List Value → Env → Eval World Env
  | [], _, env => return env
  | (x, a) :: rest, vs, env => do
    let id ← newCell (firstValue vs)
    let place := !(constant && rest.isEmpty && a == .const)
    declareAll constant rest vs.tail (env.bind x id place)

def declareNames : List Name → List Value → Env → Eval World Env
  | [], _, env => return env
  | x :: rest, vs, env => do
    let id ← newCell (firstValue vs)
    declareNames rest vs.tail (env.bind x id)

/-- Whether a value can be given to a variable that is closed. -/
def checkClosable (env : Env) (line : Nat) (x : Name) (v : Value) : Eval World Unit := do
  if v.truth then
    match ← metamethod v "__close" with
    | .nil =>
      errorAt (env.site line .unnamed)
        ("variable '" ++ Text.ofBytesRepaired x ++ "' got a non-closable value")
    | _ => return

/-- Closes a value after a computation, however that ended. An error of the closing replaces that of the
computation. -/
def closeAfter {α : Type} (site : Site) (v : Value) (r : Except Failure α) : Eval World α := do
  if v.truth then
    let e :=
      match r with
      | .ok _ => .nil
      | .error e => failureValue e
    let f ← metamethod v "__close"
    let _ ← callMeta site "close" f [v, e]
  match r with
  | .ok a => return a
  | .error e => fail e

/-- The flow of a statement where no call can be left to the caller. -/
def settleTail : Flow → Eval World Flow
  | .tail f args site => return .return (← callFromScript site f args)
  | flow => return flow

/-- Where a block ends, its variables end. -/
def leaveBlock (env : Env) (mark : Nat) (flow : Flow) : Eval World Flow := do
  dropCells mark
  match flow with
  | .next _ => return .next env
  | flow => return flow

def numberOr (site : Site) (what : String) (v : Value) : Eval World Number :=
  match v.toNumber? with
  | some n => return n
  | none => do
    errorAt site ("bad 'for' " ++ what ++ " (number expected, got " ++ (← typeTitle v) ++ ")")

/-- Starts a counting loop. It counts in integers if it starts with one and steps by one. -/
def startCount (env : Env) (x : Name) (first last step : Value) (body : Block) (line : Nat) :
    Eval World Flow := do
  let site := env.site line .unnamed
  match first, step with
  | .number (.int i), .number (.int d) =>
    if d = 0 then errorAt site "'for' step is zero"
    let last := integerBound d (← numberOr site "limit" last)
    match rounds? i last d with
    | some left => task (.countInt env x i left d body)
    | none => return .next env
  | _, _ =>
    let last := (← numberOr site "limit" last).toFloat
    let step := (← numberOr site "step" step).toFloat
    let first := (← numberOr site "initial value" first).toFloat
    if step == 0 then errorAt site "'for' step is zero"
    if (if 0 < step then last < first else first < last) then return .next env
    else task (.countFloat env x first last step body)

/-- Runs an iterating loop. A fourth value is closed when the loop ends. -/
def startEach (env : Env) (names : List Name) (values : List Value) (body : Block) (line : Nat) :
    Eval World Flow := do
  match adjust 4 values with
  | [f, state, control, closing] =>
    let t : Task := .each env names f state control body line
    if closing.truth then
      checkClosable env line "(for state)".toUTF8 closing
      let r ← protect do settleTail (← task t)
      closeAfter (env.site line .unnamed) closing r
    else task t
  | _ => return .next env

end Eval

open Eval

variable {World : Type}

mutual

/-- The value of an expression; of several values, the first. -/
def evalExpr (env : Env) : Expr → Eval World Value
  | .nil => return .nil
  | .bool b => return .bool b
  | .number n => return .number n
  | .string s => return .string s
  | .varargs => return firstValue env.varargs
  | .function params varargs body =>
    newClosure { params, varargs, body, env := env.inner }
  | .name x line => readName env x line
  | .index object key line => do
    let o ← evalExpr env object
    let k ← evalExpr env key
    index (env.site line .unnamed) (env.designate object) o k
  | .call f args line => do
    let callee ← evalExpr env f
    let values ← evalExprs env args
    return firstValue (← callFromScript (env.site line (env.designate f)) callee values)
  | .method object x args line => do
    let o ← evalExpr env object
    let callee ← index (env.site line .unnamed) (env.designate object) o (.string x)
    let values ← evalExprs env args
    return firstValue (← callFromScript (env.site line (.method x)) callee (o :: values))
  | .unary op e line => do
    let v ← evalExpr env e
    unary env op e v line
  | .binary op a b line => do
    let x ← evalExpr env a
    match op with
    | .and => if x.truth then evalExpr env b else return x
    | .or => if x.truth then return x else evalExpr env b
    | _ =>
      let y ← evalExpr env b
      match quick? op x y with
      | some v => return v
      | none => binary env op a b x y line
  | .paren e => evalExpr env e
  | .table fields line => do
    let (items, pairs) := fieldCounts fields
    let t ← newTable (Table.sized items pairs)
    match t with
    | .ref (.table id) =>
      let values ← evalFields env id line fields
      if !values.isEmpty then
        modify fun s => { s with tables := s.tables.modify id fun t => t.withItems values }
      return t
    | v => return v

/-- Enters the fields of a table with keys, and gives the items. -/
def evalFields (env : Env) (id line : Nat) : List Field → Eval World (List Value)
  | [] => return []
  | [.item .varargs] => return env.varargs
  | [.item (.call f args line)] => do
    let callee ← evalExpr env f
    let values ← evalExprs env args
    callFromScript (env.site line (env.designate f)) callee values
  | [.item (.method object x args line)] => do
    let o ← evalExpr env object
    let callee ← index (env.site line .unnamed) (env.designate object) o (.string x)
    let values ← evalExprs env args
    callFromScript (env.site line (.method x)) callee (o :: values)
  | .item e :: rest => do
    let v ← evalExpr env e
    return v :: (← evalFields env id line rest)
  | .pair key e :: rest => do
    let k ← evalExpr env key
    let v ← evalExpr env e
    setRaw (env.site line .unnamed) id k v
    evalFields env id line rest

/-- The values of expressions; the last one may give any number. -/
def evalExprs (env : Env) : List Expr → Eval World (List Value)
  | [] => return []
  | [.varargs] => return env.varargs
  | [.call f args line] => do
    let callee ← evalExpr env f
    let values ← evalExprs env args
    callFromScript (env.site line (env.designate f)) callee values
  | [.method object x args line] => do
    let o ← evalExpr env object
    let callee ← index (env.site line .unnamed) (env.designate object) o (.string x)
    let values ← evalExprs env args
    callFromScript (env.site line (.method x)) callee (o :: values)
  | e :: rest => do
    let v ← evalExpr env e
    return v :: (← evalExprs env rest)

end

/-- Where an assignment will put its value. -/
def evalTarget (env : Env) : Expr → Eval World Target
  | .index object key _ => do
    let o ← evalExpr env object
    let k ← evalExpr env key
    return .entry o k (env.designate object)
  | .name x line => return .variable x line
  | _ => return .variable environmentName 0

def evalTargets (env : Env) : List Expr → Eval World (List Target)
  | [] => return []
  | e :: rest => do
    let t ← evalTarget env e
    return t :: (← evalTargets env rest)

/-- The results of a function. A single call is left to the caller. -/
def evalReturn (env : Env) : List Expr → Eval World Flow
  | [.call f args line] => do
    let callee ← evalExpr env f
    let values ← evalExprs env args
    return .tail callee values (env.site line (env.designate f))
  | [.method object x args line] => do
    let o ← evalExpr env object
    let callee ← index (env.site line .unnamed) (env.designate object) o (.string x)
    let values ← evalExprs env args
    return .tail callee (o :: values) (env.site line (.method x))
  | es => return .return (← evalExprs env es)

/-- Runs the statements of a block, given as a computation. A block with labels is left to the machine,
which follows the jumps. -/
def runStats (env : Env) (body : Block) (run : Eval World Flow) : Eval World Flow :=
  if hasLabel body then task (.block env body body env.names.length) else run

/-- Runs a block in a scope of its own. -/
def runBlock (env : Env) (body : Block) (run : Eval World Flow) : Eval World Flow := do
  let mark ← look fun s => s.cells.size
  let flow ← runStats env body run
  leaveBlock env mark flow

mutual

def evalStat (env : Env) : Stat → Eval World Flow
  | .declare names values line => do
    let constant :=
      names.length == values.length && (values.getLast?.map isConstant).getD false
    let vs ← evalExprs env values
    let env' ← declareAll constant names vs env
    match names.zipIdx.find? fun n => n.1.2 == .close with
    | some ((x, _), i) =>
      checkClosable env line x (vs[i]?.getD .nil)
      return .next env'
    | none => return .next env'
  | .assign targets values line => do
    match targets, values with
    | [.name x l], [e] =>
      let v ← evalExpr env e
      writeName env x l v
    | _, _ =>
      let ts ← evalTargets env targets
      let vs ← evalExprs env values
      storeAll env line ts vs
    return .next env
  | .call e => do
    let _ ← evalExpr env e
    return .next env
  | .block body => runBlock env body (evalStats env body)
  | .while condition body => task (.while env condition body)
  | .repeat body condition =>
    task (.while env (.bool true) (body ++ [.branch condition [.break] []]))
  | .branch condition yes no => do
    if (← evalExpr env condition).truth then runBlock env yes (evalStats env yes)
    else runBlock env no (evalStats env no)
  | .count x first last step body line => do
    let a ← evalExpr env first
    let b ← evalExpr env last
    let d ← evalExpr env step
    startCount env x a b d body line
  | .each names values body line => do
    let vs ← evalExprs env values
    startEach env names vs body line
  | .localFunction x params varargs body => do
    let id ← newCell .nil
    let env' := env.bind x id
    let f ← newClosure { params, varargs, body, env := env'.inner }
    writeCell id f
    return .next env'
  | .return values => evalReturn env values
  | .break => return .break
  | .goto label => return .goto label env
  | .label _ => return .next env

/-- Statements one after the other. After a variable that is to be closed, the rest is a block of its
own. -/
def evalStats (env : Env) : Block → Eval World Flow
  | [] => return .next env
  | st :: rest => do
    match ← evalStat env st with
    | .next env' =>
      match closing? st with
      | none => evalStats env' rest
      | some x =>
        let v ← readName env' x 0
        let r ← protect do settleTail (← runStats env' rest (evalStats env' rest))
        closeAfter (env.site 0 .unnamed) v r
    | .goto label _ => return .goto label env
    | flow => return flow

end

/-- Runs a block in a scope of its own. -/
def evalBlock (env : Env) (body : Block) : Eval World Flow := runBlock env body (evalStats env body)

end ScriptTools.Guest
