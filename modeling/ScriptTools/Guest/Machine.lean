import ScriptTools.Guest.Bridge
import ScriptTools.Guest.Evaluate
import ScriptTools.Guest.Library

/-!
The machine that does the tasks of a computation. What waits for the end of a task is kept on a stack of
its own, so that the depth of calls is a matter of the state alone. A task either ends or becomes
another one: the next round of a loop, or a call whose results are those of the caller.
-/

namespace ScriptTools.Guest

/-- What a step of a task leads to. -/
inductive Outcome where
  | finished (flow : Flow)
  | again (t : Task)

instance : Inhabited Outcome := ⟨.finished .break⟩

namespace Env

/-- The environment where only the variables are left that were there when it had a given number. -/
def shrink (env : Env) (count : Nat) : Env :=
  { env with names := env.names.drop (env.names.length - count) }

/-- The number after that of the cell of the latest variable of the function. -/
def nextCell? (env : Env) : Option Nat :=
  match env.names with
  | .cell _ id _ :: _ => some (id + 1)
  | _ => none

end Env

/-- How many variables a statement adds to the scope. -/
def declaredCount : Stat → Nat
  | .declare names _ _ => names.length
  | .localFunction .. => 1
  | _ => 0

/-- The statements after a label of a block, and the number of variables declared before it. -/
def afterLabel? (label : Name) : Block → Option (Block × Nat)
  | [] => none
  | st :: rest =>
    match st with
    | .label x => if x == label then some (rest, 0) else afterLabel? label rest
    | st => (afterLabel? label rest).map fun (body, n) => (body, n + declaredCount st)

namespace Eval

variable {World : Type}

def raiseFault {α : Type} (f : Fault) : Eval World α := do error (← newFault f)

def hostArgs (args : List Value) : Eval World (Except Bridge.Defect (List HostValue)) := do
  let values ← args.mapM toHost
  return values.mapM id

/-- Calls a function of the host. Whatever goes wrong is an error of the script. -/
def callHost (h : Host World) (args : List Value) : Eval World (List Value) := do
  match ← hostArgs args with
  | .error d => raiseFault (.bridge d.message)
  | .ok values =>
    let r ← fun s =>
      let (r, world) := h.run values s.world
      .done r { s with world }
    match r with
    | .ok v => return [← ofHost v]
    | .error (.error e) => raiseFault (.host e)
    | .error .panic => raiseFault (.panic h.name)

/-- Runs the body of a function. A call whose results are its own is left to do. -/
def enter (c : Closure) (args : List Value) : Eval World Outcome := do
  tick
  let mark ← look fun s => s.cells.size
  let env ← declareNames c.params args c.env
  let env := { env with varargs := if c.varargs then args.drop c.params.length else [] }
  let flow ← runStats env c.body (evalStats env c.body)
  dropCells mark
  match flow with
  | .return vs => return .finished (.return vs)
  | .tail f@(.ref (.closure _)) args _ => return .again (.apply f args)
  | .tail f args site => return .finished (.return (← call site f args))
  | _ => return .finished (.return [])

/-- Calls a value with arguments. One that is no function is called through its metatable. -/
def apply (f : Value) (args : List Value) : Eval World Outcome := do
  match f with
  | .ref (.closure id) =>
    match ← look fun s => s.closures[id]? with
    | some c => enter c args
    | none => return .finished (.return [])
  | .ref (.builtin b) => return .finished (.return (← b.run args))
  | .ref (.host id) =>
    match ← look fun s => s.hosts[id]? with
    | some h => return .finished (.return (← callHost h args))
    | none => return .finished (.return [])
  | .ref (.search id) => return .finished (.return (← Library.runSearch id))
  | v =>
    match ← metamethod v "__call" with
    | .nil =>
      let site ← Library.here
      let d :=
        match site with
        | .line _ _ d => d
        | .native => .unnamed
      typeFault site "call" v d
    | handler => return .again (.apply handler (v :: args))

/-- Goes on with a loop after a round, unless the round has left it. -/
def nextRound (env : Env) (flow : Flow) (next : Option Task) : Eval World Outcome := do
  match flow with
  | .next _ =>
    tick
    match next with
    | some t => return .again t
    | none => return .finished (.next env)
  | .break => return .finished (.next env)
  | flow => return .finished flow

/-- One round of a loop with a variable. -/
def countRound (env : Env) (x : Name) (v : Value) (body : Block) : Eval World Flow := do
  let mark ← look fun s => s.cells.size
  let id ← newCell v
  let flow ← evalBlock (env.bind x id) body
  leaveBlock env mark flow

/-- One step of a task. -/
def step (t : Task) : Eval World Outcome := do
  match t with
  | .apply f args => apply f args
  | .while env condition body =>
    if (← evalExpr env condition).truth then
      nextRound env (← evalBlock env body) (some t)
    else return .finished (.next env)
  | .countInt env x i left d body =>
    let flow ← countRound env x (.int i) body
    nextRound env flow (if left = 0 then none else some (.countInt env x (i + d) (left - 1) d body))
  | .countFloat env x i last d body =>
    let flow ← countRound env x (.float i) body
    let j := i + d
    let goesOn := if 0 < d then j ≤ last else last ≤ j
    nextRound env flow (if goesOn then some (.countFloat env x j last d body) else none)
  | .each env names iterator state control body line =>
    let values ← callFromScript (env.site line .iterator) iterator [state, control]
    match firstValue values with
    | .nil => return .finished (.next env)
    | control =>
      let mark ← look fun s => s.cells.size
      let inner ← declareNames names values env
      let flow ← leaveBlock env mark (← evalBlock inner body)
      nextRound env flow (some (.each env names iterator state control body line))
  | .block env body rest entry =>
    match ← evalStats env rest with
    | .goto label env' =>
      match afterLabel? label body with
      | none => return .finished (.goto label env')
      | some (rest, declared) =>
        let env := env'.shrink (entry + declared)
        if let some mark := env.nextCell? then dropCells mark
        return .again (.block env body rest entry)
    | flow => return .finished flow

/-- What waits for the end of a task. -/
abbrev Frame (World : Type) := Except Failure Flow → State World → Progress World Outcome

/-- Does a task with all that it asks for, under the frames that wait for it. The count bounds the
steps. -/
def drive : Nat → Progress World Outcome → List (Frame World) →
    Option (Except Failure Flow × State World)
  | 0, _, _ => none
  | n + 1, .call t s resume, frames => drive n (step t s) (resume :: frames)
  | n + 1, .done (.again t) s, frames => drive n (step t s) frames
  | n + 1, .done (.finished flow) s, frames =>
    match frames with
    | [] => some (.ok flow, s)
    | frame :: frames => drive n (frame (.ok flow) s) frames
  | n + 1, .raise e s, frames =>
    match frames with
    | [] => some (.error e, s)
    | frame :: frames => drive n (frame (.error e) s) frames

/-- More steps than any script can take in its time. -/
def stepLimit : Nat := Nat.pow 2 62

/-- Does all that a computation asks for. -/
def finish {α : Type} : Progress World α → Option (Except Failure α × State World)
  | .done a s => some (.ok a, s)
  | .raise e s => some (.error e, s)
  | .call t s resume =>
    match drive stepLimit (step t s) [] with
    | some (r, s) => finish (resume r s)
    | none => none

/-- Runs a computation to its end. -/
def run {α : Type} (m : Eval World α) (s : State World) : Option (Except Failure α × State World) :=
  finish (m s)

end Eval

end ScriptTools.Guest
