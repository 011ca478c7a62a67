import ScriptTools.Guest.Memory

/-!
Errors, calls and the passing of time. An error meets the handler that guards the computation before
anything is left, and the deadline is noticed at calls, at returns and in every round of a loop.
-/

namespace ScriptTools.Guest

/-- How deep functions that no script calls may be nested before an error, and before errors are no
longer handled. -/
def nestedLimit : Nat := 200

def handledLimit : Nat := 220

/-- How many functions may be under way. -/
def depthLimit : Nat := 180000

/-- The steps that a script takes in a microsecond. -/
def stepsPerMicrosecond : Nat := 25

/-- The deadline is looked at whenever this many steps have passed. -/
def checkInterval : Nat := 256

/-- The first of some results. -/
def firstValue (vs : List Value) : Value := vs.headD .nil

def Flow.values : Flow → List Value
  | .return vs => vs
  | _ => []

/-- Whether a call goes through a function that is no script. -/
def Site.isNested : Site → Bool
  | .native => true
  | .line _ _ .iterator | .line _ _ (.metamethod _) => true
  | _ => false

namespace Eval

variable {World α : Type}

/-- Calls a function from a place. What the call changes about where the script is, is taken back when
it ends. -/
def perform (site : Site) (f : Value) (args : List Value) : Eval World (List Value) := fun s =>
  let sites := s.sites
  let depth := s.depth
  let nested := s.nested
  let s :=
    { s with
      sites := site :: sites
      depth := depth + 1
      nested := if site.isNested then nested + 1 else nested }
  .call (.apply f args) s fun r s =>
    let s := { s with sites, depth, nested }
    match r with
    | .ok flow => .done flow.values s
    | .error e => .raise e s

/-- Ends the computation with an error value. A handler sees it first and may replace it. -/
def error (v : Value) : Eval World α := fun s =>
  match s.guards with
  | .handler h :: _ =>
    if handledLimit ≤ s.nested then .raise (.raised (.text "error in error handling")) s
    else (do fail (.raised (firstValue (← perform .native h [v]))) : Eval World α) s
  | _ => .raise (.raised v) s

/-- An error at a place. -/
def errorAt (site : Site) (message : String) : Eval World α :=
  error (.text (site.prefixText ++ message))

/-- Calls a function, as long as not too many are under way. -/
def call (site : Site) (f : Value) (args : List Value) : Eval World (List Value) := fun s =>
  if site.isNested && s.nested + 1 == nestedLimit then errorAt site "C stack overflow" s
  else if site.isNested && handledLimit ≤ s.nested then
    .raise (.raised (.text "error in error handling")) s
  else if s.depth == depthLimit then errorAt site "stack overflow" s
  else perform site f args s

/-- The error of the deadline. Time stands still while a handler sees it. -/
def deadlineError : Eval World α := do
  let v ← newFault .deadline
  modify fun s => { s with clock := { s.clock with paused := true } }
  let r ← protect (error v : Eval World α)
  modify fun s => { s with clock := { s.clock with paused := false } }
  match r with
  | .ok a => return a
  | .error e => fail e

/-- Lets a step pass. Once the deadline was noticed, every step fails. -/
def tick : Eval World Unit := fun s =>
  if s.clock.paused then .done () s
  else if s.clock.expired then deadlineError s
  else
    match s.clock.deadline with
    | none => .done () s
    | some d =>
      let steps := s.clock.steps + 1
      if steps % checkInterval == 0 && d ≤ steps then
        deadlineError { s with clock := { s.clock with steps, expired := true } }
      else .done () { s with clock := { s.clock with steps } }

/-- Calls a function from a script; time passes when it returns. -/
def callFromScript (site : Site) (f : Value) (args : List Value) : Eval World (List Value) := do
  let r ← call site f args
  tick
  return r

/-! Metamethods -/

def metatable? (v : Value) : Eval World (Option Nat) :=
  match v with
  | .ref (.table id) => lookTable id fun t => t.metatable
  | .string _ => look fun s => some s.stringMeta
  | _ => return none

/-- The value that the metatable of a value has for an event. -/
def metamethod (v : Value) (event : String) : Eval World Value := do
  match ← metatable? v with
  | some m => rawGetText m event
  | none => return .nil

/-- The name of the type of a value in messages, which a metatable may give. -/
def typeTitle (v : Value) : Eval World String := do
  match v with
  | .ref (.table _) =>
    match ← metamethod v "__name" with
    | .string s => return Text.ofBytesRepaired s
    | _ => return v.typeName
  | _ => return v.typeName

/-- Calls the metamethod of an event, from a script or from within another function. -/
def callMeta (site : Site) (event : String) (f : Value) (args : List Value) : Eval World Value := do
  match site with
  | .native => return firstValue (← call .native f args)
  | .line script n _ => return firstValue (← callFromScript (.line script n (.metamethod event)) f args)

/-- An error about a value of the wrong type. -/
def typeFault (site : Site) (action : String) (v : Value) (d : Designation) : Eval World α := do
  errorAt site ("attempt to " ++ action ++ " a " ++ (← typeTitle v) ++ " value" ++ d.remark)

end Eval

end ScriptTools.Guest
