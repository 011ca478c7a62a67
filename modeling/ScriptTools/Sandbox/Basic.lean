import ScriptTools.Guest.Script
import ScriptTools.RunError
import ScriptTools.Sandbox.Limits

/-!
A sandbox: the state of one run of a script and the limits that hold for it. Scripts find the libraries
of the base, of strings, tables, mathematics and UTF-8, and what the host binds; nothing in these loads
code or reaches the system.
-/

namespace ScriptTools

structure Sandbox (World : Type) where
  limits : Limits
  state : Guest.State World

/-- What is done in a sandbox, and may fail. -/
abbrev Sandboxed (World : Type) := ExceptT RunError (StateM (Sandbox World))

namespace Sandbox

variable {World : Type}

/-- Nothing may run when a value is given up, since no deadline would be noticed there. -/
def guardPrelude : String := "
local raw_setmetatable, rawget, type, error = setmetatable, rawget, type, error
setmetatable = function(t, mt)
  if type(mt) == \"table\" and rawget(mt, \"__gc\") ~= nil then
    error(\"__gc metamethods are not available\", 2)
  end
  return raw_setmetatable(t, mt)
end
"

/-- What a state takes up before anything has run in it. -/
def emptyBytes : Nat := 22000

/-- The steps that a script can take in a span of time. -/
def stepsIn (d : Duration) : Nat := d.nanos * Guest.stepsPerMicrosecond / 1000

/-- A new sandbox around a world. The limits hold from here on. -/
def create (limits : Limits) (world : World) : Sandbox World :=
  let s := (Guest.runScript "guard" guardPrelude (Guest.State.initial world)).2
  { limits
    state :=
      { s with
        memory := { s.memory with limit := limits.cap?.map (· - emptyBytes) }
        clock := { deadline := limits.deadline.map stepsIn } } }

/-- A new sandbox whose time begins to count now. -/
def start (limits : Limits) (now : Instant) (world : World) : Option (Sandbox World) :=
  (limits.expiry? now).map fun _ => create limits world

/-- Runs a computation of the guest; its failures are those of setting up. -/
def perform (m : Guest.Eval World Unit) : Sandboxed World Unit := do
  let b ← get
  match Guest.Eval.run m b.state with
  | some (.ok (), state) => set { b with state }
  | some (.error e, state) =>
    let (fault, state) := Guest.report Guest.errorTextLimit e state
    set { b with state }
    throw (.setup fault.message)
  | none => throw (.setup (Guest.ScriptFault.message .deadline))

/-- Gives scripts a global value. -/
def assign (name : String) (v : Guest.Value) : Guest.Eval World Unit := do
  let globals ← Guest.Eval.look fun s => Guest.Value.table s.globals
  Guest.Eval.setIndex .native .unnamed globals (.text name) v

/-- Gives scripts a function of the host as a global. -/
def bind (h : Guest.Host World) : Sandboxed World Unit :=
  perform do
    Guest.Eval.allocate 64
    let f ← fun s => .done (.ref (.host s.hosts.size)) { s with hosts := s.hosts.push h }
    assign h.name f

def setGlobal (name : String) (v : HostValue) : Sandboxed World Unit :=
  perform do assign name (← Guest.ofHost v)

/-- Runs a script of the host. -/
def exec (script source : String) : Sandboxed World Unit := do
  let b ← get
  let (r, state) := Guest.runScript script source b.state
  set { b with state }
  match r with
  | .ok _ => return
  | .error fault => throw (.setup (script ++ ": " ++ fault.message))

/-- The name that the script of a tool has in messages. -/
def scriptName : String := "needle"

/-- What a fault of a tool's script means for the run. -/
def faultError (limits : Limits) : Guest.ScriptFault → RunError
  | .malformed message => .malformed message
  | .deadline =>
    match limits.deadline with
    | some limit => .timeout limit
    | none => .failed (Guest.ScriptFault.message .deadline)
  | fault => .failed fault.message

/-- The most bytes of a value that a message shows, and where a longer one is cut off. -/
def shownBytes : Nat := 64

def cutBytes : Nat := 61

/-- The characters at the front of a text that take up at most a number of bytes. -/
def takeBytes : Nat → List Char → List Char
  | _, [] => []
  | n, c :: rest => if c.utf8Size ≤ n then c :: takeBytes (n - c.utf8Size) rest else []

/-- A value as a message shows it, with its type. -/
def describe (v : HostValue) : String :=
  let text := v.text
  let shown :=
    if shownBytes < text.utf8ByteSize then String.ofList (takeBytes cutBytes text.toList) ++ "..."
    else text
  v.typeName ++ " (" ++ shown ++ ")"

/-- The result of a script as a value of the declared type; none for `nil`. -/
def result (type : ScalarType) : Except Guest.Bridge.Defect HostValue →
    Except RunError (Option Scalar)
  | .error d => .error (.mismatch type d.message)
  | .ok .nil => .ok none
  | .ok v =>
    match v.scalar? type with
    | some a => .ok (some a)
    | none => .error (.mismatch type (describe v))

/-- Runs a script and reads its first value as one of a declared type. -/
def evaluate (type : ScalarType) (source : String) : Sandboxed World (Option Scalar) := do
  let b ← get
  let (r, state) := Guest.runScript scriptName source b.state
  set { b with state }
  match r with
  | .error fault => throw (faultError b.limits fault)
  | .ok values =>
    match Guest.Eval.run (Guest.toHost (Guest.firstValue values)) state with
    | some (.ok v, _) => liftExcept (result type v)
    | _ => return none
where
  liftExcept {α : Type} (r : Except RunError α) : Sandboxed World α :=
    match r with
    | .ok a => return a
    | .error e => throw e

end Sandbox

end ScriptTools
