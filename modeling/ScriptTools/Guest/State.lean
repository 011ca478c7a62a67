import ScriptTools.Guest.Syntax
import ScriptTools.Guest.Table
import ScriptTools.HostError
import ScriptTools.HostValue
import ScriptTools.Text.Utf8

/-!
The state of a running script: its tables, variables and functions, the functions of the host that it
may call, the world that those act on, and what it has used up.
-/

namespace ScriptTools.Guest

/-- What stands for a name: a cell of the state, and the border to the variables of the function
around. A variable without a place of its own is a constant that is known beforehand. -/
inductive Variable where
  | cell (x : Name) (id : Nat) (place : Bool)
  | border

/-- Where a piece of code runs: the visible variables, latest first, the further arguments of the
function, and the name of the script in messages. -/
structure Env where
  names : List Variable := []
  varargs : List Value := []
  script : String

structure Closure where
  params : List Name
  varargs : Bool
  body : Block
  env : Env

/-- How code names a value that it uses. -/
inductive Designation where
  | global (x : Name)
  | «local» (x : Name)
  | upvalue (x : Name)
  | field (x : Name)
  | method (x : Name)
  | constant (x : Name)
  | iterator
  | metamethod (event : String)
  | unnamed
deriving Inhabited

namespace Designation

def quoted (kind : String) (x : Name) : String :=
  " (" ++ kind ++ " '" ++ Text.ofBytesRepaired x ++ "')"

/-- The remark in a message about a value. -/
def remark : Designation → String
  | .global x => quoted "global" x
  | .local x => quoted "local" x
  | .upvalue x => quoted "upvalue" x
  | .field x => quoted "field" x
  | .method x => quoted "method" x
  | .constant x => quoted "constant" x
  | .iterator => " (for iterator 'for iterator')"
  | .metamethod event => " (metamethod '" ++ event ++ "')"
  | .unnamed => ""

/-- The name of a function that is called so. -/
def name? : Designation → Option String
  | .global x | .local x | .upvalue x | .field x | .method x | .constant x =>
    some (Text.ofBytesRepaired x)
  | .iterator => some "for iterator"
  | .metamethod event => some event
  | .unnamed => none

end Designation

/-- A place from which a function was called: a line of a script, or a function that is no script. -/
inductive Site where
  | line (script : String) (n : Nat) (callee : Designation)
  | native
deriving Inhabited

/-- The place at the front of a message. -/
def Site.prefixText : Site → String
  | .line script n _ => script ++ ":" ++ toString n ++ ": "
  | .native => ""

/-- An error that a script can catch but not look into. -/
inductive Fault where
  | host (e : HostError)
  /-- A value that cannot pass between script and host. -/
  | bridge (reason : String)
  | panic (name : String)
  | deadline
deriving DecidableEq, Repr

def Fault.message : Fault → String
  | .host e => e.message
  | .bridge reason => reason
  | .panic name => "runtime error: host function '" ++ name ++ "' panicked"
  | .deadline => "invocation deadline exceeded"

/-- Why a function of the host gives no value. -/
inductive HostFailure where
  | error (e : HostError)
  | panic
deriving DecidableEq, Repr

/-- A function of the host, which may act on the world. -/
structure Host (World : Type) where
  name : String
  run : List HostValue → World → Except HostFailure HostValue × World

/-- What ends a computation early: an error value, or the end of the memory. -/
inductive Failure where
  | raised (v : Value)
  | memory
deriving Inhabited

/-- What guards a computation against errors: a call that catches them, with or without a handler. -/
inductive Guard where
  | plain
  | handler (f : Value)

/-- What a statement leads to. -/
inductive Flow where
  | next (env : Env)
  | break
  | goto (label : Name) (env : Env)
  | return (values : List Value)
  /-- A call whose results are those of the function. -/
  | tail (f : Value) (args : List Value) (site : Site)

instance : Inhabited Flow := ⟨.break⟩

/-- A search that goes on from where it stopped. -/
structure Search where
  subject : ByteArray
  pattern : ByteArray
  position : Nat
  /-- Where the latest match ended. -/
  last : Option Nat

/-- What remains to be computed: a call, or the next round of a loop. -/
inductive Task where
  | apply (f : Value) (args : List Value)
  | while (env : Env) (condition : Expr) (body : Block)
  /-- The rounds that are left after the one with the given value. -/
  | countInt (env : Env) (x : Name) (i : Int64) (left : Nat) (step : Int64) (body : Block)
  | countFloat (env : Env) (x : Name) (i last step : Float) (body : Block)
  | each (env : Env) (names : List Name) (iterator state control : Value) (body : Block) (line : Nat)
  /-- Statements from one place of a block on; jumps to its labels stay in it. The number is that of the
  variables that are visible where the block starts. -/
  | block (env : Env) (body rest : Block) (entry : Nat)

/-- Time as it passes for a script: steps, the number at which it is over, and whether that was noticed.
While a handler of the deadline runs, nothing is noticed. -/
structure Clock where
  steps : Nat := 0
  deadline : Option Nat := none
  expired : Bool := false
  paused : Bool := false

structure Memory where
  used : Nat := 0
  limit : Option Nat := none

structure State (World : Type) where
  world : World
  tables : Array Table
  cells : Array Value := #[]
  closures : Array Closure := #[]
  hosts : Array (Host World) := #[]
  searches : Array Search := #[]
  faults : Array Fault := #[]
  /-- The table of global variables. -/
  globals : Nat
  /-- The metatable of strings. -/
  stringMeta : Nat
  clock : Clock := {}
  memory : Memory := {}
  /-- The places that the functions under way were called from, latest first. -/
  sites : List Site := []
  guards : List Guard := []
  /-- How many functions are under way, and how many of them were called by no script. -/
  depth : Nat := 0
  nested : Nat := 0
  /-- Cells below this number may be used by a function. -/
  pinned : Nat := 0
  /-- The state of the random numbers. -/
  random : UInt64 × UInt64 × UInt64 × UInt64 := (0, 0, 0, 0)

/-- A computation under way: it is done, has failed, or needs a task done before it goes on. -/
inductive Progress (World α : Type) where
  | done (a : α) (s : State World)
  | raise (e : Failure) (s : State World)
  | call (t : Task) (s : State World)
      (resume : Except Failure Flow → State World → Progress World α)

namespace Progress

variable {World α β : Type}

def bind (f : α → State World → Progress World β) : Progress World α → Progress World β
  | .done a s => f a s
  | .raise e s => .raise e s
  | .call t s resume => .call t s fun r s => bind f (resume r s)

/-- Makes failures results. -/
def protect : Progress World α → Progress World (Except Failure α)
  | .done a s => .done (.ok a) s
  | .raise e s => .done (.error e) s
  | .call t s resume => .call t s fun r s => protect (resume r s)

end Progress

/-- A computation of a script. -/
def Eval (World α : Type) := State World → Progress World α

namespace Eval

variable {World α β : Type}

@[inline] protected def pure (a : α) : Eval World α := fun s => .done a s

@[inline] protected def bind (m : Eval World α) (f : α → Eval World β) : Eval World β := fun s =>
  match m s with
  | .done a s => f a s
  | p => p.bind f

instance : Monad (Eval World) where
  pure := Eval.pure
  bind := Eval.bind

@[inline] def get : Eval World (State World) := fun s => .done s s

@[inline] def modify (f : State World → State World) : Eval World Unit := fun s => .done () (f s)

/-- Looks at the state. -/
@[inline] def look (f : State World → α) : Eval World α := fun s => .done (f s) s

/-- Ends the computation without asking a handler. -/
def fail (e : Failure) : Eval World α := fun s => .raise e s

/-- Makes failures results. -/
def protect (m : Eval World α) : Eval World (Except Failure α) := fun s => (m s).protect

/-- Has a task done. -/
def task (t : Task) : Eval World Flow := fun s =>
  .call t s fun r s =>
    match r with
    | .ok flow => .done flow s
    | .error e => .raise e s

end Eval

end ScriptTools.Guest
