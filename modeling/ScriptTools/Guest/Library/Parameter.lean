import ScriptTools.Guest.Operation

/-!
How the functions of the libraries read their arguments.
-/

namespace ScriptTools.Guest.Library

open Eval

variable {World α : Type}

/-- The place that the function under way was called from. -/
def here : Eval World Site := look fun s => s.sites.headD .native

/-- An error of the function under way. -/
def fault (message : String) : Eval World α := do errorAt (← here) message

/-- An error about an argument. It names the function as the script does, and does not count the object
of a method call. -/
def badArgument (b : Builtin) (i : Nat) (message : String) : Eval World α := do
  match ← here with
  | .line _ _ (.method x) =>
    let name := Text.ofBytesRepaired x
    if i = 1 then fault ("calling '" ++ name ++ "' on bad self (" ++ message ++ ")")
    else fault ("bad argument #" ++ toString (i - 1) ++ " to '" ++ name ++ "' (" ++ message ++ ")")
  | .line _ _ d =>
    fault ("bad argument #" ++ toString i ++ " to '" ++ d.name?.getD b.name ++ "' (" ++ message ++ ")")
  | .native => fault ("bad argument #" ++ toString i ++ " to '" ++ b.name ++ "' (" ++ message ++ ")")

def arg? (args : List Value) (i : Nat) : Option Value := args[i - 1]?

def arg (args : List Value) (i : Nat) : Value := (arg? args i).getD .nil

/-- An error about the type of an argument. -/
def wrongType (b : Builtin) (args : List Value) (i : Nat) (expected : String) : Eval World α := do
  let found ←
    match arg? args i with
    | some v => typeTitle v
    | none => pure "no value"
  badArgument b i (expected ++ " expected, got " ++ found)

def check (b : Builtin) (i : Nat) (p : Bool) (message : String) : Eval World Unit :=
  if p then return else badArgument b i message

def anyArg (b : Builtin) (args : List Value) (i : Nat) : Eval World Value :=
  match arg? args i with
  | some v => return v
  | none => badArgument b i "value expected"

def tableArg (b : Builtin) (args : List Value) (i : Nat) : Eval World Nat :=
  match arg? args i with
  | some (.ref (.table id)) => return id
  | _ => wrongType b args i "table"

def numberArg (b : Builtin) (args : List Value) (i : Nat) : Eval World Number :=
  match (arg args i).toNumber? with
  | some n => return n
  | none => wrongType b args i "number"

def floatArg (b : Builtin) (args : List Value) (i : Nat) : Eval World Float := do
  return (← numberArg b args i).toFloat

def intArg (b : Builtin) (args : List Value) (i : Nat) : Eval World Int64 := do
  match (← numberArg b args i).toInt? with
  | some n => return n
  | none => badArgument b i "number has no integer representation"

def isMissing (args : List Value) (i : Nat) : Bool := (arg args i).isNil

def optInt (b : Builtin) (args : List Value) (i : Nat) (default : Int64) : Eval World Int64 :=
  if isMissing args i then return default else intArg b args i

def stringArg (b : Builtin) (args : List Value) (i : Nat) : Eval World ByteArray :=
  match (arg args i).joined? with
  | some s => return s
  | none => wrongType b args i "string"

def optString (b : Builtin) (args : List Value) (i : Nat) (default : ByteArray) :
    Eval World ByteArray :=
  if isMissing args i then return default else stringArg b args i

def isFunction : Value → Bool
  | .ref (.table _) | .ref (.fault _) => false
  | .ref _ => true
  | _ => false

def functionArg (b : Builtin) (args : List Value) (i : Nat) : Eval World Value :=
  if isFunction (arg args i) then return arg args i else wrongType b args i "function"

/-- The results of calling a function from within another. -/
def callBack (f : Value) (args : List Value) : Eval World (List Value) := call .native f args

end ScriptTools.Guest.Library
