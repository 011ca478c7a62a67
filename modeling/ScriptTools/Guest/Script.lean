import ScriptTools.Guest.Machine
import ScriptTools.Guest.Parser

/-!
Running whole scripts, and what the host learns when one fails.
-/

namespace ScriptTools.Guest

/-- Why a script gave no values. -/
inductive ScriptFault where
  /-- The place in the text and what is wrong there. -/
  | malformed (message : String)
  | deadline
  | memory
  /-- An error of the host that no script caught. -/
  | fault (f : Fault)
  /-- The text of an error of the script. -/
  | error (text : String)
deriving Repr

namespace ScriptFault

/-- A text up to where it tells the calls that led to it. -/
def withoutTrace (s : String) : String := (s.splitOn "\nstack traceback:").headD ""

/-- What the host reports about a fault. -/
def message : ScriptFault → String
  | .malformed message => "syntax error: " ++ message
  | .deadline => Fault.message .deadline
  | .memory => "memory limit exceeded"
  | .fault f => withoutTrace (f.message)
  | .error text => "runtime error: " ++ withoutTrace text

end ScriptFault

open Eval

variable {World : Type}

/-- How often the text of an error may itself end in an error. -/
def errorTextLimit : Nat := 10

/-- What the host learns of a failure. An error value shows its text, up to the first zero byte. -/
def report : Nat → Failure → State World → ScriptFault × State World
  | _, .memory, s => (.memory, s)
  | _, .raised (.ref (.fault id)), s =>
    match s.faults[id]? with
    | some .deadline => (.deadline, s)
    | some f => (.fault f, s)
    | none => (.error "", s)
  | 0, .raised _, s => (.error "C stack overflow", s)
  | n + 1, .raised v, s =>
    match run (textOf v) s with
    | some (.ok bytes, s) =>
      let shown : ByteArray := ⟨(bytes.toList.takeWhile (· != 0)).toArray⟩
      (.error (Text.ofBytesRepaired shown), s)
    | some (.error e, s) => report n e s
    | none => (.deadline, s)

/-- What is wrong with a text that begins as a compiled script does. No text goes on as one, since a byte
of the header is no character. -/
def binaryFault (bytes : List UInt8) : String :=
  let mark := "Lua".toUTF8.toList
  let header := bytes.drop 1
  if header.length < 3 then "truncated chunk"
  else if header.take 3 != mark then "not a binary chunk"
  else
    match header.drop 3 with
    | [] => "truncated chunk"
    | version :: rest =>
      if version != 0x54 then "version mismatch"
      else
        match rest with
        | [] => "truncated chunk"
        | format :: rest =>
          if format != 0 then "format mismatch"
          else if rest.length < 6 then "truncated chunk"
          else "corrupted chunk"

/-- The body of a script. -/
def readScript (script source : String) : Except ScriptFault Block :=
  if source.toList.head? == some '\x1b' then
    .error (.malformed
      (script ++ ": bad binary format (" ++ binaryFault source.toUTF8.toList ++ ")"))
  else
    match compile source with
    | .ok body => .ok body
    | .error (.malformed line message) =>
      .error (.malformed (script ++ ":" ++ toString line ++ ": " ++ message))
    | .error .tooDeep => .error (.error "C stack overflow")

/-- Calls a script as a function without arguments. -/
def callScript (script : String) (body : Block) : Eval World (List Value) := do
  let f ← newClosure { params := [], varargs := true, body, env := { script } }
  call .native f []

/-- Runs a script in a state, and gives its values. -/
def runScript (script source : String) (s : State World) :
    Except ScriptFault (List Value) × State World :=
  match readScript script source with
  | .error e => (.error e, s)
  | .ok body =>
    match run (callScript script body) s with
    | some (.ok values, s) => (.ok values, s)
    | some (.error e, s) =>
      let (fault, s) := report errorTextLimit e s
      (.error fault, s)
    | none => (.error .deadline, s)

end ScriptTools.Guest
