import ScriptTools.Sandbox.Basic
import ScriptTools.World

/-!
Scripts write log entries through the table `log`, and through `print`.
-/

namespace ScriptTools.Capability.Log

open Guest (Host)

/-- What the arguments of a script say: a letter for the level, a tag, a message and perhaps a cause. -/
def entryOf (args : List HostValue) : Except HostError LogEntry :=
  let code := (args.head?.bind HostValue.str?).getD ""
  let text (i : Nat) : String := (args[i]?.map HostValue.text).getD "nil"
  let cause :=
    match args[3]? with
    | none | some .nil => none
    | some v => some v.text
  match LogLevel.ofCode? code with
  | some level => .ok { level, tag := text 1, message := text 2, cause }
  | none => .error (.invalidArgument ("unknown log level '" ++ code ++ "'"))

/-- The function that writes an entry; it is kept with the others or passed over. -/
def write (keep : Bool) : Host World where
  name := "__log_write"
  run args w :=
    match entryOf args with
    | .ok entry => (.ok .nil, if keep then { w with logs := entry :: w.logs } else w)
    | .error e => (.error (.error e), w)

def prelude : String := "
local write = __log_write
__log_write = nil
log = \x7b
  d = function(tag, message, cause) write(\"d\", tag, message, cause) end,
  i = function(tag, message, cause) write(\"i\", tag, message, cause) end,
  w = function(tag, message, cause) write(\"w\", tag, message, cause) end,
  e = function(tag, message, cause) write(\"e\", tag, message, cause) end,
\x7d
function print(...)
  local parts = \x7b\x7d
  for i = 1, select(\"#\", ...) do
    parts[#parts + 1] = tostring((select(i, ...)))
  end
  write(\"i\", \"print\", table.concat(parts, \"\\t\"))
end
"

def install (keep : Bool) : Sandboxed World Unit := do
  Sandbox.bind (write keep)
  Sandbox.exec "log" prelude

end ScriptTools.Capability.Log
