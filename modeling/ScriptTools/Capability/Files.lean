import ScriptTools.Capability.Parameter
import ScriptTools.Files.Access
import ScriptTools.Sandbox.Basic
import ScriptTools.World

/-!
Scripts read and write files through the table `fs`.
-/

namespace ScriptTools.Capability

open Guest (Host HostFailure)

/-- The answer of a function that is a result of the host. -/
def answer {World α : Type} (f : α → HostValue) (world : World) (r : Except HostError α) :
    Except HostFailure HostValue × World :=
  match r with
  | .ok a => (.ok (f a), world)
  | .error e => (.error (.error e), world)

namespace Files

variable (a : ScriptTools.Files.Access)

def read : Host World where
  name := "__fs_read"
  run args w := answer (fun t => (t.map HostValue.str).getD .nil) w do
    a.read w.disk (← textArg "fs.read" args 0)

def write : Host World where
  name := "__fs_write"
  run args w :=
    match textArg "fs.write" args 0, textArg "fs.write" args 1 with
    | .error e, _ | _, .error e => (.error (.error e), w)
    | .ok path, .ok content =>
      let (disk, r) := a.write w.disk path content
      answer .bool { w with disk } r

def delete : Host World where
  name := "__fs_delete"
  run args w :=
    match textArg "fs.delete" args 0 with
    | .error e => (.error (.error e), w)
    | .ok path =>
      let (disk, r) := a.delete w.disk path
      answer .bool { w with disk } r

def isThere : Host World where
  name := "__fs_exists"
  run args w := answer .bool w do a.exists? w.disk (← textArg "fs.exists" args 0)

def list : Host World where
  name := "__fs_list"
  run args w := answer (fun names => .list (names.map .str)) w do
    a.list w.disk (← textArg "fs.list" args 0)

def prelude : String := "
local read, write, delete, exists, list = __fs_read, __fs_write, __fs_delete, __fs_exists, __fs_list
__fs_read, __fs_write, __fs_delete, __fs_exists, __fs_list = nil, nil, nil, nil, nil
fs = \x7b
  read = function(path) return read(path) end,
  write = function(path, content) return write(path, content) end,
  delete = function(path) return delete(path) end,
  exists = function(path) return exists(path) end,
  list = function(path) return list(path or \".\") end,
\x7d
"

def install : Sandboxed World Unit := do
  Sandbox.bind (read a)
  Sandbox.bind (write a)
  Sandbox.bind (delete a)
  Sandbox.bind (isThere a)
  Sandbox.bind (list a)
  Sandbox.exec "fs" prelude

end Files

end ScriptTools.Capability
