import ScriptTools.Files.Disk
import ScriptTools.Web.Client

/-!
What the functions of the host act on.
-/

namespace ScriptTools

inductive LogLevel where
  | debug
  | info
  | warn
  | error
deriving DecidableEq, Repr

namespace LogLevel

def name : LogLevel → String
  | .debug => "debug"
  | .info => "info"
  | .warn => "warn"
  | .error => "error"

/-- The level that a script means by a letter. -/
def ofCode? : String → Option LogLevel
  | "d" => some .debug
  | "i" => some .info
  | "w" => some .warn
  | "e" => some .error
  | _ => none

end LogLevel

structure LogEntry where
  level : LogLevel
  tag : String
  message : String
  cause : Option String
deriving DecidableEq, Repr

/-- The disk, the network, and what scripts have logged, latest first. -/
structure World where
  disk : Files.Disk := {}
  network : Web.Network := {}
  logs : List LogEntry := []

end ScriptTools
