import ScriptTools.Duration
import ScriptTools.Policy.Basic

/-!
What can go wrong in a function of the host that a script calls.
-/

namespace ScriptTools

inductive HostError where
  | denied (reason : String)
  | escape (path : String)
  | invalidArgument (reason : String)
  | timeout (limit : Duration)
  | network (reason : String)
  | unavailable (reason : String)
deriving DecidableEq, Repr

namespace HostError

def message : HostError → String
  | .denied reason => "capability denied: " ++ reason
  | .escape path => "path escapes the sandbox root: " ++ path
  | .invalidArgument reason => "invalid argument: " ++ reason
  | .timeout limit => "request timed out after " ++ limit.text
  | .network reason => "network error: " ++ reason
  | .unavailable reason => "unavailable: " ++ reason

end HostError

/-- Refuses a request that the policy does not allow. -/
def Policy.require (p : Policy) (r : Request) : Except HostError Unit :=
  match p.check r with
  | .ok () => .ok ()
  | .error d => .error (.denied d.reason)

end ScriptTools
