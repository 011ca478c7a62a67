import ScriptTools.Capability.Files
import ScriptTools.Capability.Log
import ScriptTools.Capability.Network

/-!
What the host lets scripts do beyond computing.
-/

namespace ScriptTools

inductive Capability where
  | files (a : Files.Access)
  | network (a : Web.WebAccess)
  | log (keep : Bool)

namespace Capability

/-- The name of the table that scripts find. -/
def name : Capability → String
  | .files _ => "fs"
  | .network _ => "network"
  | .log _ => "log"

def install : Capability → Sandboxed World Unit
  | .files a => Files.install a
  | .network a => Network.install a
  | .log keep => Log.install keep

end Capability

end ScriptTools
