import ScriptTools.Capability.Files
import ScriptTools.Web.Client

/-!
Scripts send requests through the table `network`.
-/

namespace ScriptTools.Capability.Network

open Guest (Host)

variable (a : Web.WebAccess)

def get : Host World where
  name := "__network_get"
  run args w :=
    let call := "network.get"
    match textArg call args 0, textTableArg call args 1 with
    | .error e, _ | _, .error e => (.error (.error e), w)
    | .ok url, .ok headers =>
      let (network, r) := a.get w.network url headers
      answer id { w with network } r

def post : Host World where
  name := "__network_post"
  run args w :=
    let call := "network.post"
    match textArg call args 0, textTableArg call args 2 with
    | .error e, _ | _, .error e => (.error (.error e), w)
    | .ok url, .ok headers =>
      let (network, r) := a.post w.network url (args[1]?.getD .nil) headers
      answer id { w with network } r

def prelude : String := "
local get, post = __network_get, __network_post
__network_get, __network_post = nil, nil
network = \x7b
  get = function(url, headers) return get(url, headers) end,
  post = function(url, body, headers) return post(url, body, headers) end,
\x7d
"

def install : Sandboxed World Unit := do
  Sandbox.bind (get a)
  Sandbox.bind (post a)
  Sandbox.exec "network" prelude

end ScriptTools.Capability.Network
