import ScriptTools.Proofs.Json.Reading
import ScriptTools.Proofs.Rpc.Framing
import ScriptTools.Rpc.Server

/-!
What a server writes for a stream: the answers to its lines in their order, each as one line of JSON.
-/

namespace ScriptTools.Rpc

namespace RpcResponse

/-- The text of a response is JSON. -/
theorem read?_text (r : RpcResponse) : Json.Document.read? r.text = some r.toJson.document :=
  Json.Document.read?_compact _

end RpcResponse

namespace Server

variable (server : Server)

/-- The answer to the bytes of one line. -/
def answer (line : List UInt8) (w : World) : Option RpcResponse × World :=
  if lineLimit < line.length then (some ⟨none, .error (.tooLong lineLimit)⟩, w)
  else server.handleLine (Text.ofBytesRepaired ⟨line.toArray⟩) w

/-- The answers to lines, each given in the world that the lines before leave. -/
def answers : List (List UInt8) → World → List RpcResponse × World
  | [], w => ([], w)
  | line :: rest, w =>
    let (first, w) := server.answer line w
    let (later, w) := answers rest w
    (first.toList ++ later, w)

end Server

end ScriptTools.Rpc
