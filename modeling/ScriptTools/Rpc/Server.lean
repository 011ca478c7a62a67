import ScriptTools.Executor
import ScriptTools.Rpc.Framing
import ScriptTools.Rpc.Message
import ScriptTools.Tool.Schema
import ScriptTools.Tool.Store

/-!
A server that offers every tool of a store. Requests come one a line and are answered in order; a tool
that fails is an answer like any other, which says so.
-/

namespace ScriptTools.Rpc

def protocolVersion : String := "2024-11-05"

def serverName : String := "needle"

def serverVersion : String := "0.1.0"

/-- What a client tells of itself. -/
structure ClientInfo where
  name : String
  version : Option String

namespace ClientInfo

def typeName : String := "ClientInfo"

def read : Json → Shaped ClientInfo
  | .obj fields => do
    let name ← (fields.lookup "name").mapM readString
    let version ← optionalMember (readOption readString) (fields.lookup "version")
    let name ← fieldMember "name" name
    pure { name, version }
  | .arr items => do
    let name ← itemMember readString typeName 2 0 items[0]?
    let version ← optionalMember (readOption readString) items[1]?
    checkLength items 2
    pure { name, version }
  | v => .error (.wrongType v ("struct " ++ typeName))

end ClientInfo

/-- The parameters of a client's first request. All may be left out. -/
structure InitializeParams where
  protocolVersion : Option String := none
  clientInfo : Option ClientInfo := none

namespace InitializeParams

def typeName : String := "InitializeParams"

def read : Json → Shaped InitializeParams
  | .null => .ok {}
  | .obj fields => do
    let clientInfo ← optionalMember (readOption ClientInfo.read) (fields.lookup "clientInfo")
    let protocolVersion ← optionalMember (readOption readString) (fields.lookup "protocolVersion")
    pure { protocolVersion, clientInfo }
  | .arr items => do
    let protocolVersion ← optionalMember (readOption readString) items[0]?
    let clientInfo ← optionalMember (readOption ClientInfo.read) items[1]?
    checkLength items 2
    pure { protocolVersion, clientInfo }
  | v => .error (.wrongType v ("struct " ++ typeName))

end InitializeParams

/-- The parameters of a call: the name of a tool, and arguments that may be left out. -/
structure CallParams where
  name : String
  arguments : List (String × Json)

namespace CallParams

def typeName : String := "CallToolParams"

def read : Json → Shaped CallParams
  | .obj fields => do
    let arguments ← optionalMember (readOption readFields) (fields.lookup "arguments")
    let name ← (fields.lookup "name").mapM readString
    let name ← fieldMember "name" name
    pure { name, arguments := arguments.getD [] }
  | .arr items => do
    let name ← itemMember readString typeName 2 0 items[0]?
    let arguments ← optionalMember (readOption readFields) items[1]?
    checkLength items 2
    pure { name, arguments := arguments.getD [] }
  | v => .error (.wrongType v ("struct " ++ typeName))

end CallParams

/-- What the server says of itself. -/
def initializeResult : Json :=
  Json.ofFields
    [("protocolVersion", .str protocolVersion),
      ("capabilities", .obj [("tools", .obj [("listChanged", .bool false)])]),
      ("serverInfo", .obj [("name", .str serverName), ("version", .str serverVersion)])]

/-- The result of a call: the text of the value, or of the error. -/
def callResult (r : Except RunError Scalar) : Json :=
  let (text, isError) :=
    match r with
    | .ok v => (v.text, false)
    | .error e => (e.message, true)
  .obj [("content", .arr [.obj [("text", .str text), ("type", .str "text")]]),
    ("isError", .bool isError)]

structure Server where
  store : Store
  executor : Executor

namespace Server

variable (server : Server)

/-- Calls a tool of the store. -/
def call (p : CallParams) (w : World) : Except RpcError Json × World :=
  match server.store.find p.name with
  | .error e => (.error (.unreadable e), w)
  | .ok none => (.error (.unknownTool p.name), w)
  | .ok (some t) =>
    let (r, w) := server.executor.runJson t p.arguments w
    (.ok (callResult r), w)

/-- The outcome of a method. -/
def dispatch (method : String) (params : Option Json) (w : World) : Except RpcError Json × World :=
  match method with
  | "initialize" =>
    match InitializeParams.read (params.getD .null) with
    | .ok _ => (.ok initializeResult, w)
    | .error e => (.error (.badParams e), w)
  | "ping" => (.ok (.obj []), w)
  | "tools/list" =>
    match server.store.list with
    | .ok tools => (.ok (.obj [("tools", .arr (tools.map fun t => t.spec.toJson))]), w)
    | .error e => (.error (.unreadable e), w)
  | "tools/call" =>
    match params with
    | none => (.error .missingParams, w)
    | some v =>
      match CallParams.read v with
      | .ok p => server.call p w
      | .error e => (.error (.badParams e), w)
  | other => (.error (.unknownMethod other), w)

/-- The response to a value; none to a notification. -/
def respond (v : Json) (w : World) : Option RpcResponse × World :=
  match RpcRequest.ofJson v with
  | .error e => (some ⟨(v.get? "id").bind RequestId.ofJson?, .error e⟩, w)
  | .ok r =>
    if r.isNotification then (none, w)
    else
      let (outcome, w) := server.dispatch r.method r.params w
      (some ⟨r.id, outcome⟩, w)

/-- The response to a line; none to a blank one. -/
def handleLine (line : String) (w : World) : Option RpcResponse × World :=
  let text := Text.trimChars line.toList
  if text.isEmpty then (none, w)
  else
    match Json.parse? (String.ofList text) with
    | none => (some ⟨none, .error .unparsable⟩, w)
    | some v => server.respond v w

/-- The response to a line of a stream. -/
def handle (line : Line) (w : World) : Option RpcResponse × World :=
  match line with
  | .tooLong => (some ⟨none, .error (.tooLong lineLimit)⟩, w)
  | .complete bytes => server.handleLine (Text.ofBytesRepaired bytes) w

/-- The responses to the lines of a stream. -/
def serve (lines : List Line) (w : World) : List RpcResponse × World :=
  let step (st : List RpcResponse × World) (line : Line) : List RpcResponse × World :=
    let (r, w) := server.handle line st.2
    (r.toList ++ st.1, w)
  let (done, w) := lines.foldl step ([], w)
  (done.reverse, w)

end Server

end ScriptTools.Rpc
