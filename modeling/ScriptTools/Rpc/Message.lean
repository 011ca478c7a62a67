import ScriptTools.Json.Document
import ScriptTools.Rpc.Shape
import ScriptTools.Tool.Store

/-!
Requests and responses. A request without an identifier is a notification, which is not answered.
-/

namespace ScriptTools.Rpc

inductive RequestId where
  | string (s : String)
  | number (i : Int64)
deriving DecidableEq, Repr

namespace RequestId

def toJson : RequestId → Json
  | .string s => .str s
  | .number i => .int i.toInt

def ofJson? : Json → Option RequestId
  | .str s => some (.string s)
  | .int i => if Decimal.fitsInt64 i then some (.number (Int64.ofInt i)) else none
  | _ => none

def read (v : Json) : Shaped RequestId :=
  match ofJson? v with
  | some id => .ok id
  | none => .error (.noVariant "RequestId")

end RequestId

structure RpcRequest where
  jsonrpc : String
  id : Option RequestId
  method : String
  params : Option Json

inductive RpcError where
  | unparsable
  | badId (found : Json)
  | badShape (e : ShapeError)
  | unsupportedVersion (version : String)
  | tooLong (limit : Nat)
  | unknownMethod (name : String)
  | badParams (e : ShapeError)
  | missingParams
  | unknownTool (name : String)
  | unreadable (e : QueryError)

namespace RpcError

def code : RpcError → Int
  | .unparsable => -32700
  | .badId _ | .badShape _ | .unsupportedVersion _ | .tooLong _ => -32600
  | .unknownMethod _ => -32601
  | .badParams _ | .missingParams | .unknownTool _ => -32602
  | .unreadable _ => -32603

def message : RpcError → String
  | .unparsable => "parse error"
  | .badId found => "invalid request: id must be a string or number, got " ++ found.compact
  | .badShape e => "invalid request: " ++ e.message
  | .unsupportedVersion v => "invalid request: unsupported jsonrpc version '" ++ v ++ "'"
  | .tooLong limit => "invalid request: request exceeds " ++ toString limit ++ " bytes"
  | .unknownMethod name => "method not found: " ++ name
  | .badParams e => "invalid params: " ++ e.message
  | .missingParams => "invalid params: missing params"
  | .unknownTool name => "invalid params: unknown tool: " ++ name
  | .unreadable e => "internal error: " ++ e.message

/-- The code in brackets and the message. -/
def text (e : RpcError) : String := "[" ++ toString e.code ++ "] " ++ e.message

def toJson (e : RpcError) : Json := .obj [("code", .int e.code), ("message", .str e.message)]

end RpcError

namespace RpcRequest

def isNotification (r : RpcRequest) : Bool := r.id.isNone

def typeName : String := "JsonRpcRequest"

/-- Parameters as given; `null` stands for none. -/
def readParams : Json → Shaped (Option Json)
  | .null => .ok none
  | v => .ok (some v)

def ofFields (fields : List (String × Json)) : Shaped RpcRequest := do
  let id ← optionalMember (readOption RequestId.read) (fields.lookup "id")
  let jsonrpc ← (fields.lookup "jsonrpc").mapM readString
  let method ← (fields.lookup "method").mapM readString
  let params ← optionalMember readParams (fields.lookup "params")
  let jsonrpc ← fieldMember "jsonrpc" jsonrpc
  let method ← fieldMember "method" method
  pure { jsonrpc, id, method, params }

def ofItems (items : List Json) : Shaped RpcRequest := do
  let jsonrpc ← itemMember readString typeName 4 0 items[0]?
  let id ← optionalMember (readOption RequestId.read) items[1]?
  let method ← itemMember readString typeName 4 2 items[2]?
  let params ← optionalMember readParams items[3]?
  checkLength items 4
  pure { jsonrpc, id, method, params }

def ofShape : Json → Shaped RpcRequest
  | .obj fields => ofFields fields
  | .arr items => ofItems items
  | v => .error (.wrongType v ("struct " ++ typeName))

/-- An identifier that is written out must be a string or a number. -/
def checkId (v : Json) : Except RpcError Unit :=
  match v.get? "id" with
  | none | some (.str _) | some (.int _) | some (.float _) => .ok ()
  | some other => .error (.badId other)

/-- The request that a value writes. -/
def ofJson (v : Json) : Except RpcError RpcRequest := do
  checkId v
  match ofShape v with
  | .error e => .error (.badShape e)
  | .ok r => if r.jsonrpc = "2.0" then .ok r else .error (.unsupportedVersion r.jsonrpc)

end RpcRequest

structure RpcResponse where
  id : Option RequestId
  outcome : Except RpcError Json

namespace RpcResponse

def toJson (r : RpcResponse) : Json :=
  .obj [("jsonrpc", .str "2.0"), ("id", Json.ofOption RequestId.toJson r.id),
    (match r.outcome with
     | .ok result => ("result", result)
     | .error e => ("error", e.toJson))]

def text (r : RpcResponse) : String := r.toJson.compact

/-- What is written for responses: each on a line of its own. -/
def written (responses : List RpcResponse) : String := String.join (responses.map fun r => r.text ++ "\n")

end RpcResponse

end ScriptTools.Rpc
