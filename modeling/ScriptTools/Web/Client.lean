import ScriptTools.HostError
import ScriptTools.HostValue
import ScriptTools.Json.Printer
import ScriptTools.Text.Utf8
import ScriptTools.Web.Url

/-!
Requests that a script sends over the network. The policy is asked about the host of the address that
the script gives; what the server answers may redirect the request elsewhere.
-/

namespace ScriptTools.Web

inductive Method where
  | get
  | post
deriving DecidableEq, Repr

structure HttpRequest where
  method : Method
  url : Url
  headers : List (String × String)
  body : Option String
deriving DecidableEq, Repr

structure HttpResponse where
  status : Nat
  headers : List (String × ByteArray)
  body : ByteArray

/-- What comes back from the other side. -/
inductive Reply where
  | response (r : HttpResponse)
  | failed (reason : String)
  | silent

/-- The network: which requests were sent, latest first, and how each is answered. -/
structure Network where
  reachable : Bool := true
  sent : List HttpRequest := []
  reply : List HttpRequest → HttpRequest → Reply := fun _ _ => .failed "connection refused"

namespace Network

def send (n : Network) (r : HttpRequest) : Network × Reply :=
  ({ n with sent := r :: n.sent }, n.reply n.sent r)

end Network

/-- The most redirects that are followed. -/
def redirectLimit : Nat := 10

def headerText? (r : HttpResponse) (name : String) : Option String :=
  (r.headers.lookup name).map Text.ofBytesRepaired

/-- Headers that are not sent on to another host. -/
def isSensitive (name : String) : Bool :=
  ["authorization", "cookie", "cookie2", "proxy-authorization", "www-authenticate"].contains name

def isBodyHeader (name : String) : Bool :=
  ["content-length", "content-type", "transfer-encoding", "content-encoding"].contains name

/-- The request that a redirect asks for. Statuses 301, 302 and 303 turn a post into a get without a
body; 307 and 308 repeat it. -/
def redirected? (r : HttpRequest) (answer : HttpResponse) : Option HttpRequest := do
  guard ([301, 302, 303, 307, 308].contains answer.status)
  let location ← headerText? answer "location"
  match r.url.join location with
  | .ok (.web url) =>
    let repeats := answer.status = 307 || answer.status = 308
    let kept := r.headers.filter fun h =>
      (repeats || !isBodyHeader h.1) && (url.host = r.url.host || !isSensitive h.1)
        && h.1 != "referer"
    let referer := if r.url.secure && !url.secure then [] else [("referer", r.url.text)]
    pure
      { method := if repeats then r.method else .get
        url
        headers := kept ++ referer
        body := if repeats then r.body else none }
  | _ => none

/-- Sends a request and those that redirects ask for. -/
def exchange (n : Network) (r : HttpRequest) : Nat → Network × Reply
  | 0 =>
    let (n, answer) := n.send r
    match answer with
    | .response a =>
      (n, if (redirected? r a).isSome then .failed "too many redirects" else answer)
    | _ => (n, answer)
  | redirects + 1 =>
    let (n, answer) := n.send r
    match answer with
    | .response a =>
      match redirected? r a with
      | some next => exchange n next redirects
      | none => (n, answer)
    | _ => (n, answer)

/-- Values of headers with one name stand in one text, with commas between them. -/
def mergeHeaders (headers : List (String × ByteArray)) : List (String × HostValue) :=
  let names := (headers.map (·.1)).eraseDups.mergeSort fun a b => a ≤ b
  names.map fun name =>
    let values := (headers.filter (·.1 = name)).map fun h => Text.ofBytesRepaired h.2
    (name, .str (", ".intercalate values))

/-- The answer as the script sees it. -/
def responseValue (r : HttpResponse) : HostValue :=
  let text := Text.ofBytesRepaired r.body
  let body := if text.toList.head? == some '\uFEFF' then String.ofList text.toList.tail else text
  .map [("body", .str body), ("headers", .map (mergeHeaders r.headers)),
    ("status", .number (UInt64.ofNat r.status).toFloat)]

structure WebAccess where
  policy : Policy
  timeout : Duration := .ofSeconds 10

/-- A body as it is sent, with the type of its content if that is fixed. -/
def bodyOf : HostValue → Option String × Option String
  | .nil => (none, none)
  | v@(.list _) | v@(.map _) => (some v.toJson.compact, some "application/json")
  | v => (some v.text, none)

namespace WebAccess

/-- The address of a request, if the policy allows its host. -/
def permit (w : WebAccess) (address : String) : Except HostError Url :=
  match Url.parse address with
  | .error e => .error (.invalidArgument ("invalid url '" ++ address ++ "': " ++ e.message))
  | .ok (.other scheme) => .error (.invalidArgument ("unsupported url scheme '" ++ scheme ++ "'"))
  | .ok (.web url) => do
    w.policy.require ⟨.netHttp, some url.host⟩
    pure url

/-- The headers that are sent: those given, and the ones that are always there. -/
def allHeaders (given : List (String × String)) (contentType : Option String) (body : Option String) :
    List (String × String) :=
  let given := given.map fun h => (h.1.map Char.toLower, h.2)
  let default (name value : String) : List (String × String) :=
    if (given.lookup name).isSome then [] else [(name, value)]
  let length :=
    match body with
    | some text => if text = "" then [] else [("content-length", toString text.utf8ByteSize)]
    | none => []
  given ++ default "accept" "*/*" ++ length ++
    (match contentType with
     | some t => default "content-type" t
     | none => [])

/-- Sends a request for the script. -/
def request (w : WebAccess) (n : Network) (method : Method) (address : String) (body : HostValue)
    (headers : List (String × String)) : Network × Except HostError HostValue :=
  match w.permit address with
  | .error e => (n, .error e)
  | .ok url =>
    if !n.reachable then (n, .error (.unavailable "network calls need a tokio runtime"))
    else
      let (text, contentType) := bodyOf body
      let r : HttpRequest := ⟨method, url, allHeaders headers contentType text, text⟩
      match exchange n r redirectLimit with
      | (n, .response answer) => (n, .ok (responseValue answer))
      | (n, .failed reason) => (n, .error (.network reason))
      | (n, .silent) => (n, .error (.timeout w.timeout))

def get (w : WebAccess) (n : Network) (address : String) (headers : List (String × String)) :
    Network × Except HostError HostValue :=
  w.request n .get address .nil headers

def post (w : WebAccess) (n : Network) (address : String) (body : HostValue)
    (headers : List (String × String)) : Network × Except HostError HostValue :=
  w.request n .post address body headers

end WebAccess

end ScriptTools.Web
