import ScriptTools.Decimal.Read
import ScriptTools.Text.Basic
import ScriptTools.Web.Host

/-!
Web addresses: scheme, host, port, path and query. Addresses of other schemes are only told apart from
these.
-/

namespace ScriptTools.Web

/-- An address of the scheme `http` or `https`. The port is left out when it is the scheme's own. -/
structure Url where
  secure : Bool
  credentials : String := ""
  host : String
  port : Option Nat
  path : String
  query : Option String
deriving DecidableEq, Repr

/-- What a text that is an address can be. -/
inductive Address where
  | web (u : Url)
  | other (scheme : String)
deriving DecidableEq, Repr

namespace Url

def scheme (u : Url) : String := if u.secure then "https" else "http"

def ownPort (secure : Bool) : Nat := if secure then 443 else 80

/-- The text without blanks and controls at its ends, and without tabs and line breaks. -/
def clean (s : String) : List Char :=
  let outer (c : Char) : Bool := c.toNat ≤ 0x20
  let cs := ((s.toList.dropWhile outer).reverse.dropWhile outer).reverse
  cs.filter fun c => c != '\t' && c != '\n' && c != '\r'

/-- The scheme in lower case and what follows its colon. -/
def splitScheme? (cs : List Char) : Option (String × List Char) :=
  let (name, rest) := cs.span fun c => c.isAlphanum || c == '+' || c == '-' || c == '.'
  match name, rest with
  | c :: _, ':' :: rest =>
    if c.isAlpha then some (String.ofList (name.map Char.toLower), rest) else none
  | _, _ => none

def isSlash (c : Char) : Bool := c == '/' || c == '\\'

def isAuthorityEnd (c : Char) : Bool := isSlash c || c == '?' || c == '#'

/-- Cuts at the last `@`: the credentials and the host with its port. -/
def splitCredentials (cs : List Char) : List Char × List Char :=
  let after := (cs.reverse.takeWhile (· != '@')).reverse
  (cs.take (cs.length - after.length - 1), after)

/-- Cuts at the colon before the port, which does not stand in brackets. -/
def splitPort (cs : List Char) : List Char × Option (List Char) :=
  let (inner, rest) :=
    match cs with
    | '[' :: _ =>
      let inner := cs.takeWhile (· != ']')
      (inner ++ (cs.drop inner.length).take 1, cs.drop (inner.length + 1))
    | _ => ([], cs)
  let (name, rest) := rest.span (· != ':')
  match rest with
  | _ :: port => (inner ++ name, some port)
  | [] => (inner ++ name, none)

def readPort (secure : Bool) : Option (List Char) → Except UrlError (Option Nat)
  | none => .ok none
  | some ds =>
    if !ds.all Char.isDigit then .error .badPort
    else if ds.isEmpty then .ok none
    else
      let n := Decimal.natOfDigits ds
      if 65535 < n then .error .badPort
      else .ok (if n = ownPort secure then none else some n)

def hexByte (b : UInt8) : List Char :=
  let digit (n : Nat) : Char := if n < 10 then Char.ofNat (48 + n) else Char.ofNat (55 + n)
  ['%', digit (b.toNat / 16), digit (b.toNat % 16)]

/-- Writes the characters that an address cannot hold as bytes after percent signs. -/
def percentEncode (held : Char → Bool) (cs : List Char) : String :=
  String.ofList (cs.flatMap fun c =>
    if held c then [c] else (String.singleton c).toUTF8.toList.flatMap hexByte)

def isPathChar (c : Char) : Bool :=
  0x20 < c.toNat && c.toNat < 0x7F && !"\"#<>?^`\x7b\x7d".toList.contains c

def isQueryChar (c : Char) : Bool :=
  0x20 < c.toNat && c.toNat < 0x7F && !"\"#<>'".toList.contains c

def splitSlashes (cs : List Char) : List (List Char) :=
  cs.foldr (fun c parts =>
    if isSlash c then [] :: parts
    else
      match parts with
      | p :: rest => (c :: p) :: rest
      | [] => [[c]]) [[]]

def isDot (part : List Char) : Bool :=
  part == ['.'] || (part.map Char.toLower) == "%2e".toList

def isDoubleDot (part : List Char) : Bool :=
  [("..").toList, ".%2e".toList, "%2e.".toList, "%2e%2e".toList].contains (part.map Char.toLower)

/-- Takes back a part for each `..` and drops each `.`; a path that ends so ends in a slash. -/
def resolveDots (done : List (List Char)) : List (List Char) → List (List Char)
  | [] => done.reverse
  | [last] =>
    if isDot last then ([] :: done).reverse
    else if isDoubleDot last then ([] :: done.drop 1).reverse
    else (last :: done).reverse
  | part :: rest =>
    if isDot part then resolveDots done rest
    else if isDoubleDot part then resolveDots (done.drop 1) rest
    else resolveDots (part :: done) rest

/-- The written form of a path that stands behind a first slash. -/
def pathText (parts : List (List Char)) : String :=
  "/" ++ "/".intercalate ((resolveDots [] parts).map (percentEncode isPathChar))

/-- The path and the query of what follows the authority. -/
def readPath (cs : List Char) : List Char × Option String :=
  let beforeFragment := cs.takeWhile (· != '#')
  let (path, rest) := beforeFragment.span (· != '?')
  match rest with
  | _ :: query => (path, some (percentEncode isQueryChar query))
  | [] => (path, none)

/-- The parts of a path behind its first slash. -/
def partsOf (path : List Char) : List (List Char) :=
  match path with
  | [] => [[]]
  | c :: rest => if isSlash c then splitSlashes rest else splitSlashes path

/-- An address after its scheme and slashes. -/
def readAuthority (secure : Bool) (cs : List Char) : Except UrlError Url := do
  let (authority, rest) := cs.span fun c => !isAuthorityEnd c
  let (credentials, hostPort) := splitCredentials authority
  let (hostText, portText) := splitPort hostPort
  if hostText.isEmpty then throw .emptyHost
  let host ← Host.read hostText
  let port ← readPort secure portText
  let (path, query) := readPath rest
  pure
    { secure
      credentials := String.ofList credentials
      host
      port
      path := pathText (partsOf path)
      query }

/-- The host and the port of an address of another scheme must still be well formed. -/
def checkOther (cs : List Char) : Except UrlError Unit :=
  match cs with
  | '/' :: '/' :: rest => do
    let (authority, _) := rest.span fun c => c != '/' && c != '?' && c != '#'
    let (_, hostPort) := splitCredentials authority
    let (hostText, portText) := splitPort hostPort
    match hostText with
    | '[' :: _ => discard (Host.read hostText)
    | _ => if hostText.any fun c => c != '%' && Host.isForbidden c then throw .badDomain
    discard (readPort false portText)
  | _ => pure ()

/-- Reads a text that must be an address by itself. -/
def parse (s : String) : Except UrlError Address :=
  match splitScheme? (clean s) with
  | none => .error .relative
  | some (scheme, rest) =>
    if scheme = "http" || scheme = "https" then
      (readAuthority (scheme = "https") (rest.dropWhile isSlash)).map .web
    else if scheme = "ftp" || scheme = "ws" || scheme = "wss" then
      (readAuthority false (rest.dropWhile isSlash)).map fun _ => .other scheme
    else if scheme = "file" then .ok (.other scheme)
    else (checkOther rest).map fun _ => .other scheme

/-- Reads a text that may leave out what it shares with `base`. -/
def join (base : Url) (s : String) : Except UrlError Address :=
  let cs := clean s
  match splitScheme? cs with
  | some _ => parse s
  | none =>
    match cs with
    | [] => .ok (.web base)
    | c :: rest =>
      if isSlash c then
        match rest with
        | d :: _ =>
          if isSlash d then (readAuthority base.secure (rest.dropWhile isSlash)).map .web
          else
            let (path, query) := readPath cs
            .ok (.web { base with path := pathText (partsOf path), query })
        | [] => .ok (.web { base with path := "/", query := none })
      else if c = '?' then .ok (.web { base with query := (readPath cs).2 })
      else if c = '#' then .ok (.web base)
      else
        let (path, query) := readPath cs
        let above := (splitSlashes (base.path.toList.drop 1)).dropLast
        .ok (.web { base with path := pathText (above ++ splitSlashes path), query })

/-- The part of a request line between method and version. -/
def target (u : Url) : String :=
  u.path ++ (match u.query with | some q => "?" ++ q | none => "")

/-- The whole address without credentials. -/
def text (u : Url) : String :=
  u.scheme ++ "://" ++ u.host ++ (match u.port with | some p => ":" ++ toString p | none => "")
    ++ u.target

end Url

end ScriptTools.Web
