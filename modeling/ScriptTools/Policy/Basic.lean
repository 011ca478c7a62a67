import ScriptTools.Text.Basic

/-!
Policies: which files may be read and written and which hosts may be called. A kind of access that is
denied as a whole stays denied whatever the lists say.
-/

namespace ScriptTools

/-- A kind of access that a script may ask for. -/
inductive Access where
  | fsRead
  | fsWrite
  | netHttp
deriving DecidableEq, Repr, Inhabited

namespace Access

def all : List Access := [.fsRead, .fsWrite, .netHttp]

/-- The name in messages. -/
def name : Access → String
  | .fsRead => "FsRead"
  | .fsWrite => "FsWrite"
  | .netHttp => "NetHttp"

/-- The name in settings. -/
def key : Access → String
  | .fsRead => "fs_read"
  | .fsWrite => "fs_write"
  | .netHttp => "net_http"

def ofKey? (s : String) : Option Access := all.find? fun a => a.key = s

end Access

/-- What a script asks for: a path relative to the sandbox, or a host. Without a scope, anything of the
kind. -/
structure Request where
  access : Access
  scope : Option String := none
deriving DecidableEq, Repr

structure Policy where
  fsRead : List String := []
  fsWrite : List String := []
  netHttp : List String := []
  denied : List Access := []
deriving DecidableEq, Repr, Inhabited

/-- Why a request is refused. -/
inductive Denial where
  | denied (access : Access)
  | notListed (request : Request)
deriving DecidableEq, Repr

namespace Denial

def reason : Denial → String
  | .denied a => a.name ++ " is denied by policy"
  | .notListed r =>
    r.access.name ++ " not in allowlist" ++
      (match r.scope with
       | some s => " (scope: " ++ s ++ ")"
       | none => "")

end Denial

namespace Policy

/-- The text without all the `./` at its front. -/
def dropDotSlash : List Char → List Char
  | '.' :: '/' :: rest => dropDotSlash rest
  | cs => cs

def dropTrailingSlashes (cs : List Char) : List Char :=
  (cs.reverse.dropWhile (· == '/')).reverse

/-- The text before `suffix`, if it ends so. -/
def stripSuffix? (suffix cs : List Char) : Option (List Char) :=
  if suffix.isSuffixOf cs then some (cs.take (cs.length - suffix.length)) else none

/-- The text after `start`, if it begins so. -/
def stripPrefix? (start cs : List Char) : Option (List Char) :=
  if start.isPrefixOf cs then some (cs.drop start.length) else none

/-- Whether a path is `base` or lies below it. -/
def isBelow (base path : List Char) : Bool := path == base || (base ++ ['/']).isPrefixOf path

/-- Whether a pattern covers a path: `*`, `**` and `.` cover all, a name covers itself and what lies
below it, `base/*` one level below `base`, and `base/**` all of `base`. -/
def patternCovers (pattern path : String) : Bool :=
  if pattern == "*" || pattern == "**" || pattern == "." then true
  else
    let path := dropDotSlash path.toList
    let pattern := dropDotSlash pattern.toList
    path == pattern || (dropTrailingSlashes pattern ++ ['/']).isPrefixOf path
      || (match stripSuffix? ['/', '*'] pattern with
          | some base =>
            (match stripPrefix? (base ++ ['/']) path with
             | some rest => !rest.contains '/'
             | none => false)
          | none => false)
      || (match stripSuffix? ['/', '*', '*'] pattern with
          | some base => isBelow base path
          | none => false)

def lowerHost (s : String) : List Char := s.toList.map Char.toLower

/-- Whether an entry covers a host: `*` covers all, a name covers itself and its subdomains. -/
def hostCovers (entry host : String) : Bool :=
  entry == "*" || lowerHost host == lowerHost entry
    || ('.' :: lowerHost entry).isSuffixOf (lowerHost host)

def pathAllowed (patterns : List String) : Option String → Bool
  | none => !patterns.isEmpty
  | some path => patterns.any fun p => patternCovers p path

def hostAllowed (entries : List String) : Option String → Bool
  | none => !entries.isEmpty
  | some host => entries.any fun e => hostCovers e host

/-- Whether the lists allow a request. -/
def listed (p : Policy) (r : Request) : Bool :=
  match r.access with
  | .fsRead => pathAllowed p.fsRead r.scope
  | .fsWrite => pathAllowed p.fsWrite r.scope
  | .netHttp => hostAllowed p.netHttp r.scope

/-- Decides a request. -/
def check (p : Policy) (r : Request) : Except Denial Unit :=
  if p.denied.contains r.access then .error (.denied r.access)
  else if p.listed r then .ok ()
  else .error (.notListed r)

/-- All files of the sandbox and no network. -/
def restrictive : Policy where
  fsRead := ["**"]
  fsWrite := ["**"]
  denied := [.netHttp]

/-- What makes a policy unusable. -/
inductive Defect where
  | emptyPattern
  | outsidePattern (pattern : String)
  | emptyHost
deriving DecidableEq, Repr

def Defect.message : Defect → String
  | .emptyPattern => "invalid policy: empty filesystem pattern"
  | .outsidePattern p =>
    "invalid policy: filesystem pattern '" ++ p ++ "' must be relative to the sandbox root"
  | .emptyHost => "invalid policy: empty network host"

/-- Whether a pattern can lead out of the sandbox. -/
def leadsOut (pattern : String) : Bool :=
  pattern.toList.head? == some '/' || (Text.parts '/' pattern).contains ".."

/-- Patterns are relative and stay inside, and no entry is empty. -/
def validate (p : Policy) : Except Defect Unit := do
  for pattern in p.fsRead ++ p.fsWrite do
    if pattern = "" then throw .emptyPattern
    if leadsOut pattern then throw (.outsidePattern pattern)
  if p.netHttp.contains "" then throw .emptyHost

end Policy

end ScriptTools
