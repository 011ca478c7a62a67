import ScriptTools.Files.Disk
import ScriptTools.HostError
import ScriptTools.Text.Utf8

/-!
The files that a script may touch: those below one root, as far as the policy allows. A path is taken
in its lexical normal form, and the deepest part of it that is there must lie inside the root when all
links are followed.
-/

namespace ScriptTools.Files

/-- A root without links in its path, and the policy for what lies below it. -/
structure Access where
  root : Path
  policy : Policy

/-- Adds the parts of a path to those before it, latest first. A step up takes back the latest. -/
def normalize (done : List String) : List String → Option (List String)
  | [] => some done.reverse
  | part :: rest =>
    if part = "" || part = "." then normalize done rest
    else if part = ".." then
      match done with
      | [] => none
      | _ :: done => normalize done rest
    else normalize (part :: done) rest

/-- The normal form of a relative path that stays inside. -/
def normalParts? (text : String) : Option (List String) :=
  if Disk.isAbsolute text then none else normalize [] (Text.parts '/' text)

/-- The text of a normal form that the policy is asked about. -/
def scopeText (parts : List String) : String :=
  if parts.isEmpty then "." else "/".intercalate parts

namespace Access

/-- Access below a root that is made if it is missing. -/
def create (d : Disk) (root : Path) (policy : Policy) : Disk × Except DiskError Access :=
  match d.makeDirs root with
  | (d, .error e) => (d, .error e)
  | (d, .ok ()) => (d, (d.canonicalize root).map fun place => ⟨place, policy⟩)

/-- Whether the deepest part of a path that is there, given in reverse, leads into the root. -/
def staysInside (a : Access) (d : Disk) : List String → Bool
  | [] => a.root.isEmpty
  | name :: above =>
    let p := (name :: above).reverse
    if (d.named? p).isSome then
      match d.canonical? p with
      | some place => a.root.isPrefixOf place
      | none => false
    else a.staysInside d above

/-- The full path and the scope of a path of the script. -/
def resolve (a : Access) (d : Disk) (text : String) : Except HostError (Path × List String) :=
  match normalParts? text with
  | none => .error (.escape text)
  | some parts =>
    let full := a.root ++ parts
    if a.staysInside d full.reverse then .ok (full, parts) else .error (.escape text)

/-- Resolves a path and asks the policy. -/
def permit (a : Access) (d : Disk) (access : ScriptTools.Access) (text : String) :
    Except HostError (Path × List String) := do
  let (full, parts) ← a.resolve d text
  a.policy.require ⟨access, some (scopeText parts)⟩
  pure (full, parts)

/-- The text of a file; none when it cannot be read. -/
def read (a : Access) (d : Disk) (text : String) : Except HostError (Option String) := do
  let (full, _) ← a.permit d .fsRead text
  match d.readFile full with
  | .ok content => pure (some (Text.ofBytesRepaired content))
  | .error _ => pure none

/-- Writes a file and makes the directories above it; says whether that worked. -/
def write (a : Access) (d : Disk) (text content : String) : Disk × Except HostError Bool :=
  match a.permit d .fsWrite text with
  | .error e => (d, .error e)
  | .ok (full, parts) =>
    if parts.isEmpty then (d, .ok false)
    else
      match d.makeDirs full.dropLast with
      | (d, .error _) => (d, .ok false)
      | (d, .ok ()) =>
        match d.writeFile full content.toUTF8 with
        | .ok d => (d, .ok true)
        | .error _ => (d, .ok false)

/-- Removes a file, a link or an empty directory, and never the root; says whether that worked. -/
def delete (a : Access) (d : Disk) (text : String) : Disk × Except HostError Bool :=
  match a.permit d .fsWrite text with
  | .error e => (d, .error e)
  | .ok (full, parts) =>
    if parts.isEmpty then (d, .ok false)
    else
      let removed :=
        match d.named? full with
        | some .dir => d.removeDir full
        | some _ => d.removeFile full
        | none => .error .missing
      match removed with
      | .ok d => (d, .ok true)
      | .error _ => (d, .ok false)

/-- Whether a path leads to something. -/
def exists? (a : Access) (d : Disk) (text : String) : Except HostError Bool := do
  let (full, _) ← a.permit d .fsRead text
  pure (d.locate true full).isOk

/-- The names in a directory in ascending order; none when it is not one. -/
def list (a : Access) (d : Disk) (text : String) : Except HostError (List String) := do
  let (full, _) ← a.permit d .fsRead text
  match d.listDir full with
  | .ok names => pure names
  | .error _ => pure []

end Access

end ScriptTools.Files
