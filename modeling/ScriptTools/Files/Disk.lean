import ScriptTools.Text.Basic
import ScriptTools.Text.Utf8

/-!
A disk: files, directories and symbolic links at absolute paths. Every operation first walks to the
place that a path leads to, through the links on the way.
-/

namespace ScriptTools.Files

/-- An absolute path, as the names from the top. -/
abbrev Path := List String

/-- Contents are compared as arrays of bytes. -/
local instance decidableEqBytes : DecidableEq ByteArray := ByteArray.instDecidableEq

inductive Node where
  | file (content : ByteArray)
  | dir
  | link (target : String)
deriving DecidableEq

inductive DiskError where
  | missing
  | notDirectory
  | isDirectory
  | alreadyThere
  | notEmpty
  | nameTooLong
  | badName
  | tooManyLinks
  | notText
deriving DecidableEq, Repr

/-- What the system says of an error, with its number where it has one. -/
def DiskError.message : DiskError → String
  | .missing => "No such file or directory (os error 2)"
  | .notDirectory => "Not a directory (os error 20)"
  | .isDirectory => "Is a directory (os error 21)"
  | .alreadyThere => "File exists (os error 17)"
  | .notEmpty => "Directory not empty (os error 39)"
  | .nameTooLong => "File name too long (os error 36)"
  | .badName => "file name contained an unexpected NUL byte"
  | .tooManyLinks => "Too many levels of symbolic links (os error 40)"
  | .notText => "stream did not contain valid UTF-8"

/-- What stands at each path. The top is a directory that is always there. -/
structure Disk where
  nodes : List (Path × Node) := []

namespace Disk

def get? (d : Disk) (p : Path) : Option Node :=
  if p.isEmpty then some .dir else d.nodes.lookup p

def put (d : Disk) (p : Path) (n : Node) : Disk :=
  ⟨(p, n) :: d.nodes.filter fun e => e.1 ≠ p⟩

def erase (d : Disk) (p : Path) : Disk := ⟨d.nodes.filter fun e => e.1 ≠ p⟩

/-- The names in a directory, in ascending order. -/
def names (d : Disk) (p : Path) : List String :=
  (d.nodes.filterMap fun e => if e.1.dropLast = p then e.1.getLast? else none).mergeSort
    fun a b => a ≤ b

/-- The most bytes that a name may have. -/
def nameLimit : Nat := 255

/-- The most bytes that a path may have. -/
def pathLimit : Nat := 4095

/-- The most links that one walk may follow. -/
def linkLimit : Nat := 40

/-- The parts of a written path. -/
def components (text : String) : List String := (Text.parts '/' text).filter (· ≠ "")

def isAbsolute (text : String) : Bool := text.toList.head? == some '/'

/-- The steps that a text asks for. A slash at the end asks for a directory. -/
def steps (text : String) : List String :=
  components text ++ (if text.toList.getLast? == some '/' then ["."] else [])

/-- The path that a text names, seen from a directory. -/
def place (directory : Path) (text : String) : Path :=
  if isAbsolute text then steps text else directory ++ steps text

/-- A path that no call accepts, whatever is on the disk. -/
def checkPath (p : Path) : Except DiskError Unit :=
  if p.any fun name => name.toList.contains '\x00' then .error .badName
  else if pathLimit < p.foldl (fun n name => n + name.utf8ByteSize + 1) 0 then .error .nameTooLong
  else .ok ()

/-- Walks from the place `at_` along `rest`. The last step may lead to a place where nothing is; it
follows a link only when `follow` is set. -/
def walkFrom (d : Disk) (follow : Bool) (links : Nat) (at_ : Path) (rest : List String) :
    Except DiskError Path :=
  match rest with
  | [] => .ok at_
  | name :: rest =>
    match d.get? at_ with
    | some .dir =>
      if name = "." then d.walkFrom follow links at_ rest
      else if name = ".." then d.walkFrom follow links at_.dropLast rest
      else if nameLimit < name.utf8ByteSize then .error .nameTooLong
      else
        match d.get? (at_ ++ [name]) with
        | some (.link target) =>
          if rest.isEmpty && !follow then .ok (at_ ++ [name])
          else
            match links with
            | 0 => .error .tooManyLinks
            | links + 1 =>
              d.walkFrom follow links (if isAbsolute target then [] else at_) (steps target ++ rest)
        | some _ => d.walkFrom follow links (at_ ++ [name]) rest
        | none => if rest.isEmpty then .ok (at_ ++ [name]) else .error .missing
    | some _ => .error .notDirectory
    | none => .error .missing
termination_by (links, rest.length)

/-- The place that a path leads to. -/
def walk (d : Disk) (follow : Bool) (p : Path) : Except DiskError Path := do
  checkPath p
  d.walkFrom follow linkLimit [] p

/-- The place that a path leads to and what stands there. -/
def locate (d : Disk) (follow : Bool) (p : Path) : Except DiskError (Path × Node) := do
  let place ← d.walk follow p
  match d.get? place with
  | some n => pure (place, n)
  | none => throw .missing

/-- What a path names, a link as itself. -/
def named? (d : Disk) (p : Path) : Option Node := ((d.locate false p).toOption).map (·.2)

/-- What a path of its own can name. Whatever lies deeper is reached through links only. -/
def nameable (d : Disk) : Disk := ⟨d.nodes.filter fun e => (checkPath e.1).isOk⟩

/-- The path without links to what a path leads to. Each step to it is named by a path without links. -/
def canonicalize (d : Disk) (p : Path) : Except DiskError Path := do
  let _ ← d.locate true p
  match d.nameable.locate true p with
  | .ok (place, _) => pure place
  | .error _ => throw .nameTooLong

def canonical? (d : Disk) (p : Path) : Option Path := (d.canonicalize p).toOption

def readFile (d : Disk) (p : Path) : Except DiskError ByteArray := do
  match ← d.locate true p with
  | (_, .file content) => pure content
  | _ => throw .isDirectory

/-- The text in a file that holds UTF-8. -/
def readText (d : Disk) (p : Path) : Except DiskError String := do
  match Text.ofBytes? (← d.readFile p) with
  | some text => pure text
  | none => throw .notText

def isDir (d : Disk) (p : Path) : Bool :=
  match d.locate true p with
  | .ok (_, .dir) => true
  | _ => false

def listDir (d : Disk) (p : Path) : Except DiskError (List String) := do
  match ← d.locate true p with
  | (place, .dir) => pure (d.names place)
  | _ => throw .notDirectory

def makeDir (d : Disk) (p : Path) : Except DiskError Disk := do
  let place ← d.walk false p
  if (d.get? place).isSome then throw .alreadyThere
  pure (d.put place .dir)

/-- The outcome of making a directory that may be there already. -/
def ensured (d : Disk) (p : Path) : Except DiskError Disk → Except DiskError Disk
  | .ok d => .ok d
  | .error e => if d.isDir p then .ok d else .error e

/-- Makes a directory, given here by its names in reverse, and those above it that are missing. What was
made stays even if a later step fails. -/
def makeDirsUp (d : Disk) : List String → Disk × Except DiskError Unit
  | [] => (d, .ok ())
  | name :: above =>
    let p := (name :: above).reverse
    match d.makeDir p with
    | .ok d => (d, .ok ())
    | .error .missing =>
      match d.makeDirsUp above with
      | (d, .error e) => (d, .error e)
      | (d, .ok ()) =>
        match d.ensured p (d.makeDir p) with
        | .ok d => (d, .ok ())
        | .error e => (d, .error e)
    | .error e => if d.isDir p then (d, .ok ()) else (d, .error e)

def makeDirs (d : Disk) (p : Path) : Disk × Except DiskError Unit := d.makeDirsUp p.reverse

/-- Writes a file, new or not, where a path leads. -/
def writeFile (d : Disk) (p : Path) (content : ByteArray) : Except DiskError Disk := do
  let place ← d.walk true p
  match d.get? place with
  | some .dir => throw .isDirectory
  | _ => pure (d.put place (.file content))

/-- Removes a file or a link. -/
def removeFile (d : Disk) (p : Path) : Except DiskError Disk := do
  match ← d.locate false p with
  | (_, .dir) => throw .isDirectory
  | (place, _) => pure (d.erase place)

/-- Removes a directory that has no entries. -/
def removeDir (d : Disk) (p : Path) : Except DiskError Disk := do
  match ← d.locate false p with
  | (place, .dir) => if (d.names place).isEmpty then pure (d.erase place) else throw .notEmpty
  | _ => throw .notDirectory

/-- Makes a link. -/
def makeLink (d : Disk) (p : Path) (target : String) : Except DiskError Disk := do
  let place ← d.walk false p
  if (d.get? place).isSome then throw .alreadyThere
  pure (d.put place (.link target))

end Disk

end ScriptTools.Files
