import ScriptTools.CommandLine.Command
import ScriptTools.Tool.Database
import Std.Time.DateTime.Timestamp

/-!
The program: it takes in what a command needs of the system's files, performs the command, and writes
back what has changed.
-/

namespace ScriptTools.CommandLine

open Files (Disk Node Path)

def pathText (p : Path) : String := "/" ++ "/".intercalate p

/-- The parts of a path after its top. -/
def pathParts (text : String) : Path := Disk.components text

/-- Puts a node on a disk, below directories that are there. -/
def placeNode (d : Disk) (p : Path) (n : Node) : Disk := (d.makeDirs p.dropLast).1.put p n

/-- Takes in a file, through links on the way. A directory is taken in as one without entries. -/
def takeFile (d : Disk) (p : Path) : IO Disk := do
  try
    if ← (← IO.FS.realPath (pathText p)).isDir then return placeNode d p .dir
    return placeNode d p (.file (← IO.FS.readBinFile (pathText p)))
  catch _ => return d

/-- Takes in a directory with all that is below it, as deep as `depth`. A link is taken in with the place
that it leads to; one that leads nowhere leads to itself. -/
def takeTree (depth : Nat) (d : Disk) (p : Path) : IO Disk := do
  match depth with
  | 0 => return d
  | depth + 1 =>
    let entries ← (← IO.FS.realPath (pathText p)).readDir
    entries.foldlM (fun d entry => do
      let q := p ++ [entry.fileName]
      match (← entry.path.symlinkMetadata).type with
      | .dir => takeTree depth (placeNode d q .dir) q
      | .symlink =>
        let place ← try pure (toString (← IO.FS.realPath entry.path)) catch _ => pure (pathText q)
        return placeNode d q (.link place)
      | _ => takeFile d q) d

/-- The most directories below one another that are taken in. -/
def depthLimit : Nat := 64

/-- Takes in the root of the files that scripts may touch, if it is there. -/
def takeRoot (d : Disk) (p : Path) : IO Disk := do
  let place? ← try pure (some (pathParts (toString (← IO.FS.realPath (pathText p))))) catch _ => pure none
  match place? with
  | none => return d
  | some place =>
    let d := if place = p then d else placeNode d p (.link (pathText place))
    if ← (← IO.FS.realPath (pathText place)).isDir then
      takeTree depthLimit (placeNode d place .dir) place
    else takeFile d place

/-- Takes in what a command needs: the file of a definition, or the settings and the root that they
name. -/
def takeInFor (directory : Path) (i : Invocation) : IO Disk := do
  let place (text : String) : Path :=
    let p := Disk.place directory text
    (Files.normalize [] p).getD p
  let d : Disk := placeNode {} directory .dir
  let withSettings : IO Disk := do
    let d ← takeFile d (place i.config)
    match (d.readText (place i.config)).toOption.map Config.load with
    | some (.error _) => return d
    | some (.ok c) => takeRoot d (place c.root)
    | none => takeRoot d (place (Config.root {}))
  match i.command with
  | .add file => takeFile d (place file)
  | .run .. | .serve => withSettings
  | _ => return d

/-- Writes to the system what has changed on a disk. -/
def writeBack (old new : Disk) : IO Unit := do
  for (p, n) in old.nodes do
    if (new.get? p).isNone then
      match n with
      | .dir => IO.FS.removeDir (pathText p)
      | _ => IO.FS.removeFile (pathText p)
  for (p, n) in new.nodes.reverse do
    if old.get? p ≠ some n then
      match n with
      | .dir => IO.FS.createDirAll (pathText p)
      | .file content => IO.FS.writeBinFile (pathText p) content
      | .link _ => pure ()

def readStore (path : String) : IO (Option Store) := do
  let text? ← try pure (some (← IO.FS.readFile path)) catch _ => pure none
  match text? with
  | none => return none
  | some text =>
    match Store.decode? text with
    | some store => return some store
    | none => throw (IO.userError ("database at " ++ path ++ " is damaged"))

def writeStore (path : String) (store : Option Store) : IO Unit := do
  match store with
  | none => pure ()
  | some store =>
    IO.FS.createDirAll ("/".intercalate (Text.parts '/' path).dropLast)
    IO.FS.writeFile path store.encode

/-- Answers the lines of standard input one after another. -/
partial def answerLines (server : Rpc.Server) (input output : IO.FS.Stream) (p : Rpc.PartialLine)
    (w : World) : IO Unit := do
  let chunk ← input.read 8192
  let (p, lines) :=
    if chunk.isEmpty then ({}, p.finish) else Rpc.takePieces p [] (Rpc.splitChunk chunk)
  let (responses, after) := server.serve lines.reverse w
  output.putStr (Rpc.RpcResponse.written responses)
  output.flush
  writeBack w.disk after.disk
  if chunk.isEmpty then return
  answerLines server input output p after

def randomId : IO ToolId := do
  let bytes ← IO.getRandomBytes 16
  return ToolId.ofRandom (BitVec.ofNat 128 (bytes.foldl (fun n b => n * 256 + b.toNat) 0))

def currentTime : IO Timestamp := do
  let nanos := (← Std.Time.Timestamp.now).toNanosecondsSinceUnixEpoch.val
  return ⟨nanos / Timestamp.billion, (nanos % Timestamp.billion).toNat⟩

def environment : IO (String → Option String) := do
  let own ← IO.getEnv "NEEDLE_DATA_DIR"
  let shared ← IO.getEnv "XDG_DATA_HOME"
  let home ← IO.getEnv "HOME"
  return fun name =>
    match name with
    | "NEEDLE_DATA_DIR" => own
    | "XDG_DATA_HOME" => shared
    | "HOME" => home
    | _ => none

/-- Performs a command and prints what it comes to. -/
def performHere (i : Invocation) : IO UInt32 := do
  let directory := pathParts (toString (← IO.currentDir))
  let database := databasePath (← environment)
  let clock := (Instant.ofNanos? (← IO.monoNanosNow)).getD .start
  let setting : Setting := { directory, database, now := ← currentTime, freshId := ← randomId, clock }
  let before : Installation :=
    { world := { disk := ← takeInFor directory i }, store := ← readStore database }
  let (reply, after) := (perform setting i).run before
  writeBack before.world.disk after.world.disk
  writeStore database after.store
  match reply with
  | .ok (.text s) =>
    IO.print s
    return 0
  | .ok (.serving server) =>
    answerLines server (← IO.getStdin) (← IO.getStdout) {} after.world
    return 0
  | .error e =>
    IO.eprintln ("Error: " ++ e.message)
    return 1

def helpText : String :=
  "Small typed Lua tools, run in a sandbox and served over MCP

Usage: needle [--config FILE] COMMAND

Commands:
  add FILE                                 Add a needle, or update the one with its name
  list                                     List stored needles
  show NAME                                Show a needle
  remove NAME                              Remove a needle
  run NAME [--arg KEY=VALUE] [--json OBJECT]  Run a needle once and print its result
  serve                                    Serve every needle on standard input and output
"

end ScriptTools.CommandLine

open ScriptTools.CommandLine in
def main (words : List String) : IO UInt32 := do
  match read words with
  | .ok (.invoke i) =>
    try performHere i
    catch e =>
      IO.eprintln ("Error: " ++ toString e)
      return 1
  | .ok .version =>
    IO.print versionText
    return 0
  | .ok .help =>
    IO.print helpText
    return 0
  | .error e =>
    IO.eprintln ("error: " ++ e.message)
    return 2
