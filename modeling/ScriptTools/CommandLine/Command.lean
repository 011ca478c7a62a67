import ScriptTools.CommandLine.Arguments
import ScriptTools.CommandLine.Invocation
import ScriptTools.CommandLine.Listing
import ScriptTools.Config
import ScriptTools.Rpc.Server
import ScriptTools.Tool.Authoring

/-!
What the commands do. They act on an installation, which has no store until a command makes one.
-/

namespace ScriptTools.CommandLine

open Files (Disk DiskError Path)

/-- Where and when a command is given. -/
structure Setting where
  directory : Path
  database : String
  now : Timestamp
  freshId : ToolId
  clock : Instant := .start

/-- The world, and the stored tools. -/
structure Installation where
  world : World := {}
  store : Option Store := none

inductive CommandError where
  | noDatabase (path : String)
  | unknownTool (name : String)
  | badDefinition (file : String)
  | argument (e : ArgumentFault)
  | configFile (e : DiskError)
  | config (e : ConfigError)
  | run (e : RunError)
  | query (e : QueryError)
  | define (e : Store.DefineError)
  | disk (e : DiskError)

def CommandError.message : CommandError → String
  | .noDatabase path => "database not found at " ++ path ++ ". Run 'needle add' first"
  | .unknownTool name => "no needle named '" ++ name ++ "'"
  | .badDefinition file => "invalid needle definition in " ++ file
  | .argument e => e.message
  | .configFile e => "failed to read config: " ++ e.message
  | .config e => e.message
  | .run e => e.message
  | .query e => e.message
  | .define e => e.message
  | .disk e => e.message

/-- What a command comes to: a text to print, or a server that answers from then on. -/
inductive Reply where
  | text (s : String)
  | serving (server : Rpc.Server)

/-- What a command does; its effects stay when it fails. -/
abbrev Commanded := ExceptT CommandError (StateM Installation)

/-- The file of the tools, in the directory that the environment names. -/
def databasePath (environment : String → Option String) : String :=
  let join (directory name : String) : String :=
    if directory = "" || directory.toList.getLast? == some '/' then directory ++ name
    else directory ++ "/" ++ name
  let directory :=
    match environment "NEEDLE_DATA_DIR", environment "XDG_DATA_HOME", environment "HOME" with
    | some own, _, _ => own
    | none, some shared, _ => join shared "needle"
    | none, none, some home => join (join home ".local/share") "needle"
    | none, none, none => ".needle"
  join directory "needles.db"

/-- The outcome of something as the outcome of a command. -/
def orFail {ε α : Type} (error : ε → CommandError) : Except ε α → Commanded α
  | .ok a => pure a
  | .error e => throw (error e)

variable (s : Setting)

/-- The store, which must be there. -/
def openStore : Commanded Store := do
  match (← get).store with
  | some store => pure store
  | none => throw (.noDatabase s.database)

/-- The store, which is made if it is not there. -/
def createStore : Commanded Store := do
  match (← get).store with
  | some store => pure store
  | none =>
    modify fun i => { i with store := some {} }
    pure {}

def keepStore (store : Store) : Commanded Unit := modify fun i => { i with store := some store }

def findTool (store : Store) (name : String) : Commanded Tool := do
  match ← orFail .query (store.find name) with
  | some t => pure t
  | none => throw (.unknownTool name)

/-- The settings in a file; the default ones when nothing is there. -/
def readConfig (file : String) : Commanded Config := do
  let disk := (← get).world.disk
  let path := Disk.place s.directory file
  if (disk.canonical? path).isSome then
    orFail .config (Config.load (← orFail .configFile (disk.readText path)))
  else pure {}

def makeExecutor (c : Config) : Commanded Executor := do
  let i ← get
  let (disk, executor) := c.executor s.directory i.world.disk
  set { i with world := { i.world with disk } }
  orFail .disk executor

def add (file : String) : Commanded Reply := do
  let text ← orFail .disk ((← get).world.disk.readText (Disk.place s.directory file))
  match Definition.load? file text with
  | none => throw (.badDefinition file)
  | some definition =>
    let store ← createStore
    let revision ← orFail .define (store.define definition s.freshId s.now)
    keepStore revision.store
    let verb := if revision.isUpdate then "Updated" else "Added"
    let tool := revision.tool
    pure (.text (verb ++ " needle '" ++ tool.name ++ "' (" ++ tool.id.text ++ ")\n"))

def remove (name : String) : Commanded Reply := do
  match ← orFail .query ((← openStore s).remove name) with
  | none => throw (.unknownTool name)
  | some (store, tool) =>
    keepStore store
    pure (.text ("Removed needle '" ++ tool.name ++ "'\n"))

/-- Runs a tool. The arguments are read first, then the tool is looked up, then the settings are read. -/
def run (config name : String) (pairs : List String) (json : Option String) : Commanded Reply := do
  let raw ← orFail .argument (arguments json pairs)
  let tool ← findTool (← openStore s) name
  let executor ← makeExecutor s (← readConfig s config)
  let i ← get
  let (result, world) := executor.runJsonAt s.clock tool raw i.world
  set { i with world }
  let value ← orFail .run result
  pure (.text (value.text ++ "\n"))

def perform (i : Invocation) : Commanded Reply :=
  match i.command with
  | .add file => add s file
  | .list => do pure (.text (table (← orFail .query (← openStore s).list)))
  | .describe name => do pure (.text (page (← findTool (← openStore s) name)))
  | .remove name => remove s name
  | .run name pairs json => run s i.config name pairs json
  | .serve => do
    let executor ← makeExecutor s (← readConfig s i.config)
    pure (.serving ⟨← createStore, executor⟩)

def versionText : String := "needle " ++ Rpc.serverVersion ++ "\n"

end ScriptTools.CommandLine
