/-!
The words of a command line. Options may stand anywhere; a value follows its option as the next word, or
is attached to it. After the word `--` every word is plain.
-/

namespace ScriptTools.CommandLine

inductive Command where
  | add (file : String)
  | list
  | describe (name : String)
  | remove (name : String)
  | run (name : String) (pairs : List String) (json : Option String)
  | serve
deriving DecidableEq, Repr

structure Invocation where
  config : String := "needle.toml"
  command : Command
deriving DecidableEq, Repr

/-- What a command line asks for. -/
inductive Action where
  | help
  | version
  | invoke (i : Invocation)
deriving DecidableEq, Repr

inductive UsageError where
  | noCommand
  | unknownCommand (word : String)
  | unexpected (word : String)
  | noValue (option : String)
  | repeated (option : String)
  | missing (value : String)
deriving DecidableEq, Repr

def UsageError.message : UsageError → String
  | .noCommand => "a command is required"
  | .unknownCommand word => "unrecognized command '" ++ word ++ "'"
  | .unexpected word => "unexpected argument '" ++ word ++ "'"
  | .noValue option => "a value is required for '" ++ option ++ "'"
  | .repeated option => "'" ++ option ++ "' cannot be used more than once"
  | .missing value => "the argument " ++ value ++ " is required"

inductive CommandName where
  | add
  | list
  | describe
  | remove
  | run
  | serve
deriving DecidableEq, Repr

namespace CommandName

def text : CommandName → String
  | .add => "add"
  | .list => "list"
  | .describe => "show"
  | .remove => "remove"
  | .run => "run"
  | .serve => "serve"

def all : List CommandName := [.add, .list, .describe, .remove, .run, .serve]

def ofText? (s : String) : Option CommandName := all.find? fun c => c.text = s

end CommandName

inductive Flag where
  | help
  | version
  | config
  | pair
  | json
deriving DecidableEq, Repr

namespace Flag

/-- The letter and the long name. -/
def names : Flag → Option Char × String
  | .help => (some 'h', "help")
  | .version => (some 'V', "version")
  | .config => (some 'c', "config")
  | .pair => (some 'a', "arg")
  | .json => (none, "json")

/-- The long form as it is typed. -/
def text (f : Flag) : String := "--" ++ f.names.2

def takesValue : Flag → Bool
  | .help | .version => false
  | .config | .pair | .json => true

/-- The flags before a command. -/
def general : List Flag := [.help, .version, .config]

/-- The flags after a command. -/
def ofCommand : CommandName → List Flag
  | .run => [.help, .config, .pair, .json]
  | _ => [.help, .config]

end Flag

/-- A word as it is understood where the given flags are known. -/
inductive Word where
  | flag (f : Flag) (attached : Option String)
  | plain (text : String)
  | separator
  | unknown
deriving DecidableEq, Repr

namespace Word

/-- A long option, with a value after an equals sign. -/
def readLong (known : List Flag) (body : List Char) : Word :=
  let (name, rest) := body.span (· != '=')
  let attached := if rest.isEmpty then none else some (String.ofList (rest.drop 1))
  match known.find? fun f => f.names.2 = String.ofList name with
  | some f => if attached.isSome && !f.takesValue then .unknown else .flag f attached
  | none => .unknown

/-- A letter, with a value right after it or after an equals sign. -/
def readShort (known : List Flag) (letter : Char) (rest : List Char) : Word :=
  match known.find? fun f => f.names.1 = some letter with
  | some f =>
    if rest.isEmpty || !f.takesValue then .flag f none
    else .flag f (some (String.ofList (if rest.head? = some '=' then rest.drop 1 else rest)))
  | none => .unknown

def read (known : List Flag) (word : String) : Word :=
  match word.toList with
  | ['-', '-'] => .separator
  | '-' :: '-' :: body => readLong known body
  | '-' :: letter :: rest => readShort known letter rest
  | _ => .plain word

end Word

/-- A word that can be the value of an option before it. -/
def isValue (word : String) : Bool :=
  match Word.read [] word with
  | .plain _ => true
  | _ => false

/-- What has been read after a command; the plain words and the pairs are latest first. -/
structure Given where
  plain : List String := []
  config : Option String := none
  pairs : List String := []
  json : Option String := none

namespace Given

/-- Takes in the value of an option. Only pairs may come again, and the path of the settings is not
empty. -/
def set (g : Given) (f : Flag) (value : String) : Except UsageError Given :=
  match f with
  | .config =>
    if g.config.isSome then .error (.repeated f.text)
    else if value = "" then .error (.noValue f.text)
    else .ok { g with config := some value }
  | .json => if g.json.isSome then .error (.repeated f.text) else .ok { g with json := some value }
  | _ => .ok { g with pairs := value :: g.pairs }

end Given

/-- Reads the words at one level, which knows the given flags. Where a plain word `ends` the level, it is
left over with the words after it. -/
def readWords (known : List Flag) (ends : Bool) (g : Given) :
    List String → Except UsageError (Option Action × Given × List String)
  | [] => .ok (none, g, [])
  | word :: rest =>
    match Word.read known word with
    | .flag .help _ => .ok (some .help, g, rest)
    | .flag .version _ => .ok (some .version, g, rest)
    | .flag f (some value) =>
      match g.set f value with
      | .ok g => readWords known ends g rest
      | .error e => .error e
    | .flag f none =>
      match rest with
      | [] => .error (.noValue f.text)
      | value :: rest =>
        if isValue value then
          match g.set f value with
          | .ok g => readWords known ends g rest
          | .error e => .error e
        else .error (.noValue f.text)
    | .plain text =>
      if ends then .ok (none, g, word :: rest)
      else readWords known ends { g with plain := text :: g.plain } rest
    | .separator =>
      match ends, rest with
      | true, next :: _ => .error (.unexpected next)
      | _, _ => .ok (none, { g with plain := rest.reverse ++ g.plain }, [])
    | .unknown => .error (.unexpected word)

/-- The only plain word, which is the value of the given name. -/
def onlyWord (value : String) : List String → Except UsageError String
  | [word] => .ok word
  | [] => .error (.missing value)
  | _ :: word :: _ => .error (.unexpected word)

def noWord : List String → Except UsageError Unit
  | [] => .ok ()
  | word :: _ => .error (.unexpected word)

/-- The command of a name and what was read after it. -/
def command (name : CommandName) (g : Given) : Except UsageError Command :=
  let words := g.plain.reverse
  match name with
  | .add => do
    let file ← onlyWord "<FILE>" words
    if file = "" then throw (.missing "<FILE>")
    pure (.add file)
  | .list => (noWord words).map fun _ => .list
  | .describe => (onlyWord "<NAME>" words).map .describe
  | .remove => (onlyWord "<NAME>" words).map .remove
  | .run => (onlyWord "<NAME>" words).map fun n => .run n g.pairs.reverse g.json
  | .serve => (noWord words).map fun _ => .serve

/-- Reads what follows the name of a command. A path of the settings given there wins over one given
before. -/
def readCommand (config : Option String) (name : CommandName) (words : List String) :
    Except UsageError Action := do
  match ← readWords (Flag.ofCommand name) false {} words with
  | (some action, _) => pure action
  | (none, g, _) =>
    let command ← command name g
    match g.config <|> config with
    | some config => pure (.invoke { config, command })
    | none => pure (.invoke { command })

/-- What a command line asks for. -/
def read (words : List String) : Except UsageError Action := do
  match ← readWords Flag.general true {} words with
  | (some action, _) => pure action
  | (none, _, []) => throw .noCommand
  | (none, g, word :: rest) =>
    match CommandName.ofText? word with
    | some name => readCommand g.config name rest
    | none => if word = "help" then pure .help else throw (.unknownCommand word)

end ScriptTools.CommandLine
