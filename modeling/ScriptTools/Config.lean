import ScriptTools.Executor
import ScriptTools.Policy.Codec

/-!
Settings of an installation: where scripts keep their files, what they may use up, and the policy. They describe an
executor with all capabilities, within the limits.
-/

namespace ScriptTools

structure Config where
  root : String := "sandbox"
  deadlineSeconds : Nat := 30
  memoryMegabytes : Nat := 64
  networkTimeoutSeconds : Nat := 10
  policy : Policy := Policy.restrictive
deriving DecidableEq, Repr

inductive ConfigError where
  | unreadable
  | policy (d : Policy.Defect)
  | zeroDeadline
  | zeroNetworkTimeout
deriving DecidableEq, Repr

namespace ConfigError

def message : ConfigError → String
  | .unreadable => "failed to parse config"
  | .policy d => d.message
  | .zeroDeadline => "invalid config: sandbox.deadline_secs must be positive"
  | .zeroNetworkTimeout => "invalid config: sandbox.network_timeout_secs must be positive"

end ConfigError

namespace Config

open Json (Document)

/-- A whole number that is not negative. -/
def count? (d : Document) : Option Nat :=
  match d with
  | .number n =>
    match n.value? with
    | some (.int i) => if 0 ≤ i then some i.toNat else none
    | _ => none
  | _ => none

/-- The value of a member, or the default when it is left out. -/
def member? {α : Type} (read : Document → Option α) (default : α) (d : Option Document) : Option α :=
  (d.map read).getD (some default)

/-- Sets the limits and the root from the table `sandbox`. -/
def readSandbox? (c : Config) (d : Document) : Option Config := do
  match ← d.members? ["root", "deadline_secs", "memory_limit_mb", "network_timeout_secs"] with
  | [root, deadline, memory, network] =>
    let root ← member? Document.string? c.root root
    let deadlineSeconds ← member? count? c.deadlineSeconds deadline
    let memoryMegabytes ← member? count? c.memoryMegabytes memory
    let networkTimeoutSeconds ← member? count? c.networkTimeoutSeconds network
    pure { c with root, deadlineSeconds, memoryMegabytes, networkTimeoutSeconds }
  | _ => none

/-- Settings from the tables of a file. Without a table for the policy the restrictive one holds. -/
def ofDocument? (d : Document) : Option Config := do
  match ← d.members? ["sandbox", "allow", "deny"] with
  | [sandbox, allow, deny] =>
    let c ← (sandbox.map (readSandbox? {})).getD (some {})
    let policy ← Policy.ofTables? allow deny
    pure (if allow.isSome || deny.isSome then { c with policy } else c)
  | _ => none

def validate (c : Config) : Except ConfigError Config :=
  match c.policy.validate with
  | .error d => .error (.policy d)
  | .ok () =>
    if c.deadlineSeconds = 0 then .error .zeroDeadline
    else if c.networkTimeoutSeconds = 0 then .error .zeroNetworkTimeout
    else .ok c

/-- The settings that a text writes. -/
def load (toml : String) : Except ConfigError Config :=
  match (Toml.parse? toml).bind fun v => ofDocument? v.toDocument with
  | none => .error .unreadable
  | some c => c.validate

/-- The limits of a run. A memory limit of zero leaves the default in place; the product is a word of 64
bits. -/
def limits (c : Config) : Limits where
  deadline := some (.ofSeconds c.deadlineSeconds)
  memory :=
    if c.memoryMegabytes = 0 then Limits.memory {}
    else some (c.memoryMegabytes * 1024 * 1024 % Nat.pow 2 64)

open Files (Disk DiskError Path)

/-- Makes the root of the files if it is missing. The path of the root is seen from a directory. Log
entries of scripts are not kept. -/
def executor (c : Config) (directory : Path) (d : Disk) : Disk × Except DiskError Executor :=
  if c.root = "" then (d, .error .missing)
  else
    let (d, files) := Files.Access.create d (Disk.place directory c.root) c.policy
    let build (files : Files.Access) : Executor :=
      { capabilities :=
          [.files files, .network { policy := c.policy, timeout := .ofSeconds c.networkTimeoutSeconds },
            .log false]
        limits := c.limits }
    (d, files.map build)

end Config

end ScriptTools
