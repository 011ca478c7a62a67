import ScriptTools.Guest.Library.Parameter

/-!
The functions of the global table.
-/

namespace ScriptTools.Guest.Library

open Eval

variable {World : Type}

/-- The place at a level: `1` is where the function under way was called from. -/
def sitePrefix (level : Int64) : Eval World String :=
  if level < 1 then return ""
  else look fun s => (s.sites[(level.toInt - 1).toNat]?.map Site.prefixText).getD ""

/-- Raises an error; a text gets the place of a level in front. -/
def raise {α : Type} (v : Value) (level : Int64) : Eval World α := do
  match v with
  | .string s => error (.string ((← sitePrefix level).toUTF8 ++ s))
  | v => error v

def runAssert (args : List Value) : Eval World (List Value) := do
  let v ← anyArg .assert args 1
  if v.truth then return args
  else raise ((args[1]?).getD (.text "assertion failed!")) 1

def runError (args : List Value) : Eval World (List Value) := do
  let level ← optInt .error args 2 1
  raise (arg args 1) level

def runGetmetatable (args : List Value) : Eval World (List Value) := do
  let v ← anyArg .getmetatable args 1
  match v with
  | .ref (.fault _) => return [.bool false]
  | _ =>
    match ← metatable? v with
    | none => return [.nil]
    | some m =>
      match ← rawGetText m "__metatable" with
      | .nil => return [.table m]
      | shown => return [shown]

def runSetmetatable (args : List Value) : Eval World (List Value) := do
  let id ← tableArg .setmetatable args 1
  let m ←
    match arg? args 2 with
    | some .nil => pure none
    | some (.ref (.table m)) => pure (some m)
    | _ => wrongType .setmetatable args 2 "nil or table"
  match ← metamethod (arg args 1) "__metatable" with
  | .nil =>
    modify fun s => { s with tables := s.tables.modify id fun t => { t with metatable := m } }
    return [arg args 1]
  | _ => fault "cannot change a protected metatable"

def runIpairs (args : List Value) : Eval World (List Value) := do
  let v ← anyArg .ipairs args 1
  return [.builtin .ipairsStep, v, .int 0]

def runIpairsStep (args : List Value) : Eval World (List Value) := do
  let i ← intArg .ipairsStep args 2
  let i := i + 1
  match ← index .native .unnamed (arg args 1) (.int i) with
  | .nil => return [.nil]
  | v => return [.int i, v]

def runNext (args : List Value) : Eval World (List Value) := do
  let id ← tableArg .next args 1
  let key := arg args 2
  let found ← lookTable id fun t =>
    match key, Key.ofValue? key with
    | .nil, _ => t.next? none
    | _, some k => t.next? (some k)
    | _, none => none
  match found with
  | some (some (k, v)) => return [k.toValue, v]
  | some none => return [.nil]
  | none => errorAt .native "invalid key to 'next'"

def runPairs (args : List Value) : Eval World (List Value) := do
  let v ← anyArg .pairs args 1
  match ← metamethod v "__pairs" with
  | .nil => return [.builtin .next, v, .nil]
  | f =>
    let rs ← callBack f [v]
    return [rs[0]?.getD .nil, rs[1]?.getD .nil, rs[2]?.getD .nil]

/-- Runs a computation under a guard and gives its failure as a result. -/
def guarded (g : Guard) (m : Eval World (List Value)) : Eval World (List Value) := do
  let guards ← look fun s => s.guards
  let paused ← look fun s => s.clock.paused
  let mark ← look fun s => s.cells.size
  modify fun s => { s with guards := g :: guards }
  let r ← protect m
  modify fun s => { s with guards, clock := { s.clock with paused } }
  dropCells mark
  match r with
  | .ok vs => return .bool true :: vs
  | .error e => return [.bool false, match e with | .raised v => v | .memory => .text "not enough memory"]

def runPcall (args : List Value) : Eval World (List Value) :=
  match args with
  | [] => error (.text "not enough arguments to pcall")
  | f :: rest => guarded .plain (callBack f rest)

def runXpcall (args : List Value) : Eval World (List Value) :=
  match args with
  | f :: handler :: rest => guarded (.handler handler) (callBack f rest)
  | _ => error (.text "not enough arguments to xpcall")

def runRawequal (args : List Value) : Eval World (List Value) := do
  let a ← anyArg .rawequal args 1
  let b ← anyArg .rawequal args 2
  return [.bool (a.rawEq b)]

def runRawlen (args : List Value) : Eval World (List Value) := do
  match arg args 1 with
  | .ref (.table id) => return [.ofNat (← lookTable id Table.length)]
  | .string s => return [.ofNat s.size]
  | _ => badArgument .rawlen 1 "table or string expected"

def runRawget (args : List Value) : Eval World (List Value) := do
  let id ← tableArg .rawget args 1
  match Key.ofValue? (← anyArg .rawget args 2) with
  | some k => return [← rawGet id k]
  | none => return [.nil]

def runRawset (args : List Value) : Eval World (List Value) := do
  let id ← tableArg .rawset args 1
  let key ← anyArg .rawset args 2
  let v ← anyArg .rawset args 3
  setRaw .native id key v
  return [arg args 1]

def runSelect (args : List Value) : Eval World (List Value) := do
  match arg args 1 with
  | .string s =>
    if s == "#".toUTF8 then return [.ofNat (args.length - 1)]
  | _ => pure ()
  let n := (← intArg .select args 1).toInt
  let i := if n < 0 then (args.length : Int) + n else min n args.length
  check .select 1 (1 ≤ i) "index out of range"
  return args.drop i.toNat

/-- The digit that a byte is in bases up to 36. -/
def digitOf? (b : UInt8) : Option Nat :=
  if 48 ≤ b && b ≤ 57 then some (b.toNat - 48)
  else if 65 ≤ b && b ≤ 90 then some (b.toNat - 55)
  else if 97 ≤ b && b ≤ 122 then some (b.toNat - 87)
  else none

def isSpaceByte (b : UInt8) : Bool := b == 32 || (9 ≤ b && b ≤ 13)

/-- The integer that a text writes in a base; it wraps around. -/
def readInBase? (base : Nat) (s : ByteArray) : Option Int64 := do
  let bytes := s.toList.dropWhile isSpaceByte
  let (negative, bytes) :=
    match bytes with
    | 45 :: rest => (true, rest)
    | 43 :: rest => (false, rest)
    | _ => (false, bytes)
  let digits := bytes.takeWhile fun b => (digitOf? b).isSome
  guard (!digits.isEmpty && (bytes.drop digits.length).all isSpaceByte)
  let n ← digits.foldlM (fun (n : Int64) b => do
    let d ← digitOf? b
    guard (d < base)
    pure (n * Int64.ofNat base + Int64.ofNat d)) 0
  pure (if negative then 0 - n else n)

def runTonumber (args : List Value) : Eval World (List Value) := do
  if isMissing args 2 then
    match ← anyArg .tonumber args 1 with
    | .number n => return [.number n]
    | .string s =>
      match Value.readNumber? s with
      | some n => return [.number n]
      | none => return [.nil]
    | _ => return [.nil]
  else
    let base ← intArg .tonumber args 2
    match arg args 1 with
    | .string s =>
      check .tonumber 2 (2 ≤ base && base ≤ 36) "base out of range"
      match readInBase? base.toNatClampNeg s with
      | some i => return [.int i]
      | none => return [.nil]
    | _ => wrongType .tonumber args 1 "string"

def runTostring (args : List Value) : Eval World (List Value) := do
  let v ← anyArg .tostring args 1
  return [← newString (← textOf v)]

def runType (args : List Value) : Eval World (List Value) := do
  let v ← anyArg .type args 1
  return [.text v.typeName]

/-- Warnings go nowhere. -/
def runWarn (args : List Value) : Eval World (List Value) := do
  for i in List.range (max 1 args.length) do
    let _ ← stringArg .warn args (i + 1)
  return []

/-- The requests to the keeper of memory, which has nothing to do here but to tell what is in use. -/
def runCollectgarbage (args : List Value) : Eval World (List Value) := do
  let request ← optString .collectgarbage args 1 "collect".toUTF8
  match Text.ofBytesRepaired request with
  | "count" =>
    let used ← look fun s => s.memory.used + 22000
    return [.float (Float.ofNat used / 1024)]
  | "collect" | "stop" | "restart" => return [.int 0]
  | "step" => return [.bool true]
  | "isrunning" => return [.bool true]
  | "generational" | "incremental" => return [.text "incremental"]
  | "setpause" => return [.int 200]
  | "setstepmul" => return [.int 100]
  | other => badArgument .collectgarbage 1 ("invalid option '" ++ other ++ "'")

end ScriptTools.Guest.Library
