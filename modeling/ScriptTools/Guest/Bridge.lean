import ScriptTools.Decimal.Notation
import ScriptTools.Guest.Memory

/-!
Values that pass between script and host. A table whose keys are exactly `1` to `n` is a list, any other
table a map with text keys. What has no counterpart on the other side is refused.
-/

namespace ScriptTools.Guest

namespace Bridge

/-- How deep tables may be nested. -/
def depthLimit : Nat := 64

/-- The largest magnitude of an integer that a double holds exactly, with all below it. -/
def exactLimit : Nat := Nat.pow 2 53

inductive Defect where
  | value (type : String)
  | key (type : String)
  | inexact (i : Int64)
  | tooDeep
deriving DecidableEq, Repr

def Defect.message : Defect → String
  | .value type => type ++ " values cannot cross the sandbox boundary"
  | .key type => "table keys of type " ++ type ++ " cannot cross the sandbox boundary"
  | .inexact i =>
    "integer " ++ toString i.toInt ++ " cannot cross the sandbox boundary without losing precision"
  | .tooDeep =>
    "tables nested deeper than " ++ toString depthLimit ++ " levels cannot cross the sandbox boundary"

/-- The name of a type that cannot pass. -/
def typeName : Value → String
  | .ref (.fault _) => "error"
  | v => v.typeName

/-- The key of a map that a key of a table becomes. -/
def keyText : Key → Except Defect String
  | .string s => .ok (Text.ofBytesRepaired s)
  | .int i => .ok (toString i.toInt)
  | .float bits => .ok (Decimal.Layout.plain.text (Float.ofBits bits))
  | k => .error (.key (typeName k.toValue))

/-- The place of a key in a list of a given length. -/
def place? (length : Nat) : Key → Option Nat
  | .int i => if 1 ≤ i.toInt && i.toInt ≤ length then some i.toInt.toNat else none
  | _ => none

/-- The places of all keys, if each has one in a list of as many entries. -/
def places? (entries : List (Key × Value)) (length : Nat) : Option (List Nat) :=
  if entries.length = length then entries.mapM fun e => place? length e.1 else none

/-- A table as a value of the host, from its entries in any order and its length. -/
def tableValue (convert : Value → Except Defect HostValue) (entries : List (Key × Value))
    (length : Nat) : Except Defect HostValue :=
  match places? entries length with
  | some places => do
    let values ← entries.mapM fun e => convert e.2
    let ordered := (places.zip values).mergeSort fun a b => a.1 ≤ b.1
    pure (.list (ordered.map (·.2)))
  | none => do
    let pairs ← entries.mapM fun e => do
      let k ← keyText e.1
      let v ← convert e.2
      pure (k, v)
    pure (.ofEntries pairs)

/-- A value for the host, with tables at most `levels` deep. -/
def toHost (tables : Nat → Table) : Nat → Value → Except Defect HostValue
  | _, .nil => .ok .nil
  | _, .bool b => .ok (.bool b)
  | _, .number (.int i) =>
    if i.toInt.natAbs ≤ exactLimit then .ok (.number (Decimal.ofInt i.toInt)) else .error (.inexact i)
  | _, .number (.float x) => .ok (.number x)
  | _, .string s => .ok (.str (Text.ofBytesRepaired s))
  | 0, .ref (.table _) => .error .tooDeep
  | levels + 1, .ref (.table id) =>
    tableValue (toHost tables levels) (tables id).entries (tables id).length
  | _, v@(.ref _) => .error (.value (typeName v))

/-- A number for the script: an integer if it is one. -/
def ofHostNumber (x : Float) : Value :=
  match Decimal.whole? x with
  | some i => .int i
  | none => .float x

end Bridge

open Eval

variable {World : Type}

mutual

/-- A value from the host. -/
def ofHost : HostValue → Eval World Value
  | .nil => return .nil
  | .bool b => return .bool b
  | .number x => return Bridge.ofHostNumber x
  | .str s => newText s
  | .list items => do
    let t ← newTable {}
    match t with
    | .ref (.table id) => ofHostItems id 1 items
    | _ => pure ()
    return t
  | .map entries => do
    let t ← newTable {}
    match t with
    | .ref (.table id) => ofHostEntries id entries
    | _ => pure ()
    return t

def ofHostItems (id i : Nat) : List HostValue → Eval World Unit
  | [] => return
  | v :: rest => do
    let value ← ofHost v
    rawSet id (.int (Int64.ofNat i)) value
    ofHostItems id (i + 1) rest

def ofHostEntries (id : Nat) : List (String × HostValue) → Eval World Unit
  | [] => return
  | (key, v) :: rest => do
    let value ← ofHost v
    rawSet id (.text key) value
    ofHostEntries id rest

end

/-- A value for the host. -/
def toHost (v : Value) : Eval World (Except Bridge.Defect HostValue) :=
  look fun s => Bridge.toHost (fun id => s.tables[id]?.getD {}) Bridge.depthLimit v

end ScriptTools.Guest
