import ScriptTools.Guest.Builtin
import ScriptTools.Guest.Number

/-!
The values of scripts. What has an identity is a reference into the state of the script.
-/

namespace ScriptTools.Guest

inductive Ref where
  | table (id : Nat)
  | closure (id : Nat)
  | builtin (b : Builtin)
  /-- A function of the host. -/
  | host (id : Nat)
  /-- A search through a string that goes on where it stopped. -/
  | search (id : Nat)
  /-- An error of the host, which a script can pass on but not look into. -/
  | fault (id : Nat)
deriving DecidableEq, Repr, Hashable, Inhabited

inductive Value where
  | nil
  | bool (b : Bool)
  | number (n : Number)
  | string (s : ByteArray)
  | ref (r : Ref)
deriving Inhabited

namespace Value

def int (i : Int64) : Value := .number (.int i)

def float (x : Float) : Value := .number (.float x)

def ofNat (n : Nat) : Value := int (Int64.ofNat n)

def text (s : String) : Value := .string s.toUTF8

def builtin (b : Builtin) : Value := .ref (.builtin b)

def table (id : Nat) : Value := .ref (.table id)

/-- Everything but `nil` and `false` counts as true. -/
def truth : Value → Bool
  | .nil => false
  | .bool b => b
  | _ => true

def isNil : Value → Bool
  | .nil => true
  | _ => false

def typeName : Value → String
  | .nil => "nil"
  | .bool _ => "boolean"
  | .number _ => "number"
  | .string _ => "string"
  | .ref (.table _) => "table"
  | .ref (.fault _) => "userdata"
  | .ref _ => "function"

/-- Equality without metamethods. -/
def rawEq : Value → Value → Bool
  | .nil, .nil => true
  | .bool a, .bool b => a == b
  | .number a, .number b => a.eq b
  | .string a, .string b => a == b
  | .ref a, .ref b => a == b
  | _, _ => false

/-- The number that a string spells. -/
def readNumber? (s : ByteArray) : Option Number :=
  Number.read? (s.toList.map fun b => Char.ofNat b.toNat)

/-- The number that a value is or spells. -/
def toNumber? : Value → Option Number
  | .number n => some n
  | .string s => readNumber? s
  | _ => none

/-- The integer that a value is or spells. -/
def toInt? (v : Value) : Option Int64 := v.toNumber?.bind Number.toInt?

end Value

/-- The order of strings by bytes. -/
def bytesLt (a b : ByteArray) : Bool := go 0 (min a.size b.size)
where
  go (i : Nat) : Nat → Bool
    | 0 => a.size < b.size
    | n + 1 => if a.get! i == b.get! i then go (i + 1) n else a.get! i < b.get! i

/-- Strings are compared as arrays of bytes. -/
local instance decidableEqBytes : DecidableEq ByteArray := ByteArray.instDecidableEq

/-- What can be the key of an entry: any value but `nil` and NaN. A double with the value of an integer
is that integer. -/
inductive Key where
  | bool (b : Bool)
  | int (i : Int64)
  | float (bits : UInt64)
  | string (s : ByteArray)
  | ref (r : Ref)
deriving DecidableEq, Hashable, Inhabited

namespace Key

def ofFloat? (x : Float) : Option Key :=
  match Decimal.whole? x with
  | some i => some (.int i)
  | none => if x.isNaN then none else some (.float x.toBits)

def ofValue? : Value → Option Key
  | .nil => none
  | .bool b => some (.bool b)
  | .number (.int i) => some (.int i)
  | .number (.float x) => ofFloat? x
  | .string s => some (.string s)
  | .ref r => some (.ref r)

def toValue : Key → Value
  | .bool b => .bool b
  | .int i => .int i
  | .float bits => .float (Float.ofBits bits)
  | .string s => .string s
  | .ref r => .ref r

def text (s : String) : Key := .string s.toUTF8

end Key

end ScriptTools.Guest
