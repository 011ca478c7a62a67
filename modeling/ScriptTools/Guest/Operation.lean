import ScriptTools.Guest.Call

/-!
The operations on values, with the metamethods that stand in where a value has none of its own.
-/

namespace ScriptTools.Guest

namespace ArithOp

/-- The name of the metamethod of an operator, without its underscores. -/
def event : ArithOp → String
  | add => "add"
  | sub => "sub"
  | mul => "mul"
  | div => "div"
  | mod => "mod"
  | pow => "pow"
  | floorDiv => "idiv"

def applyInt (op : ArithOp) (a b : Int64) : Option Number :=
  match op with
  | add => some (.int (a + b))
  | sub => some (.int (a - b))
  | mul => some (.int (a * b))
  | div => some (.float ((Number.int a).toFloat / (Number.int b).toFloat))
  | pow => some (.float (Number.floatPow (Number.int a).toFloat (Number.int b).toFloat))
  | mod => if b = 0 then none else some (.int (Number.intMod a b))
  | floorDiv => if b = 0 then none else some (.int (Number.intDiv a b))

def applyFloat (op : ArithOp) (a b : Float) : Float :=
  match op with
  | add => a + b
  | sub => a - b
  | mul => a * b
  | div => a / b
  | pow => Number.floatPow a b
  | mod => Number.floatMod a b
  | floorDiv => (a / b).floor

/-- The result on two numbers; none when integers are divided by zero. -/
def apply (op : ArithOp) : Number → Number → Option Number
  | .int a, .int b => op.applyInt a b
  | a, b => some (.float (op.applyFloat a.toFloat b.toFloat))

/-- The message about a division of integers by zero. -/
def zeroMessage (op : ArithOp) : String :=
  match op with
  | mod => "attempt to perform 'n%%0'"
  | _ => "attempt to perform 'n//0'"

end ArithOp

namespace BitOp

def event : BitOp → String
  | and => "band"
  | or => "bor"
  | xor => "bxor"
  | shiftLeft => "shl"
  | shiftRight => "shr"

def apply (op : BitOp) (a b : Int64) : Int64 :=
  match op with
  | and => a &&& b
  | or => a ||| b
  | xor => a ^^^ b
  | shiftLeft => Number.shiftLeft a b
  | shiftRight => Number.shiftRight a b

end BitOp

def negateNumber : Number → Number
  | .int i => .int (0 - i)
  | .float x => .float (-x)

namespace Value

def isNumber : Value → Bool
  | .number _ => true
  | _ => false

/-- The text of a string or number where they are joined. -/
def joined? : Value → Option ByteArray
  | .string s => some s
  | .number n => some n.text.toUTF8
  | _ => none

end Value

/-- How often a look-up may go on from one table to another. -/
def chainLimit : Nat := 2000

namespace Eval

variable {World α : Type}

/-- The value of a key. Where a table has none, its metatable says where to look. -/
def indexChain (site : Site) (d : Designation) (key : Value) : Nat → Value → Eval World Value
  | 0, _ => errorAt site "'__index' chain too long; possibly a loop"
  | n + 1, v => do
    let goOn (handler : Value) : Eval World Value :=
      match handler with
      | .ref (.closure _) | .ref (.builtin _) | .ref (.host _) | .ref (.search _) =>
        callMeta site "index" handler [v, key]
      | _ => indexChain site .unnamed key n handler
    match v with
    | .ref (.table id) =>
      let own ←
        match Key.ofValue? key with
        | some k => rawGet id k
        | none => pure .nil
      if !own.isNil then return own
      match ← lookTable id fun t => t.metatable with
      | none => return .nil
      | some m =>
        match ← rawGetText m "__index" with
        | .nil => return .nil
        | handler => goOn handler
    | _ =>
      match ← metamethod v "__index" with
      | .nil => typeFault site "index" v d
      | handler => goOn handler

def index (site : Site) (d : Designation) (v key : Value) : Eval World Value :=
  indexChain site d key chainLimit v

/-- Sets an entry without metamethods. -/
def setRaw (site : Site) (id : Nat) (key v : Value) : Eval World Unit :=
  match Key.ofValue? key with
  | some k => rawSet id k v
  | none =>
    match key with
    | .nil => errorAt site "table index is nil"
    | _ => errorAt site "table index is NaN"

def setIndexChain (site : Site) (d : Designation) (key new : Value) : Nat → Value → Eval World Unit
  | 0, _ => errorAt site "'__newindex' chain too long; possibly a loop"
  | n + 1, v => do
    let goOn (handler : Value) : Eval World Unit :=
      match handler with
      | .ref (.closure _) | .ref (.builtin _) | .ref (.host _) | .ref (.search _) => do
        let _ ← callMeta site "newindex" handler [v, key, new]
      | _ => setIndexChain site .unnamed key new n handler
    match v with
    | .ref (.table id) =>
      match ← lookTable id fun t => t.metatable with
      | none => setRaw site id key new
      | some m =>
        match ← rawGetText m "__newindex" with
        | .nil => setRaw site id key new
        | handler =>
          let own ←
            match Key.ofValue? key with
            | some k => rawGet id k
            | none => pure .nil
          if own.isNil then goOn handler else setRaw site id key new
    | _ =>
      match ← metamethod v "__newindex" with
      | .nil => typeFault site "index" v d
      | handler => goOn handler

def setIndex (site : Site) (d : Designation) (v key new : Value) : Eval World Unit :=
  setIndexChain site d key new chainLimit v

/-- The metamethod of an event for two operands, the first one that has it. -/
def binaryMeta (event : String) (a b : Value) : Eval World Value := do
  match ← metamethod a event with
  | .nil => metamethod b event
  | f => return f

/-- The operand that a message blames: the second one if the first is as it should be. -/
def blamed (good : Value → Bool) (a b : Value) (da db : Designation) : Value × Designation :=
  if good a then (b, db) else (a, da)

def arith (site : Site) (op : ArithOp) (a b : Value) (da db : Designation) : Eval World Value := do
  match a, b with
  | .number x, .number y =>
    match op.apply x y with
    | some n => return .number n
    | none => errorAt site op.zeroMessage
  | _, _ =>
    match ← binaryMeta ("__" ++ op.event) a b with
    | .nil =>
      let (v, d) := blamed Value.isNumber a b da db
      typeFault site "perform arithmetic on" v d
    | f => callMeta site op.event f [a, b]

/-- The error about operands of which one has no integer to work on. -/
def bitFault (site : Site) (a b : Value) (da db : Designation) : Eval World α := do
  if a.isNumber && b.isNumber then
    let (_, d) := blamed (fun v => v.toInt?.isSome) a b da db
    errorAt site ("number" ++ d.remark ++ " has no integer representation")
  else
    let (v, d) := blamed Value.isNumber a b da db
    typeFault site "perform bitwise operation on" v d

def bits (site : Site) (op : BitOp) (a b : Value) (da db : Designation) : Eval World Value := do
  match a.toInt?, b.toInt? with
  | some x, some y => return .int (op.apply x y)
  | _, _ =>
    match ← binaryMeta ("__" ++ op.event) a b with
    | .nil => bitFault site a b da db
    | f => callMeta site op.event f [a, b]

def negate (site : Site) (v : Value) (d : Designation) : Eval World Value := do
  match v with
  | .number n => return .number (negateNumber n)
  | _ =>
    match ← metamethod v "__unm" with
    | .nil => typeFault site "perform arithmetic on" v d
    | f => callMeta site "unm" f [v, v]

def complement (site : Site) (v : Value) (d : Designation) : Eval World Value := do
  match v.toInt? with
  | some i => return .int (-1 ^^^ i)
  | none =>
    match ← metamethod v "__bnot" with
    | .nil => bitFault site v v d d
    | f => callMeta site "bnot" f [v, v]

def length (site : Site) (v : Value) (d : Designation) : Eval World Value := do
  match v with
  | .string s => return .ofNat s.size
  | _ =>
    match ← metamethod v "__len", v with
    | .nil, .ref (.table id) => return .ofNat (← lookTable id Table.length)
    | .nil, _ => typeFault site "get length of" v d
    | f, _ => callMeta site "len" f [v, v]

def concat (site : Site) (a b : Value) (da db : Designation) : Eval World Value := do
  match a.joined?, b.joined? with
  | some x, some y =>
    allocate (stringBytes x + y.size)
    return .string (x ++ y)
  | _, _ =>
    match ← binaryMeta "__concat" a b with
    | .nil =>
      let (v, d) := blamed (fun v => v.joined?.isSome) a b da db
      typeFault site "concatenate" v d
    | f => callMeta site "concat" f [a, b]

/-! Comparison -/

def equals (site : Site) (a b : Value) : Eval World Bool := do
  match a, b with
  | .ref (.table x), .ref (.table y) =>
    if x = y then return true
    match ← binaryMeta "__eq" a b with
    | .nil => return false
    | f => return (← callMeta site "eq" f [a, b]).truth
  | _, _ => return a.rawEq b

def orderFault (site : Site) (a b : Value) : Eval World α := do
  let x ← typeTitle a
  let y ← typeTitle b
  if x = y then errorAt site ("attempt to compare two " ++ x ++ " values")
  else errorAt site ("attempt to compare " ++ x ++ " with " ++ y)

def less (site : Site) (a b : Value) : Eval World Bool := do
  match a, b with
  | .number x, .number y => return x.lt y
  | .string x, .string y => return bytesLt x y
  | _, _ =>
    match ← binaryMeta "__lt" a b with
    | .nil => orderFault site a b
    | f => return (← callMeta site "lt" f [a, b]).truth

/-- Without a metamethod of its own, this order is the other one the other way round. -/
def lessEqual (site : Site) (a b : Value) : Eval World Bool := do
  match a, b with
  | .number x, .number y => return x.le y
  | .string x, .string y => return !bytesLt y x
  | _, _ =>
    match ← binaryMeta "__le" a b with
    | .nil =>
      match ← binaryMeta "__lt" b a with
      | .nil => orderFault site a b
      | f => return !(← callMeta site "lt" f [b, a]).truth
    | f => return (← callMeta site "le" f [a, b]).truth

def compare (site : Site) (op : CompareOp) (a b : Value) : Eval World Bool :=
  match op with
  | .equal => equals site a b
  | .notEqual => do return !(← equals site a b)
  | .less => less site a b
  | .lessEqual => lessEqual site a b
  | .greater => less site b a
  | .greaterEqual => lessEqual site b a

/-! Text -/

/-- A number by which a reference is shown. -/
def refNumber : Ref → Nat
  | .table id => 0x100000 + 64 * id
  | .closure id => 0x40000000 + 64 * id
  | .builtin b => 0x200 + 16 * b.ctorIdx
  | .host id => 0x80000000 + 64 * id
  | .search id => 0x90000000 + 64 * id
  | .fault id => 0xA0000000 + 64 * id

/-- What follows the message of a fault in its text. -/
def traceback : String := "\nstack traceback:\n\t[C]: in ?"

/-- The text of a value, which a metatable may give. -/
def textOf (v : Value) : Eval World ByteArray := do
  match ← metamethod v "__tostring" with
  | .nil =>
    match v with
    | .nil => return "nil".toUTF8
    | .bool b => return (if b then "true" else "false").toUTF8
    | .number n => return n.text.toUTF8
    | .string s => return s
    | .ref (.fault id) =>
      let message ← look fun s => (s.faults[id]?.map Fault.message).getD ""
      return (message ++ traceback).toUTF8
    | .ref r =>
      let title ← typeTitle v
      return (title ++ ": 0x5581" ++ String.ofList (Text.hexDigits 8 (refNumber r))).toUTF8
  | f =>
    match ← callMeta .native "tostring" f [v] with
    | .string s => return s
    | .number n => return n.text.toUTF8
    | _ =>
      let site ← look fun s => s.sites.headD .native
      errorAt site "'__tostring' must return a string"

end Eval

end ScriptTools.Guest
