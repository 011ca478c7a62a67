import ScriptTools.Guest.Number

/-!
The syntax of scripts. Variables are known by name, so that the tree of a statement does not depend on
what stands around it. Lines are kept where a fault of the running script is reported.
-/

namespace ScriptTools.Guest

/-- Names and strings are sequences of bytes. -/
abbrev Name := ByteArray

inductive UnaryOp where
  | negate
  | not
  | length
  | complement
deriving DecidableEq, Repr, Inhabited

/-- The operators that compute a number from two. -/
inductive ArithOp where
  | add | sub | mul | div | mod | pow | floorDiv
deriving DecidableEq, Repr, Inhabited

/-- The operators on the bits of integers. -/
inductive BitOp where
  | and | or | xor | shiftLeft | shiftRight
deriving DecidableEq, Repr, Inhabited

inductive CompareOp where
  | equal | notEqual | less | lessEqual | greater | greaterEqual
deriving DecidableEq, Repr, Inhabited

inductive BinaryOp where
  | arith (op : ArithOp)
  | bit (op : BitOp)
  | compare (op : CompareOp)
  | concat
  | and
  | or
deriving DecidableEq, Repr, Inhabited

inductive Attribute where
  | plain
  | const
  | close
deriving DecidableEq, Repr, Inhabited

mutual

inductive Expr where
  | nil
  | bool (b : Bool)
  | number (n : Number)
  | string (s : ByteArray)
  | varargs
  | function (params : List Name) (varargs : Bool) (body : List Stat)
  | name (x : Name) (line : Nat)
  | index (object key : Expr) (line : Nat)
  | call (callee : Expr) (args : List Expr) (line : Nat)
  | method (object : Expr) (name : Name) (args : List Expr) (line : Nat)
  | unary (op : UnaryOp) (operand : Expr) (line : Nat)
  | binary (op : BinaryOp) (left right : Expr) (line : Nat)
  | paren (inner : Expr)
  | table (fields : List Field) (line : Nat)

inductive Field where
  | item (value : Expr)
  | pair (key value : Expr)

inductive Stat where
  | declare (names : List (Name × Attribute)) (values : List Expr) (line : Nat)
  | assign (targets values : List Expr) (line : Nat)
  | call (e : Expr)
  | block (body : List Stat)
  | while (condition : Expr) (body : List Stat)
  | repeat (body : List Stat) (condition : Expr)
  | branch (condition : Expr) (yes no : List Stat)
  | count (x : Name) (first last step : Expr) (body : List Stat) (line : Nat)
  | each (names : List Name) (values : List Expr) (body : List Stat) (line : Nat)
  | localFunction (x : Name) (params : List Name) (varargs : Bool) (body : List Stat)
  | return (values : List Expr)
  | break
  | goto (label : Name)
  | label (label : Name)

end

instance : Inhabited Expr := ⟨.nil⟩

instance : Inhabited Stat := ⟨.break⟩

/-- A sequence of statements. -/
abbrev Block := List Stat

end ScriptTools.Guest
