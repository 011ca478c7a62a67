import ScriptTools.Arguments

/-!
The source text that runs for a call: one line for each declared argument, a blank line, and the body.
Texts of the host are always quoted before they reach the source.
-/

namespace ScriptTools.Source

def keywords : List String :=
  ["and", "break", "do", "else", "elseif", "end", "false", "for", "function", "goto", "if", "in",
   "local", "nil", "not", "or", "repeat", "return", "then", "true", "until", "while"]

def isNameStart (c : Char) : Bool := c.isAlpha || c == '_'

def isNameChar (c : Char) : Bool := c.isAlphanum || c == '_'

/-- Whether a name can be bound in a script. -/
def isIdentifier (name : String) : Bool :=
  match name.toList with
  | [] => false
  | c :: rest => isNameStart c && rest.all isNameChar && !keywords.contains name

/-- A control character as a backslash and three digits, so that a digit after it is not taken in. -/
def controlEscape (n : Nat) : List Char :=
  ['\\', Char.ofNat (48 + n / 100), Char.ofNat (48 + n / 10 % 10), Char.ofNat (48 + n % 10)]

/-- A character as it stands between quotes. -/
def escapeChar (c : Char) : List Char :=
  match c with
  | '\\' => ['\\', '\\']
  | '"' => ['\\', '"']
  | '\n' => ['\\', 'n']
  | '\r' => ['\\', 'r']
  | '\t' => ['\\', 't']
  | c => if c.toNat < 0x20 || c.toNat = 0x7F then controlEscape c.toNat else [c]

/-- A text as a string literal. -/
def quote (s : String) : String :=
  (s.foldl (fun (done : String) c => (escapeChar c).foldl String.push done) "\"").push '"'

inductive Error where
  | badName (name : String)
  | notFinite (name : String) (x : Float)
deriving Repr

def Error.message : Error → String
  | .badName name =>
    "code generation failed: argument name '" ++ name ++ "' is not a valid Lua identifier"
  | .notFinite name x =>
    "code generation failed: argument '" ++ name ++ "' is " ++ Decimal.Layout.plain.text x
      ++ ", which has no Lua literal"

/-- The literal of a value. The smallest integer is written as a difference, since its digits alone
would be read as a float. -/
def literal (name : String) : Scalar → Except Error String
  | .string s => .ok (quote s)
  | .int i =>
    .ok (if i = Int64.minValue then "(" ++ toString (i.toInt + 1) ++ " - 1)" else toString i.toInt)
  | .float x => if x.isFinite then .ok (Decimal.Layout.result.text x) else .error (.notFinite name x)
  | .boolean b => .ok (Scalar.boolText b)

/-- The literal that an argument is bound to: that of its value, else its default, else `nil`. -/
def boundLiteral (bindings : List Binding) (a : Argument) : Except Error String :=
  match bindings.find? fun b => b.name = a.name with
  | some b => literal b.name b.value
  | none => .ok (a.defaultValue.getD "nil")

/-- The line that binds one argument. -/
def line (bindings : List Binding) (a : Argument) : Except Error String := do
  if !isIdentifier a.name then throw (.badName a.name)
  let text ← boundLiteral bindings a
  pure ("local " ++ a.name ++ " = " ++ text ++ "\n")

/-- The source of a call. -/
def build (bindings : List Binding) (t : Tool) : Except Error String := do
  let lines ← t.args.mapM (line bindings)
  pure ((if lines.isEmpty then "" else String.join lines ++ "\n") ++ t.code)

end ScriptTools.Source
