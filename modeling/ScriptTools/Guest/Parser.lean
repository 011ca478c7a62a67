import ScriptTools.Guest.Lexer
import ScriptTools.Guest.Scope

/-!
Tokens become statements. Each nested expression or statement uses up one level, and the levels are
few, so the grammar is defined level by level; the loops inside a level take in at least one token each
time round.
-/

namespace ScriptTools.Guest

/-- The parser's place: the tokens ahead, the line of the latest token behind, and the events so far,
latest first. No loop goes round more often than there are tokens. -/
structure Cursor where
  ahead : List Lexeme
  size : Nat
  behind : Nat := 1
  events : List (ScopeEvent × Lexeme) := []

inductive ParseFault where
  | malformed (line : Nat) (message : String)
  | tooDeep
deriving DecidableEq, Repr

/-- A parser gives what it read, or its fault with the events before it. -/
abbrev Parser (α : Type) := StateT Cursor (Except (ParseFault × List (ScopeEvent × Lexeme))) α

namespace Parser

def current : Parser Lexeme := fun c => .ok ((c.ahead.head?.getD ⟨.eof, c.behind⟩), c)

def peek : Parser Token := do return (← current).token

def line : Parser Nat := do return (← current).line

def stop {α : Type} (f : ParseFault) : Parser α := fun c => .error (f, c.events)

/-- Fails at the current token. -/
def fail {α : Type} (message : String) : Parser α := do
  let t ← current
  stop (.malformed t.line (message ++ " near " ++ t.token.shown))

def expected {α : Type} (what : String) : Parser α := fail (what ++ " expected")

def emit (e : ScopeEvent) : Parser Unit := do
  let t ← current
  modify fun c => { c with events := (e, t) :: c.events }

/-- Fails where the text stops being tokens. -/
def checkText : Parser Unit := do
  match ← current with
  | ⟨.broken message, line⟩ => stop (.malformed line message)
  | _ => return

def advance : Parser Unit := do
  modify fun c =>
    match c.ahead with
    | [] => c
    | t :: rest => { c with ahead := rest, behind := t.line }
  checkText

def isMark (m : Mark) : Token → Bool
  | .mark n => m == n
  | _ => false

def isKeyword (k : Keyword) : Token → Bool
  | .keyword l => k == l
  | _ => false

/-- Takes a token if it is there. -/
def accept (p : Token → Bool) : Parser Bool := do
  if p (← peek) then
    advance
    return true
  else return false

def mark (m : Mark) : Parser Unit := do
  if !(← accept (isMark m)) then expected (Token.mark m).shown

def keyword (k : Keyword) : Parser Unit := do
  if !(← accept (isKeyword k)) then expected (Token.keyword k).shown

/-- Takes the token that closes what another one opened on a line. -/
def close (closing opening : Token) (start : Nat) : Parser Unit := do
  let isClosing : Token → Bool :=
    match closing with
    | .mark m => isMark m
    | .keyword k => isKeyword k
    | _ => fun _ => false
  if !(← accept isClosing) then
    if (← line) = start then expected closing.shown
    else
      fail (closing.shown ++ " expected (to close " ++ opening.shown ++ " at line "
        ++ toString start ++ ")")

def closeMark (closing opening : Mark) (start : Nat) : Parser Unit :=
  close (.mark closing) (.mark opening) start

/-- Takes the end of a statement or function. -/
def endOf (opening : Keyword) (start : Nat) (closing : Keyword := .end_) : Parser Unit :=
  close (.keyword closing) (.keyword opening) start

def name : Parser Name := do
  match ← peek with
  | .name x =>
    advance
    return x
  | _ => expected "<name>"

/-- The message about a statement that is none. -/
def notStatement : String := "syntax error"

/-- Repeats a step until it gives none, at most once for each token ahead. The results stand in `done`,
latest first. -/
def loop {α : Type} (step : Parser (Option α)) : Nat → List α → Parser (List α)
  | 0, _ => fail notStatement
  | n + 1, done => do
    match ← step with
    | some a => loop step n (a :: done)
    | none => return done.reverse

def many {α : Type} (step : Parser (Option α)) : Parser (List α) := do
  let c ← get
  loop step c.size []

/-- Goes on from a value with steps that each take in at least one token. -/
def chain {α : Type} (step : α → Parser (Option α)) : Nat → α → Parser α
  | 0, _ => fail notStatement
  | n + 1, a => do
    match ← step a with
    | some a => chain step n a
    | none => return a

def follow {α : Type} (a : α) (step : α → Parser (Option α)) : Parser α := do
  let c ← get
  chain step c.size a

/-- One or more items with commas between them. -/
def commaList {α : Type} (item : Parser α) : Parser (List α) := do
  let first ← item
  let rest ← many do
    if ← accept (isMark .comma) then return some (← item) else return none
  return first :: rest

/-- Whether a block ends before a token. -/
def endsBlock (withUntil : Bool) : Token → Bool
  | .eof => true
  | .keyword .else_ | .keyword .elseif_ | .keyword .end_ => true
  | .keyword .until_ => withUntil
  | _ => false

def reserve (x : Name) : Parser Unit := emit (.reserve x)

/-- The name of the hidden variables of loops. -/
def hiddenName : Name := "(for state)".toUTF8

def reserveHidden : Nat → Parser Unit
  | 0 => pure ()
  | n + 1 => do
    reserve hiddenName
    reserveHidden n

/-- A parser between the opening and the closing of a block. -/
def enclosed {α : Type} (loop : Bool) (p : Parser α) : Parser α := do
  emit (.openBlock loop)
  let a ← p
  emit .closeBlock
  return a

/-! Operators -/

def unaryOp? : Token → Option UnaryOp
  | .mark .minus => some .negate
  | .keyword .not_ => some .not
  | .mark .hash => some .length
  | .mark .tilde => some .complement
  | _ => none

def binaryOp? : Token → Option BinaryOp
  | .mark .plus => some (.arith .add)
  | .mark .minus => some (.arith .sub)
  | .mark .star => some (.arith .mul)
  | .mark .slash => some (.arith .div)
  | .mark .percent => some (.arith .mod)
  | .mark .caret => some (.arith .pow)
  | .mark .doubleSlash => some (.arith .floorDiv)
  | .mark .ampersand => some (.bit .and)
  | .mark .bar => some (.bit .or)
  | .mark .tilde => some (.bit .xor)
  | .mark .shiftLeft => some (.bit .shiftLeft)
  | .mark .shiftRight => some (.bit .shiftRight)
  | .mark .equal => some (.compare .equal)
  | .mark .notEqual => some (.compare .notEqual)
  | .mark .less => some (.compare .less)
  | .mark .lessEqual => some (.compare .lessEqual)
  | .mark .greater => some (.compare .greater)
  | .mark .greaterEqual => some (.compare .greaterEqual)
  | .mark .doubleDot => some .concat
  | .keyword .and_ => some .and
  | .keyword .or_ => some .or
  | _ => none

/-- How tightly an operator holds its left and its right operand. -/
def binding : BinaryOp → Nat × Nat
  | .or => (1, 1)
  | .and => (2, 2)
  | .compare _ => (3, 3)
  | .bit .or => (4, 4)
  | .bit .xor => (5, 5)
  | .bit .and => (6, 6)
  | .bit .shiftLeft | .bit .shiftRight => (7, 7)
  | .concat => (9, 8)
  | .arith .add | .arith .sub => (10, 10)
  | .arith .mul | .arith .div | .arith .floorDiv | .arith .mod => (11, 11)
  | .arith .pow => (14, 13)

def unaryBinding : Nat := 12

/-! One level of the grammar -/

/-- The parsers of the nested parts. An expression reads operators that hold tighter than a limit. -/
structure Grammar where
  statement : Parser (List Stat)
  expr : Nat → Parser Expr

namespace Grammar

variable (g : Grammar)

def exprs : Parser (List Expr) := commaList (g.expr 0)

/-- Statements up to the end of their block. Nothing follows a `return`. -/
def statementsFrom : Nat → List Stat → Parser Block
  | 0, _ => fail notStatement
  | n + 1, done => do
    let t ← peek
    if endsBlock true t then return done.reverse
    let part ← g.statement
    let done := part.reverse ++ done
    if isKeyword .return_ t then return done.reverse
    statementsFrom n done

def statements : Parser Block := do
  let c ← get
  g.statementsFrom c.size []

def block : Parser Block := enclosed false g.statements

/-- A parameter, or none for the dots that stand for all further arguments. -/
def parameter : Parser (Option Name) := do
  match ← peek with
  | .name x =>
    advance
    reserve x
    return some x
  | .mark .ellipsis =>
    advance
    emit .takeVarargs
    return none
  | _ => expected "<name> or '...'"

/-- The parameters, latest first, and whether dots ended them. -/
def parameters : Parser (List Name × Bool) := do
  if isMark .closeParen (← peek) then return ([], false)
  let add (done : List Name) (p : Option Name) : List Name × Bool :=
    match p with
    | some x => (x :: done, false)
    | none => (done, true)
  let first ← parameter
  follow (add [] first) fun (done, dots) => do
    if dots then return none
    if ← accept (isMark .comma) then return some (add done (← parameter)) else return none

/-- A function after its keyword or name. -/
def functionBody (method : Bool) (start : Nat) : Parser Expr := do
  emit (.openFunction (some start))
  mark .openParen
  let self := "self".toUTF8
  if method then
    reserve self
    emit .activate
  let (params, dots) ← parameters
  emit .activate
  mark .closeParen
  let body ← g.statements
  endOf .function_ start
  emit .closeFunction
  let params := params.reverse
  return .function (if method then self :: params else params) dots body

/-! Expressions -/

/-- One entry of a table. A name is a key only before an equals sign. -/
def field : Parser Field := do
  let c ← get
  match c.ahead with
  | ⟨.name x, _⟩ :: ⟨.mark .assign, _⟩ :: _ =>
    advance
    advance
    return .pair (.string x) (← g.expr 0)
  | ⟨.mark .openBracket, _⟩ :: _ =>
    advance
    let key ← g.expr 0
    mark .closeBracket
    mark .assign
    return .pair key (← g.expr 0)
  | _ => return .item (← g.expr 0)

/-- A table after its opening brace. -/
def fields : Parser (List Field) := do
  let (done, _) ← follow ([], true) fun (done, more) => do
    if !more || isMark .closeBrace (← peek) then return none
    let f ← g.field
    let more ← accept fun t => isMark .comma t || isMark .semicolon t
    return some (f :: done, more)
  return done.reverse

def table : Parser Expr := do
  let start ← line
  mark .openBrace
  let fs ← g.fields
  let line ← line
  closeMark .closeBrace .openBrace start
  return .table fs line

def startsArguments : Token → Bool
  | .mark .openParen | .mark .openBrace | .string .. => true
  | _ => false

def arguments : Parser (List Expr) := do
  match ← peek with
  | .string s _ =>
    advance
    return [.string s]
  | .mark .openBrace => return [← g.table]
  | .mark .openParen =>
    let start ← line
    advance
    if ← accept (isMark .closeParen) then return []
    let args ← g.exprs
    closeMark .closeParen .openParen start
    return args
  | _ => expected "function arguments"

def dotField (object : Expr) : Parser Expr := do
  advance
  let line ← line
  let x ← name
  return .index object (.string x) line

/-- One suffix of an expression: a field, an index or a call. -/
def suffix (e : Expr) : Parser (Option Expr) := do
  let t ← peek
  match t with
  | .mark .dot => return some (← dotField e)
  | .mark .openBracket =>
    advance
    let line ← line
    let key ← g.expr 0
    mark .closeBracket
    return some (.index e key line)
  | .mark .colon =>
    advance
    let x ← name
    let line ← line
    return some (.method e x (← g.arguments) line)
  | _ =>
    if startsArguments t then
      let line ← line
      return some (.call e (← g.arguments) line)
    else return none

def primary : Parser Expr := do
  let line ← line
  match ← peek with
  | .name x =>
    advance
    return .name x line
  | .mark .openParen =>
    advance
    let e ← g.expr 0
    closeMark .closeParen .openParen line
    return .paren e
  | _ => fail "unexpected symbol"

def suffixed : Parser Expr := do follow (← g.primary) g.suffix

def simple : Parser Expr := do
  match ← peek with
  | .number n _ => advance; return .number n
  | .string s _ => advance; return .string s
  | .keyword .nil_ => advance; return .nil
  | .keyword .true_ => advance; return .bool true
  | .keyword .false_ => advance; return .bool false
  | .mark .ellipsis =>
    emit .useVarargs
    advance
    return .varargs
  | .mark .openBrace => g.table
  | .keyword .function_ =>
    advance
    g.functionBody false (← line)
  | _ => g.suffixed

/-- An operand with the operators before it. -/
def operand : Parser Expr := do
  match unaryOp? (← peek) with
  | some op =>
    let line ← line
    advance
    return .unary op (← g.expr unaryBinding) line
  | none => g.simple

/-- The line that an operator is known by; in a chain of concatenations, that of the last. -/
def operatorLine (op : BinaryOp) (right : Expr) (line : Nat) : Nat :=
  match op, right with
  | .concat, .binary .concat _ _ last => last
  | _, _ => line

def operators (limit : Nat) (left : Expr) : Parser (Option Expr) := do
  match binaryOp? (← peek) with
  | some op =>
    if limit < (binding op).1 then
      let line ← line
      advance
      let right ← g.expr (binding op).2
      return some (.binary op left right (operatorLine op right line))
    else return none
  | none => return none

def exprAbove (limit : Nat) : Parser Expr := do follow (← g.operand) (g.operators limit)

/-! Statements -/

/-- The branches after `if` or `elseif`. The count bounds the number of branches. -/
def branches (start : Nat) : Nat → Parser Stat
  | 0 => fail notStatement
  | n + 1 => do
    let condition ← g.expr 0
    keyword .then_
    let yes ← g.block
    match ← peek with
    | .keyword .elseif_ =>
      advance
      return .branch condition yes [← branches start n]
    | .keyword .else_ =>
      advance
      let no ← g.block
      endOf .if_ start
      return .branch condition yes no
    | _ =>
      endOf .if_ start
      return .branch condition yes []

def whileLoop (start : Nat) : Parser Stat := do
  let condition ← g.expr 0
  emit (.openBlock true)
  keyword .do_
  let body ← g.block
  endOf .while_ start
  emit .closeBlock
  return .while condition body

def repeatLoop (start : Nat) : Parser Stat :=
  enclosed true do
    enclosed false do
      let body ← g.statements
      endOf .repeat_ start .until_
      return .repeat body (← g.expr 0)

/-- The body of a counting or iterating loop, with the line of its `do`. -/
def loopBody : Parser (Block × Nat) := do
  let line ← line
  keyword .do_
  emit (.openBlock false)
  emit .activate
  let body ← g.block
  emit .closeBlock
  return (body, line)

def countLoop (x : Name) : Parser Stat := do
  reserveHidden 3
  reserve x
  mark .assign
  let first ← g.expr 0
  mark .comma
  let last ← g.expr 0
  let step ← if ← accept (isMark .comma) then g.expr 0 else pure (.number (.int 1))
  let (body, line) ← g.loopBody
  return .count x first last step body line

def eachLoop (x : Name) : Parser Stat := do
  reserveHidden 4
  reserve x
  let more ← many do
    if ← accept (isMark .comma) then
      let y ← name
      reserve y
      return some y
    else return none
  keyword .in_
  let line ← line
  let values ← g.exprs
  let (body, _) ← g.loopBody
  return .each (x :: more) values body line

def forLoop (start : Nat) : Parser Stat :=
  enclosed true do
    let x ← name
    let loop ←
      match ← peek with
      | .mark .assign => g.countLoop x
      | .mark .comma | .keyword .in_ => g.eachLoop x
      | _ => expected "'=' or 'in'"
    endOf .for_ start
    return loop

/-- The variable or field that a function statement names, and whether it is a method. -/
def functionName : Parser (Expr × Bool) := do
  let line ← line
  let x ← name
  let target ← follow (.name x line) fun e => do
    if isMark .dot (← peek) then return some (← dotField e) else return none
  if isMark .colon (← peek) then return (← dotField target, true) else return (target, false)

/-- Reports that a variable is assigned. -/
def emitAssign (target : Expr) : Parser Unit :=
  match target with
  | .name x _ => emit (.assign x)
  | _ => pure ()

def functionStatement (line : Nat) : Parser Stat := do
  let (target, method) ← functionName
  let body ← g.functionBody method line
  emitAssign target
  return .assign [target] [body] line

def localFunction : Parser Stat := do
  let x ← name
  reserve x
  emit .activate
  match ← g.functionBody false (← line) with
  | .function params dots body => return .localFunction x params dots body
  | _ => fail notStatement

/-- The attribute of the name that took its place last. -/
def readAttribute : Parser Attribute := do
  if ← accept (isMark .less) then
    let x ← name
    mark .greater
    let a : Attribute :=
      if x == "const".toUTF8 then .const else if x == "close".toUTF8 then .close else .plain
    emit (if a == .plain then .badAttribute x else .mark a)
    return a
  else return .plain

def localNames : Parser Stat := do
  let names ← commaList do
    let x ← name
    reserve x
    return (x, ← readAttribute)
  let values ← if ← accept (isMark .assign) then g.exprs else pure []
  emit .activate
  return .declare names values (← get).behind

def isTarget : Expr → Bool
  | .name .. | .index .. => true
  | _ => false

/-- A target that is about to be assigned. -/
def target (e : Expr) : Parser Unit := do
  if isTarget e then emitAssign e else fail notStatement

/-- An assignment after its first target. -/
def assignment (first : Expr) : Parser Stat := do
  target first
  let more ← many do
    if ← accept (isMark .comma) then
      let e ← g.suffixed
      target e
      return some e
    else return none
  mark .assign
  let values ← g.exprs
  return .assign (first :: more) values (← get).behind

def expressionStatement : Parser Stat := do
  let e ← g.suffixed
  let t ← peek
  if isMark .assign t || isMark .comma t then g.assignment e
  else
    match e with
    | .call .. | .method .. => return .call e
    | _ => fail notStatement

/-- A label with its line. -/
def label : Parser (Name × Nat) := do
  let line ← line
  mark .doubleColon
  let x ← name
  mark .doubleColon
  return (x, line)

/-- A label with the labels and empty statements right after it. -/
def labels : Parser (List Stat) := do
  let first ← label
  let more ← many do
    if ← accept (isMark .semicolon) then return some none
    else if isMark .doubleColon (← peek) then return some (some (← label))
    else return none
  let all := first :: more.filterMap fun x => x
  let last := endsBlock false (← peek)
  all.reverse.forM fun (x, line) => emit (.label x last line)
  return all.map fun x => Stat.label x.1

def returnStatement : Parser Stat := do
  let t ← peek
  let values ← if endsBlock true t || isMark .semicolon t then pure [] else g.exprs
  let _ ← accept (isMark .semicolon)
  return .return values

def oneStatement : Parser (List Stat) := do
  let line ← line
  match ← peek with
  | .mark .semicolon => advance; return []
  | .keyword .if_ =>
    advance
    let c ← get
    return [← g.branches line c.size]
  | .keyword .while_ => advance; return [← g.whileLoop line]
  | .keyword .do_ =>
    advance
    let body ← g.block
    endOf .do_ line
    return [.block body]
  | .keyword .for_ => advance; return [← g.forLoop line]
  | .keyword .repeat_ => advance; return [← g.repeatLoop line]
  | .keyword .function_ => advance; return [← g.functionStatement line]
  | .keyword .local_ =>
    advance
    if ← accept (isKeyword .function_) then return [← g.localFunction] else return [← g.localNames]
  | .mark .doubleColon => labels
  | .keyword .return_ => advance; return [← g.returnStatement]
  | .keyword .break_ =>
    advance
    emit (.break line)
    return [.break]
  | .keyword .goto_ =>
    advance
    let line ← Parser.line
    let x ← name
    emit (.goto x line)
    return [.goto x]
  | _ => return [← g.expressionStatement]

end Grammar

/-- The grammar with a number of levels. -/
def grammar : Nat → Grammar
  | 0 => { statement := stop .tooDeep, expr := fun _ => stop .tooDeep }
  | n + 1 =>
    let g := grammar n
    { statement := g.oneStatement, expr := g.exprAbove }

/-- The levels of statements and expressions that may be nested. -/
def levels : Nat := 199

/-- A whole script. -/
def chunk : Parser Block := do
  checkText
  emit (.openFunction none)
  emit .takeVarargs
  let body ← (grammar levels).statements
  match ← peek with
  | .eof => emit .closeFunction
  | _ => expected Token.endText
  return body

end Parser

/-- The statements of a script, or the first fault in the order of its text. -/
def parse (tokens : List Lexeme) : Except ParseFault Block :=
  let check (events : List (ScopeEvent × Lexeme)) (otherwise : Except ParseFault Block) :=
    match Scope.firstFault? [] events.reverse with
    | some (t, fault) => .error (.malformed t.line (fault.message t.token))
    | none => otherwise
  match Parser.chunk.run { ahead := tokens, size := tokens.length + 1 } with
  | .ok (body, c) => check c.events (.ok body)
  | .error (fault, events) => check events (.error fault)

/-- Reads the text of a script. -/
def compile (source : String) : Except ParseFault Block := parse (Lexer.tokens source)

end ScriptTools.Guest
