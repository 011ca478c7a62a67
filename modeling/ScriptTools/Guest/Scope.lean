import ScriptTools.Guest.Syntax
import ScriptTools.Guest.Token

/-!
The rules of scripts that syntax alone does not show: constants are not assigned, labels are unique and
visible to the jumps that name them, and no jump enters the scope of a variable. The parser reports
what it passes, with the token it has reached, and the rules are checked on that report in order.
-/

namespace ScriptTools.Guest

inductive ScopeEvent where
  /-- The line of a function; none for the script itself. -/
  | openFunction (line : Option Nat)
  /-- The innermost function takes any number of arguments. -/
  | takeVarargs
  | closeFunction
  | openBlock (loop : Bool)
  | closeBlock
  /-- A name takes its place; it is not visible yet. -/
  | reserve (x : Name)
  /-- The name that took its place last has an attribute. -/
  | mark (a : Attribute)
  | badAttribute (x : Name)
  /-- The names that took their places become visible. -/
  | activate
  | assign (x : Name)
  | useVarargs
  /-- A label, and whether only the end of the block follows. -/
  | label (x : Name) (last : Bool) (line : Nat)
  | goto (x : Name) (line : Nat)
  | break (line : Nat)

inductive ScopeFault where
  | tooManyVariables (function : Option Nat)
  | repeatedClose
  | badAttribute (x : Name)
  | constant (x : Name)
  | noVarargs
  | repeatedLabel (x : Name) (line : Nat)
  | entersScope (label : Name) (line : Nat) (entered : Name)
  | noLabel (x : Name) (line : Nat)
  | noLoop (line : Nat)

namespace ScopeFault

def functionText : Option Nat → String
  | none => "main function"
  | some line => "function at line " ++ toString line

/-- The message about a fault that shows at a token. -/
def message (t : Token) : ScopeFault → String
  | .tooManyVariables f =>
    "too many local variables (limit is 200) in " ++ functionText f ++ " near " ++ t.shown
  | .repeatedClose => "multiple to-be-closed variables in local list"
  | .badAttribute x => "unknown attribute " ++ shownBytes x.toList
  | .constant x => "attempt to assign to const variable " ++ shownBytes x.toList
  | .noVarargs => "cannot use '...' outside a vararg function near " ++ t.shown
  | .repeatedLabel x line =>
    "label " ++ shownBytes x.toList ++ " already defined on line " ++ toString line
  | .entersScope label line x =>
    "<goto " ++ Text.ofBytesRepaired label ++ "> at line " ++ toString line
      ++ " jumps into the scope of local " ++ shownBytes x.toList
  | .noLabel x line =>
    "no visible label " ++ shownBytes x.toList ++ " for <goto> at line " ++ toString line
  | .noLoop line => "break outside a loop at line " ++ toString line

end ScopeFault

namespace Scope

/-- A jump that waits for its label, with its line and the number of variables that are visible at
it. -/
structure Pending where
  /-- No label for a jump out of a loop. -/
  label : Option Name
  line : Nat
  visible : Nat

/-- What is wrong with a jump that finds no label. -/
def Pending.fault (p : Pending) : ScopeFault :=
  match p.label with
  | some x => .noLabel x p.line
  | none => .noLoop p.line

structure Label where
  visible : Nat
  line : Nat

structure Frame where
  loop : Bool
  /-- Visible variables, latest first. -/
  names : List (Name × Attribute) := []
  labels : List (Name × Label) := []
  /-- Jumps that wait, latest first. -/
  pending : List Pending := []

/-- A function with its open blocks, innermost first. -/
structure Level where
  line : Option Nat
  varargs : Bool := false
  frames : List Frame
  reserved : List (Name × Attribute) := []

abbrev Levels := List Level

/-- The most variables that a function may have at one place. -/
def variableLimit : Nat := 200

namespace Level

def visible (l : Level) : Nat := l.frames.foldl (fun n f => n + f.names.length) 0

/-- The visible variable that became visible after `i` others. -/
def nameAt? (l : Level) (i : Nat) : Option Name :=
  ((l.frames.flatMap fun f => f.names.map (·.1)).reverse)[i]?

def find? (l : Level) (x : Name) : Option Attribute :=
  l.frames.findSome? fun f => f.names.lookup x

def findLabel? (l : Level) (x : Name) : Option Label :=
  l.frames.findSome? fun f => f.labels.lookup x

def modifyTop (l : Level) (g : Frame → Frame) : Level :=
  match l.frames with
  | f :: frames => { l with frames := g f :: frames }
  | [] => l

/-- Settles the jumps of the innermost block that wait for a label; none of them may enter the scope of
a variable. -/
def settle (l : Level) (x : Name) (visible : Nat) : Except ScopeFault Level :=
  match l.frames with
  | [] => .ok l
  | f :: frames =>
    let (mine, others) := f.pending.partition fun p => p.label == some x
    match mine.reverse.find? fun p => p.visible < visible with
    | some p => .error (.entersScope x p.line ((l.nameAt? p.visible).getD x))
    | none => .ok { l with frames := { f with pending := others } :: frames }

/-- Closes the innermost block. Its open jumps go on to the block around it; where there is none, no
jump may be open. -/
def close (l : Level) : Except ScopeFault Level :=
  match l.frames with
  | [] => .ok l
  | f :: frames =>
    let waiting := if f.loop then f.pending.filter fun p => p.label.isSome else f.pending
    match frames with
    | [] =>
      match waiting.getLast? with
      | none => .ok { l with frames := [] }
      | some p => .error p.fault
    | g :: frames =>
      let outer := { l with frames := g :: frames }
      let moved := waiting.map fun p => { p with visible := min p.visible outer.visible }
      .ok { l with frames := { g with pending := moved ++ g.pending } :: frames }

/-- A name takes its place. -/
def reserve (l : Level) (x : Name) : Except ScopeFault Level :=
  if l.visible + l.reserved.length < variableLimit then
    .ok { l with reserved := (x, .plain) :: l.reserved }
  else .error (.tooManyVariables l.line)

/-- Gives the latest name an attribute. At most one name of a statement is to be closed. -/
def mark (l : Level) (a : Attribute) : Except ScopeFault Level :=
  match l.reserved with
  | [] => .ok l
  | (x, _) :: rest =>
    if a == .close && rest.any fun r => r.2 == .close then .error .repeatedClose
    else .ok { l with reserved := (x, a) :: rest }

def activate (l : Level) : Level :=
  { l.modifyTop fun f => { f with names := l.reserved ++ f.names } with reserved := [] }

/-- A label of the innermost block. -/
def addLabel (l : Level) (x : Name) (last : Bool) (line : Nat) : Except ScopeFault Level :=
  match l.findLabel? x with
  | some known => .error (.repeatedLabel x known.line)
  | none => do
    let inner := (l.frames.head?.map fun f => f.names.length).getD 0
    let visible := if last then l.visible - inner else l.visible
    let l ← l.settle x visible
    pure (l.modifyTop fun f => { f with labels := (x, ⟨visible, line⟩) :: f.labels })

/-- A jump that goes back to a label, or waits for one. -/
def addJump (l : Level) (label : Option Name) (line : Nat) : Level :=
  if (label.bind l.findLabel?).isSome then l
  else l.modifyTop fun f => { f with pending := ⟨label, line, l.visible⟩ :: f.pending }

end Level

/-- The attribute of the variable that a name stands for, innermost function first. -/
def find? (ls : Levels) (x : Name) : Option Attribute := ls.findSome? fun l => l.find? x

/-- Takes in one event. -/
def step (ls : Levels) (e : ScopeEvent) : Except ScopeFault Levels :=
  match e, ls with
  | .openFunction line, ls => .ok ({ line, frames := [{ loop := false }] } :: ls)
  | _, [] => .ok []
  | .takeVarargs, l :: ls => .ok ({ l with varargs := true } :: ls)
  | .closeFunction, l :: ls => l.close.map fun _ => ls
  | .openBlock loop, l :: ls => .ok ({ l with frames := { loop } :: l.frames } :: ls)
  | .closeBlock, l :: ls => l.close.map (· :: ls)
  | .reserve x, l :: ls => (l.reserve x).map (· :: ls)
  | .mark a, l :: ls => (l.mark a).map (· :: ls)
  | .badAttribute x, _ => .error (.badAttribute x)
  | .activate, l :: ls => .ok (l.activate :: ls)
  | .assign x, ls =>
    match find? ls x with
    | some .const | some .close => .error (.constant x)
    | _ => .ok ls
  | .useVarargs, l :: ls => if l.varargs then .ok (l :: ls) else .error .noVarargs
  | .label x last line, l :: ls => (l.addLabel x last line).map (· :: ls)
  | .goto x line, l :: ls => .ok (l.addJump (some x) line :: ls)
  | .break line, l :: ls => .ok (l.addJump none line :: ls)

/-- The first event that breaks a rule: the token it shows at and the fault. -/
def firstFault? (ls : Levels) : List (ScopeEvent × Lexeme) → Option (Lexeme × ScopeFault)
  | [] => none
  | (e, t) :: rest =>
    match step ls e with
    | .ok ls => firstFault? ls rest
    | .error f => some (t, f)

end Scope

end ScriptTools.Guest
