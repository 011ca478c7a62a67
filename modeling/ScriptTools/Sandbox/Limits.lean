import ScriptTools.Duration

/-!
What a script may use up: time and memory.
-/

namespace ScriptTools

structure Limits where
  deadline : Option Duration := some (.ofSeconds 30)
  memory : Option Nat := some (64 * 1024 * 1024)
deriving DecidableEq, Repr, Inhabited

namespace Limits

def unlimited : Limits := ⟨none, none⟩

/-- When a run that begins now is late, if it ever is. There is no telling where the clock cannot count so far. -/
def expiry? (l : Limits) (now : Instant) : Option (Option Instant) :=
  match l.deadline with
  | none => some none
  | some d => (now.after? d).map some

/-- The bytes that the interpreter holds at most. It keeps the limit in a signed word of 64 bits, and takes what is
not positive there for no limit. -/
def cap? (l : Limits) : Option Nat := l.memory.filter fun n => 0 < n && n < Nat.pow 2 63

def optionText {α : Type} (f : α → String) : Option α → String
  | some a => "Some(" ++ f a ++ ")"
  | none => "None"

def text (l : Limits) : String :=
  "Limits \x7b deadline: " ++ optionText Duration.text l.deadline ++ ", memory_limit: "
    ++ optionText (fun n => toString n) l.memory ++ " \x7d"

end Limits

end ScriptTools
