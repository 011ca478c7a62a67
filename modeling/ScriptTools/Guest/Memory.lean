import Std.Data.HashSet
import ScriptTools.Guest.State

/-!
The memory that a script takes up. Everything new is added to what is in use; when that passes the
limit, it is counted anew from what the script can still reach.
-/

namespace ScriptTools.Guest

def stringBytes (s : ByteArray) : Nat := s.size + 25

namespace State

variable {World : Type}

/-- The memory reached so far, and the references that were found but not followed yet. -/
structure Reach where
  tables : Array Bool
  closures : Array Bool
  strings : Std.HashSet ByteArray := {}
  waiting : List Ref := []
  bytes : Nat := 0

namespace Reach

def visit (r : Reach) : Value → Reach
  | .string s =>
    if r.strings.contains s then r
    else { r with strings := r.strings.insert s, bytes := r.bytes + stringBytes s }
  | .ref (.table i) =>
    if r.tables[i]?.getD true then r
    else { r with tables := r.tables.setIfInBounds i true, waiting := .table i :: r.waiting }
  | .ref (.closure i) =>
    if r.closures[i]?.getD true then r
    else { r with closures := r.closures.setIfInBounds i true, waiting := .closure i :: r.waiting }
  | _ => r

def visitKey (r : Reach) (k : Key) : Reach := r.visit k.toValue

def visitTable (r : Reach) (t : Table) : Reach :=
  let r := { r with bytes := r.bytes + t.bytes }
  let r := t.items.foldl visit r
  let r := t.slots.entries.foldl (fun r e => (r.visitKey e.1).visit e.2) r
  match t.metatable with
  | some m => r.visit (.table m)
  | none => r

def visitClosure (r : Reach) (f : Closure) : Reach :=
  f.env.varargs.foldl visit { r with bytes := r.bytes + 40 }

/-- Follows the references that wait. Each is found once, so their number bounds the steps. -/
def follow (s : State World) : Nat → Reach → Reach
  | 0, r => r
  | n + 1, r =>
    match r.waiting with
    | [] => r
    | .table i :: rest =>
      follow s n (visitTable { r with waiting := rest } (s.tables[i]?.getD {}))
    | .closure i :: rest =>
      match s.closures[i]? with
      | some f => follow s n (visitClosure { r with waiting := rest } f)
      | none => follow s n { r with waiting := rest }
    | _ :: rest => follow s n { r with waiting := rest }

end Reach

/-- The memory of everything that variables can reach. -/
def liveBytes (s : State World) : Nat :=
  let start : Reach :=
    { tables := Array.replicate s.tables.size false
      closures := Array.replicate s.closures.size false }
  let start := (start.visit (.table s.globals)).visit (.table s.stringMeta)
  let start := s.cells.foldl Reach.visit start
  (Reach.follow s (s.tables.size + s.closures.size + 1) start).bytes

end State

namespace Eval

variable {World : Type}

/-- Takes up memory for something new; fails when there is not enough. -/
def allocate (bytes : Nat) : Eval World Unit := fun s =>
  match s.memory.limit with
  | none => .done () s
  | some limit =>
    let used := s.memory.used + bytes
    if used ≤ limit then .done () { s with memory := { s.memory with used } }
    else if limit < bytes then .raise .memory s
    else
      let used := min s.memory.used s.liveBytes + bytes
      if used ≤ limit then .done () { s with memory := { s.memory with used } }
      else .raise .memory s

/-- A new string. -/
def newString (b : ByteArray) : Eval World Value := do
  allocate (stringBytes b)
  return .string b

def newText (s : String) : Eval World Value := newString s.toUTF8

/-- A new table. -/
def newTable (t : Table) : Eval World Value := do
  allocate t.bytes
  fun s => .done (.table s.tables.size) { s with tables := s.tables.push t }

def newClosure (f : Closure) : Eval World Value := do
  allocate 64
  fun s =>
    .done (.ref (.closure s.closures.size))
      { s with closures := s.closures.push f, pinned := s.cells.size }

def newFault (f : Fault) : Eval World Value := fun s =>
  .done (.ref (.fault s.faults.size)) { s with faults := s.faults.push f }

def newCell (v : Value) : Eval World Nat := fun s =>
  .done s.cells.size { s with cells := s.cells.push v }

/-- Drops the cells from a number on, as far as no function may use them. -/
def dropCells (mark : Nat) : Eval World Unit := fun s =>
  .done () { s with cells := s.cells.shrink (max mark s.pinned) }

/-- A table, or an empty one. -/
@[inline] def lookTable {α : Type} (id : Nat) (f : Table → α) : Eval World α := fun s =>
  .done (f (s.tables[id]?.getD {})) s

def rawGet (id : Nat) (k : Key) : Eval World Value := lookTable id fun t => t.get k

def rawGetText (id : Nat) (k : String) : Eval World Value := rawGet id (.text k)

/-- Sets an entry of a table. -/
def rawSet (id : Nat) (k : Key) (v : Value) : Eval World Unit := fun s =>
  let before := (s.tables[id]?.map Table.bytes).getD 0
  let tables := s.tables.modify id fun t => t.set k v
  let after := (tables[id]?.map Table.bytes).getD 0
  let s := { s with tables }
  if before < after then allocate (after - before) s else .done () s

end Eval

end ScriptTools.Guest
