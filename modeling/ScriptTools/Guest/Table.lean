import Std.Data.HashMap
import ScriptTools.Guest.Value

/-!
The tables of scripts. The values of the keys `1`, `2`, … stand in a list as far as the keys are dense;
all other entries stand in slots in the order in which they came. An entry whose value is `nil` is not
there, but its slot keeps its place for a traversal that is under way.
-/

namespace ScriptTools.Guest

/-- Entries in the order in which they came. When they are many, an index tells the place of a key. -/
structure Slots where
  entries : Array (Key × Value) := #[]
  index : Std.HashMap Key Nat := {}

namespace Slots

/-- The number of entries up to which keys are searched one by one. -/
def searchLimit : Nat := 32

def position? (s : Slots) (k : Key) : Option Nat :=
  if s.entries.size ≤ searchLimit then s.entries.findIdx? fun e => e.1 == k else s.index[k]?

def get (s : Slots) (k : Key) : Value :=
  match s.position? k with
  | some i => (s.entries[i]?.map (·.2)).getD .nil
  | none => .nil

/-- Puts the places of entries into an index, from the place `i` on. -/
def indexFrom (index : Std.HashMap Key Nat) (i : Nat) : List (Key × Value) → Std.HashMap Key Nat
  | [] => index
  | e :: rest => indexFrom (index.insert e.1 i) (i + 1) rest

/-- Adds an entry with a new key. -/
def push (s : Slots) (k : Key) (v : Value) : Slots :=
  let n := s.entries.size
  if n < searchLimit then { s with entries := s.entries.push (k, v) }
  else if n = searchLimit then
    let entries := s.entries.push (k, v)
    { entries, index := indexFrom {} 0 entries.toList }
  else { entries := s.entries.push (k, v), index := s.index.insert k n }

/-- Changes the value at a place. -/
def setAt (s : Slots) (i : Nat) (v : Value) : Slots :=
  { s with entries := s.entries.modify i fun e => (e.1, v) }

/-- The entries that are there, in order. -/
def live (s : Slots) : List (Key × Value) := s.entries.toList.filter fun e => !e.2.isNil

/-- The first entry that is there from a place on. -/
def firstFrom? (s : Slots) (i : Nat) : Option (Key × Value) :=
  go i (s.entries.size - i)
where
  go (i : Nat) : Nat → Option (Key × Value)
    | 0 => none
    | n + 1 =>
      match s.entries[i]? with
      | some e => if e.2.isNil then go (i + 1) n else some e
      | none => none

end Slots

structure Table where
  /-- The values of the keys from `1` on. -/
  items : Array Value := #[]
  slots : Slots := {}
  /-- How many slots there may be before the table is arranged anew. -/
  room : Nat := 0
  metatable : Option Nat := none
deriving Inhabited

namespace Table

/-- The place in the list of items that a key has. -/
def itemIndex? (t : Table) : Key → Option Nat
  | .int i =>
    let n := i.toInt
    if 1 ≤ n && n ≤ t.items.size then some (n - 1).toNat else none
  | _ => none

def get (t : Table) (k : Key) : Value :=
  match t.itemIndex? k with
  | some i => t.items[i]?.getD .nil
  | none => t.slots.get k

def getInt (t : Table) (i : Int64) : Value := t.get (.int i)

def getText (t : Table) (s : String) : Value := t.get (.text s)

/-- The least power of two that is not below a number; nothing needs no room. -/
def roomFor (n : Nat) : Nat :=
  let power := Nat.pow 2 (n - 1).log2
  if n = 0 then 0 else if n ≤ power then power else 2 * power

/-- The positive integer that a key is. -/
def positive? : Key → Option Nat
  | .int i => if 0 < i then some i.toNatClampNeg else none
  | _ => none

/-- The number of keys in each range from above `2 ^ (i - 1)` to `2 ^ i`, with one more key. -/
def countKey (counts : Array Nat) (n : Nat) : Array Nat :=
  let i := if n ≤ 1 then 0 else (n - 1).log2 + 1
  counts.modify i (· + 1)

/-- The largest power of two such that more than half of the keys up to it are in use, and how many are. -/
def listSize (counts : Array Nat) (total : Nat) : Nat × Nat :=
  go 0 0 (0, 0) 63
where
  go (i seen : Nat) (best : Nat × Nat) : Nat → Nat × Nat
    | 0 => best
    | n + 1 =>
      let size := Nat.pow 2 i
      if total ≤ size / 2 then best
      else
        let seen := seen + counts[i]?.getD 0
        go (i + 1) seen (if size / 2 < seen then (size, seen) else best) n

/-- Puts an entry into a list of items that has a place for it, else into the slots. -/
def place (t : Table) (e : Key × Value) : Table :=
  match t.itemIndex? e.1 with
  | some i => { t with items := t.items.setIfInBounds i e.2 }
  | none => { t with slots := t.slots.push e.1 e.2 }

/-- Arranges the entries anew, with room for one more key: the dense part of the integer keys becomes
the list of items, and entries that are not there lose their slots. -/
def rearrange (t : Table) (extra : Key) : Table :=
  let live := t.slots.live
  let counts := Array.replicate 65 0
  let (counts, used, _) := t.items.foldl (fun (counts, used, n) v =>
    if v.isNil then (counts, used, n + 1) else (countKey counts n, used + 1, n + 1)) (counts, 0, 1)
  let (counts, integers) := live.foldl (fun (counts, m) e =>
    match positive? e.1 with
    | some n => (countKey counts n, m + 1)
    | none => (counts, m)) (counts, used)
  let (counts, integers) :=
    match positive? extra with
    | some n => (countKey counts n, integers + 1)
    | none => (counts, integers)
  let (size, inList) := listSize counts integers
  let total := used + live.length + 1
  let outside := (List.range (t.items.size - size)).filterMap fun i =>
    let v := t.items[size + i]?.getD .nil
    if v.isNil then none else some (Key.int (Int64.ofNat (size + i + 1)), v)
  let kept := t.items.extract 0 size
  let fresh : Table :=
    { items := kept ++ Array.replicate (size - kept.size) .nil
      room := roomFor (total - inList)
      metatable := t.metatable }
  (outside ++ live).foldl place fresh

/-- Adds an entry with a new key, which is no place of the list of items. -/
def insertNew (t : Table) (k : Key) (v : Value) : Table :=
  if t.slots.entries.size < t.room then { t with slots := t.slots.push k v }
  else (t.rearrange k).place (k, v)

/-- Sets the value of a key; `nil` takes the entry away. -/
def set (t : Table) (k : Key) (v : Value) : Table :=
  match t.itemIndex? k with
  | some i => { t with items := t.items.setIfInBounds i v }
  | none =>
    match t.slots.position? k with
    | some i => { t with slots := t.slots.setAt i v }
    | none => if v.isNil then t else t.insertNew k v

def setText (t : Table) (s : String) (v : Value) : Table := t.set (.text s) v

/-- An empty table with a list of items of a given size and room for other entries. -/
def sized (items pairs : Nat) : Table :=
  { items := Array.replicate items .nil, room := roomFor pairs }

def ofList (items : List Value) : Table := { items := items.toArray }

/-- A table with named values. -/
def ofFields (fields : List (String × Value)) : Table :=
  fields.foldl (fun t f => t.setText f.1 f.2) (sized 0 fields.length)

/-! Length -/

/-- A place between one that is there and one that is not: `present` is there or zero, `absent` is
not there. -/
def bisect (isThere : Nat → Bool) (present absent : Nat) : Nat :=
  if present + 1 < absent then
    let middle := (present + absent) / 2
    if isThere middle then bisect isThere middle absent else bisect isThere present middle
  else present
termination_by absent - present

/-- The largest integer that can be a key. -/
def lastKey : Nat := Nat.pow 2 63 - 1

/-- The last place before an absent one, found by doubling. The count bounds the doublings. -/
def gallop (isThere : Nat → Bool) (present : Nat) : Nat → Nat
  | 0 => present
  | n + 1 =>
    let next := 2 * present
    if lastKey < next then if isThere lastKey then lastKey else bisect isThere present lastKey
    else if isThere next then gallop isThere next n
    else bisect isThere present next

/-- Whether the key `n` has a value. -/
def isThere (t : Table) (n : Nat) : Bool := !(t.getInt (Int64.ofNat n)).isNil

/-- The length without metamethods: a number of items after which the next key has no value. -/
def length (t : Table) : Nat :=
  let n := t.items.size
  if n = 0 || t.isThere n then
    if t.slots.entries.isEmpty || !t.isThere (n + 1) then n
    else gallop t.isThere (max n 1) 64
  else if t.isThere (n - 1) then n - 1
  else bisect t.isThere 0 n

/-! Traversal -/

/-- The first item that is there from a place on. -/
def firstItem? (t : Table) (i : Nat) : Option (Key × Value) :=
  go i (t.items.size - i)
where
  go (i : Nat) : Nat → Option (Key × Value)
    | 0 => none
    | n + 1 =>
      match t.items[i]? with
      | some v => if v.isNil then go (i + 1) n else some (.int (Int64.ofNat (i + 1)), v)
      | none => none

/-- The entry after that of a key, the first one for no key; none for a key that the table never had. -/
def next? (t : Table) : Option Key → Option (Option (Key × Value))
  | none => some ((t.firstItem? 0).or (t.slots.firstFrom? 0))
  | some k =>
    match t.itemIndex? k with
    | some i => some ((t.firstItem? (i + 1)).or (t.slots.firstFrom? 0))
    | none => (t.slots.position? k).map fun i => t.slots.firstFrom? (i + 1)

/-- All entries, in the order of a traversal. -/
def entries (t : Table) : List (Key × Value) :=
  let items := t.items.toList.zipIdx.filterMap fun (v, i) =>
    if v.isNil then none else some (Key.int (Int64.ofNat (i + 1)), v)
  items ++ t.slots.live

/-- About how much memory a table takes up. -/
def bytes (t : Table) : Nat := 56 + 16 * t.items.size + 24 * max t.room t.slots.entries.size

end Table

end ScriptTools.Guest
