import ScriptTools.Guest.Library.Parameter

/-!
The library of tables. Items are read and written as the script would, with metamethods.
-/

namespace ScriptTools.Guest.Library

open Eval

variable {World : Type}

/-- A table, or a value whose metatable has all the given events. -/
def tableLike (b : Builtin) (args : List Value) (i : Nat) (events : List String) :
    Eval World Value := do
  match arg args i with
  | v@(.ref (.table _)) => return v
  | v =>
    match ← metatable? v with
    | none => wrongType b args i "table"
    | some m =>
      let have_ ← events.allM fun e => return !(← rawGetText m e).isNil
      if have_ then return v else wrongType b args i "table"

def getItem (t : Value) (i : Int64) : Eval World Value := do
  match t with
  | .ref (.table id) =>
    match ← rawGet id (.int i) with
    | .nil => index .native .unnamed t (.int i)
    | v => return v
  | _ => index .native .unnamed t (.int i)

def setItem (t : Value) (i : Int64) (v : Value) : Eval World Unit :=
  setIndex .native .unnamed t (.int i) v

/-- The length that the script sees. -/
def lengthOf (t : Value) : Eval World Int64 := do
  match ← length .native t .unnamed with
  | .number n =>
    match n.toInt? with
    | some i => return i
    | none => fault "object length is not an integer"
  | _ => fault "object length is not an integer"

/-- Joins items from one place to another. -/
def joinItems (t : Value) (separator : ByteArray) (i last : Int64) (out : ByteArray) :
    Nat → Eval World ByteArray
  | 0 => return out
  | n + 1 => do
    if last < i then return out
    let v ← getItem t i
    match v.joined? with
    | none =>
      fault ("invalid value (at index " ++ toString i.toInt ++ ") in table for 'concat'")
    | some s =>
      allocate s.size
      let out := out ++ s
      if i = last then return out
      else joinItems t separator (i + 1) last (out ++ separator) n

/-- How many whole numbers there are from one to another. -/
def span (first last : Int64) : Nat := (last.toInt - first.toInt + 1).toNat

def runConcat (args : List Value) : Eval World (List Value) := do
  let t ← tableLike .tableConcat args 1 ["__index", "__len"]
  let all ← lengthOf t
  let separator ← optString .tableConcat args 2 ByteArray.empty
  let first ← optInt .tableConcat args 3 1
  let last ← optInt .tableConcat args 4 all
  return [← newString (← joinItems t separator first last ByteArray.empty (span first last))]

/-- Moves the items from a place on by one place up, last first. -/
def shiftUp (t : Value) (stop i : Int64) : Nat → Eval World Unit
  | 0 => return
  | n + 1 => do
    if i ≤ stop then return
    setItem t i (← getItem t (i - 1))
    shiftUp t stop (i - 1) n

def runInsert (args : List Value) : Eval World (List Value) := do
  let t ← tableLike .tableInsert args 1 ["__index", "__newindex", "__len"]
  let e := (← lengthOf t) + 1
  match args.length with
  | 2 => setItem t e (arg args 2)
  | 3 =>
    let place ← intArg .tableInsert args 2
    check .tableInsert 2 ((place - 1).toUInt64 < e.toUInt64) "position out of bounds"
    shiftUp t place e (span place e)
    setItem t place (arg args 3)
  | _ => fault "wrong number of arguments to 'insert'"
  return []

/-- Moves the items after a place by one place down. -/
def shiftDown (t : Value) (i size : Int64) : Nat → Eval World Unit
  | 0 => return
  | n + 1 => do
    if size ≤ i then return
    setItem t i (← getItem t (i + 1))
    shiftDown t (i + 1) size n

def runRemove (args : List Value) : Eval World (List Value) := do
  let t ← tableLike .tableRemove args 1 ["__index", "__newindex", "__len"]
  let size ← lengthOf t
  let place ← optInt .tableRemove args 2 size
  if place != size then
    check .tableRemove 2 ((place - 1).toUInt64 ≤ size.toUInt64) "position out of bounds"
  let v ← getItem t place
  shiftDown t place size (span place size)
  setItem t (if place < size then size else place) .nil
  return [v]

/-- Copies items, first to last or last to first. -/
def moveItems (source target : Value) (first place : Int64) (up : Bool) (i count : Nat) :
    Nat → Eval World Unit
  | 0 => return
  | n + 1 => do
    if count ≤ i then return
    let k := Int64.ofNat (if up then i else count - 1 - i)
    setItem target (place + k) (← getItem source (first + k))
    moveItems source target first place up (i + 1) count n

def runMove (args : List Value) : Eval World (List Value) := do
  let source ← tableLike .tableMove args 1 ["__index"]
  let first ← intArg .tableMove args 2
  let last ← intArg .tableMove args 3
  let place ← intArg .tableMove args 4
  let target ←
    if isMissing args 5 then tableLike .tableMove args 1 ["__newindex"]
    else tableLike .tableMove args 5 ["__newindex"]
  if first ≤ last then
    check .tableMove 3 (0 < first || last < Int64.maxValue + first) "too many elements to move"
    let count := span first last
    check .tableMove 4 (place ≤ Int64.maxValue - Int64.ofNat count + 1) "destination wrap around"
    let same ← if isMissing args 5 then pure true else equals .native source target
    let up := last < place || place ≤ first || !same
    moveItems source target first place up 0 count count
  return [target]

def runPack (args : List Value) : Eval World (List Value) := do
  return [← newTable ((Table.ofList args).setText "n" (.ofNat args.length))]

/-- The most values that a function can give back. -/
def resultLimit : Nat := 1000000

def getItems (t : Value) (i : Int64) (done : List Value) : Nat → Eval World (List Value)
  | 0 => return done.reverse
  | n + 1 => do
    let v ← getItem t i
    getItems t (i + 1) (v :: done) n

def runUnpack (args : List Value) : Eval World (List Value) := do
  let t := arg args 1
  let first ← optInt .tableUnpack args 2 1
  let last ← if isMissing args 3 then lengthOf t else intArg .tableUnpack args 3
  if last < first then return []
  let count := span first last
  if resultLimit ≤ count then fault "too many results to unpack"
  getItems t first [] count

/-! Sorting -/

/-- Whether one item comes before another. -/
def before (order : Option Value) (a b : Value) : Eval World Bool :=
  match order with
  | none => less .native a b
  | some f => do return (firstValue (← callBack f [a, b])).truth

/-- Puts two items into two places. -/
def putItems (t : Value) (i j : Int64) (a b : Value) : Eval World Unit := do
  setItem t i a
  setItem t j b

def badOrder {α : Type} : Eval World α := fault "invalid order function for sorting"

/-- The next item from a place up that does not come before the pivot, which stands at `stop`. -/
def scanUp (t : Value) (order : Option Value) (pivot : Value) (stop i : Int64) :
    Nat → Eval World (Int64 × Value)
  | 0 => badOrder
  | n + 1 => do
    let v ← getItem t i
    if ← before order v pivot then
      if i = stop then badOrder else scanUp t order pivot stop (i + 1) n
    else return (i, v)

/-- The next item from a place down that the pivot does not come before. -/
def scanDown (t : Value) (order : Option Value) (pivot : Value) (least j : Int64) :
    Nat → Eval World (Int64 × Value)
  | 0 => badOrder
  | n + 1 => do
    let v ← getItem t j
    if ← before order pivot v then
      if j < least then badOrder else scanDown t order pivot least (j - 1) n
    else return (j, v)

/-- Parts the items between `i` and `j` around the pivot, which stands at `stop`; gives the place where
the pivot ends up. -/
def partition (t : Value) (order : Option Value) (pivot : Value) (stop i j : Int64) (size : Nat) :
    Nat → Eval World Int64
  | 0 => badOrder
  | n + 1 => do
    let (i, a) ← scanUp t order pivot stop (i + 1) size
    let (j, b) ← scanDown t order pivot i (j - 1) size
    if j < i then
      putItems t stop i a pivot
      return i
    else
      putItems t i j b a
      partition t order pivot stop i j size n

/-- Brings the first, the middle and the last item into order. -/
def orderThree (t : Value) (order : Option Value) (lo middle up : Int64) : Eval World Unit := do
  let m ← getItem t middle
  let a ← getItem t lo
  if ← before order m a then putItems t middle lo a m
  else
    let b ← getItem t up
    if ← before order b m then putItems t middle up b m

/-- Sorts the items from one place to another, the shorter part first. The count bounds the nesting. -/
def sortRange (t : Value) (order : Option Value) (lo up : Int64) : Nat → Eval World Unit
  | 0 => return
  | n + 1 => do
    if up ≤ lo then return
    let a ← getItem t lo
    let b ← getItem t up
    if ← before order b a then putItems t lo up b a
    if up - lo = 1 then return
    let middle := (lo + up) / 2
    orderThree t order lo middle up
    if up - lo = 2 then return
    let pivot ← getItem t middle
    let last ← getItem t (up - 1)
    putItems t middle (up - 1) last pivot
    let size := span lo up + 1
    let p ← partition t order pivot (up - 1) lo (up - 1) size size
    if p - lo < up - p then
      sortRange t order lo (p - 1) n
      sortRange t order (p + 1) up n
    else
      sortRange t order (p + 1) up n
      sortRange t order lo (p - 1) n

def runSort (args : List Value) : Eval World (List Value) := do
  let t ← tableLike .tableSort args 1 ["__index", "__newindex", "__len"]
  let size ← lengthOf t
  if 1 < size then
    check .tableSort 1 (size < 2147483647) "array too big"
    let order ←
      if isMissing args 2 then pure none
      else do pure (some (← functionArg .tableSort args 2))
    sortRange t order 1 size size.toNatClampNeg
  return []

end ScriptTools.Guest.Library
