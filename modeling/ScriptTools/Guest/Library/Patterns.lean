import ScriptTools.Guest.Library.Strings

/-!
The functions of the library of strings that look for patterns.
-/

namespace ScriptTools.Guest.Library

open Eval

variable {World : Type}

/-- What a search gives, or the error of its pattern. -/
def found {α : Type} (r : Except String α) : Eval World α :=
  match r with
  | .ok a => return a
  | .error e => fault e

/-- The value of a capture. -/
def captureValue (s : ByteArray) (c : Pattern.Capture) : Eval World Value :=
  match c.extent with
  | .closed stop => newString (s.extract c.start stop)
  | .position => return .ofNat (c.start + 1)
  | .unfinished => fault "unfinished capture"

/-- The values of all captures; the whole match when there are none. -/
def captureValues (s : ByteArray) (start stop : Nat) (cs : Array Pattern.Capture) :
    Eval World (List Value) :=
  if cs.isEmpty then return [← newString (s.extract start stop)]
  else cs.toList.mapM (captureValue s)

def runFindOrMatch (b : Builtin) (find : Bool) (args : List Value) : Eval World (List Value) := do
  let s ← stringArg b args 1
  let p ← stringArg b args 2
  let start := startPlace (← optInt b args 3 1) s.size - 1
  if s.size < start then return [.nil]
  if find && ((arg args 4).truth || Pattern.isPlain p) then
    match Pattern.plainFind? s p start with
    | some i => return [.ofNat (i + 1), .ofNat (i + p.size)]
    | none => return [.nil]
  else
    match ← found (Pattern.firstMatch s p (Pattern.isAnchored p) start (s.size + 2)) with
    | none => return [.nil]
    | some (start, stop, cs) =>
      if find then
        let values ← cs.toList.mapM (captureValue s)
        return .ofNat (start + 1) :: .ofNat stop :: values
      else captureValues s start stop cs

def runFind (args : List Value) : Eval World (List Value) := runFindOrMatch .stringFind true args

def runMatch (args : List Value) : Eval World (List Value) := runFindOrMatch .stringMatch false args

def runGmatch (args : List Value) : Eval World (List Value) := do
  let subject ← stringArg .stringGmatch args 1
  let pattern ← stringArg .stringGmatch args 2
  let start := startPlace (← optInt .stringGmatch args 3 1) subject.size - 1
  let position := if subject.size < start then subject.size + 1 else start
  fun s =>
    .done [.ref (.search s.searches.size)]
      { s with searches := s.searches.push { subject, pattern, position, last := none } }

/-- The next match of a search that does not end where the latest one did. -/
def nextMatch (q : Search) (i : Nat) : Nat → Except String (Option (Nat × Nat × Array Pattern.Capture))
  | 0 => .ok none
  | n + 1 =>
    if q.subject.size < i then .ok none
    else
      match Pattern.matchAt q.subject q.pattern false i with
      | .error e => .error e
      | .ok (some (stop, cs)) => if q.last = some stop then nextMatch q (i + 1) n else .ok (some (i, stop, cs))
      | .ok none => nextMatch q (i + 1) n

/-- One step of a loop over matches. -/
def runSearch (id : Nat) : Eval World (List Value) := do
  match ← look fun s => s.searches[id]? with
  | none => return []
  | some q =>
    match ← found (nextMatch q q.position (q.subject.size + 2)) with
    | none => return [.nil]
    | some (start, stop, cs) =>
      modify fun s =>
        { s with
          searches := s.searches.modify id fun q => { q with position := stop, last := some stop } }
      captureValues q.subject start stop cs

/-! Replacement -/

/-- The text that stands for a match: each percent sign with a digit is a capture. -/
def replacementText (s : ByteArray) (start stop : Nat) (cs : Array Pattern.Capture) :
    List UInt8 → ByteArray → Eval World ByteArray
  | [], out => return out
  | 37 :: 37 :: rest, out => replacementText s start stop cs rest (out.push 37)
  | 37 :: c :: rest, out => do
    if c == 48 then replacementText s start stop cs rest (out ++ s.extract start stop)
    else if Pattern.isDigit c then
      let l := c.toNat - 49
      let v ←
        match cs[l]? with
        | some capture => captureValue s capture
        | none =>
          if l = 0 then pure (.string (s.extract start stop))
          else fault ("invalid capture index %" ++ toString (l + 1) ++ " in replacement string")
      replacementText s start stop cs rest (out ++ (v.joined?.getD ByteArray.empty))
    else fault "invalid use of '%' in replacement string"
  | [37], _ => fault "invalid use of '%' in replacement string"
  | c :: rest, out => replacementText s start stop cs rest (out.push c)

/-- What a match is replaced by. -/
def replacement (s : ByteArray) (start stop : Nat) (cs : Array Pattern.Capture) (by_ : Value) :
    Eval World ByteArray := do
  let v ←
    match by_ with
    | .string r => return ← replacementText s start stop cs r.toList ByteArray.empty
    | .number n => return ← replacementText s start stop cs n.text.toUTF8.toList ByteArray.empty
    | .ref (.table _) =>
      let values ← captureValues s start stop cs
      index .native .unnamed by_ (firstValue values)
    | f => do pure (firstValue (← callBack f (← captureValues s start stop cs)))
  if !v.truth then return s.extract start stop
  else
    match v.joined? with
    | some r => return r
    | none => fault ("invalid replacement value (a " ++ v.typeName ++ ")")

/-- The parts of a replacement that goes on at a place: how many matches were replaced, and the text so
far. -/
structure Replaced where
  count : Nat := 0
  last : Option Nat := none
  out : ByteArray := ByteArray.empty

/-- Replaces matches from a place on, at most `most` in all. The count bounds the steps. -/
def replaceFrom (s p : ByteArray) (anchored : Bool) (by_ : Value) (most : Nat) :
    Nat → Nat → Replaced → Eval World Replaced
  | 0, _, r => return r
  | n + 1, i, r => do
    let rest (r : Replaced) (i : Nat) : Replaced := { r with out := r.out ++ s.extract i s.size }
    if most ≤ r.count then return rest r i
    let hit ← found (Pattern.matchAt s p anchored i)
    match hit.filter fun h => r.last != some h.1 with
    | some (stop, cs) =>
      let text ← replacement s i stop cs by_
      let r := { count := r.count + 1, last := some stop, out := r.out ++ text }
      if anchored then return rest r stop else replaceFrom s p anchored by_ most n stop r
    | none =>
      if i < s.size then
        if anchored then return rest r i
        else replaceFrom s p anchored by_ most n (i + 1) { r with out := r.out.push (Pattern.at0 s i) }
      else return r

def runGsub (args : List Value) : Eval World (List Value) := do
  let s ← stringArg .stringGsub args 1
  let p ← stringArg .stringGsub args 2
  let by_ := arg args 3
  let allowed :=
    match by_ with
    | .string _ | .number _ | .ref (.table _) => true
    | v => isFunction v
  if !allowed then wrongType .stringGsub args 3 "string/function/table"
  let most := (← optInt .stringGsub args 4 (Int64.ofNat (s.size + 1))).toInt.toNat
  let r ← replaceFrom s p (Pattern.isAnchored p) by_ most (2 * s.size + 4) 0 {}
  return [← newString r.out, .ofNat r.count]

end ScriptTools.Guest.Library
