/-!
Patterns of scripts: single characters and classes with repetitions, anchors, balanced brackets,
frontiers and captures. A match is looked for at one place, longest or shortest repetition first. Every
step takes in part of the pattern, so the length of the pattern bounds the steps.
-/

namespace ScriptTools.Guest.Pattern

/-- How far a capture goes. -/
inductive Extent where
  | closed (stop : Nat)
  | unfinished
  /-- The capture is the place itself. -/
  | position
deriving DecidableEq, Repr, Inhabited

structure Capture where
  start : Nat
  extent : Extent
deriving DecidableEq, Repr, Inhabited

/-- Where a match ends, with what it captured; none when there is no match; or what is wrong with the
pattern. -/
abbrev Found := Except String (Option (Nat × Array Capture))

def captureLimit : Nat := 32

/-- A byte of a sequence; zero past its end. -/
def at0 (b : ByteArray) (i : Nat) : UInt8 := if h : i < b.size then b[i] else 0

def isLower (c : UInt8) : Bool := 97 ≤ c && c ≤ 122
def isUpper (c : UInt8) : Bool := 65 ≤ c && c ≤ 90
def isDigit (c : UInt8) : Bool := 48 ≤ c && c ≤ 57
def isAlpha (c : UInt8) : Bool := isLower c || isUpper c
def isAlnum (c : UInt8) : Bool := isAlpha c || isDigit c
def isControl (c : UInt8) : Bool := c < 32 || c == 127
def isGraph (c : UInt8) : Bool := 32 < c && c < 127
def isPunct (c : UInt8) : Bool := isGraph c && !isAlnum c
def isSpace (c : UInt8) : Bool := c == 32 || (9 ≤ c && c ≤ 13)
def isHex (c : UInt8) : Bool := isDigit c || (97 ≤ c && c ≤ 102) || (65 ≤ c && c ≤ 70)

def toLower (c : UInt8) : UInt8 := if isUpper c then c + 32 else c
def toUpper (c : UInt8) : UInt8 := if isLower c then c - 32 else c

/-- The class of a lower-case letter. -/
def class? (letter : UInt8) (c : UInt8) : Option Bool :=
  match Char.ofNat letter.toNat with
  | 'a' => some (isAlpha c)
  | 'c' => some (isControl c)
  | 'd' => some (isDigit c)
  | 'g' => some (isGraph c)
  | 'l' => some (isLower c)
  | 'p' => some (isPunct c)
  | 's' => some (isSpace c)
  | 'u' => some (isUpper c)
  | 'w' => some (isAlnum c)
  | 'x' => some (isHex c)
  | 'z' => some (c == 0)
  | _ => none

/-- Whether a byte is in the class of an escaped letter; a capital letter stands for all others, and
what is no letter of a class for itself. -/
def inClass (letter c : UInt8) : Bool :=
  match class? (toLower letter) c with
  | some b => if isUpper letter then !b else b
  | none => letter == c

/-- The closing bracket of a set, searched from a place on. -/
def setEnd (p : ByteArray) (i : Nat) : Nat → Except String Nat
  | 0 => .error "malformed pattern (missing ']')"
  | n + 1 =>
    if p.size ≤ i then .error "malformed pattern (missing ']')"
    else
      let next := if at0 p i == 37 && i + 1 < p.size then i + 2 else i + 1
      if at0 p next == 93 then .ok (next + 1) else setEnd p next n

/-- The end of the single character, class or set that starts at a place. -/
def itemEnd (p : ByteArray) (i : Nat) : Except String Nat :=
  if at0 p i == 37 then
    if p.size ≤ i + 1 then .error "malformed pattern (ends with '%')" else .ok (i + 2)
  else if at0 p i == 91 then
    setEnd p (if at0 p (i + 1) == 94 then i + 2 else i + 1) (p.size + 1)
  else .ok (i + 1)

/-- Whether a byte is one of those between a place and the closing bracket at `stop`. -/
def inMembers (p : ByteArray) (c : UInt8) (stop i : Nat) : Nat → Bool
  | 0 => false
  | n + 1 =>
    if stop ≤ i then false
    else if at0 p i == 37 then inClass (at0 p (i + 1)) c || inMembers p c stop (i + 2) n
    else if at0 p (i + 1) == 45 && i + 2 < stop then
      (at0 p i ≤ c && c ≤ at0 p (i + 2)) || inMembers p c stop (i + 3) n
    else at0 p i == c || inMembers p c stop (i + 1) n

/-- Whether a byte is in the set that starts at a place and has its closing bracket at `stop`. -/
def inSet (p : ByteArray) (c : UInt8) (i stop : Nat) : Bool :=
  if at0 p (i + 1) == 94 then !inMembers p c stop (i + 2) p.size
  else inMembers p c stop (i + 1) p.size

/-- Whether the byte at `si` is what the item from `i` to `stop` stands for. -/
def single (s p : ByteArray) (si i stop : Nat) : Bool :=
  if s.size ≤ si then false
  else
    let c := at0 s si
    let b := at0 p i
    if b == 46 then true
    else if b == 37 then inClass (at0 p (i + 1)) c
    else if b == 91 then inSet p c i (stop - 1)
    else b == c

/-- How many bytes in a row an item stands for. -/
def countSingle (s p : ByteArray) (i stop : Nat) (si : Nat) : Nat → Nat
  | 0 => 0
  | n + 1 => if single s p si i stop then countSingle s p i stop (si + 1) n + 1 else 0

/-- Tries the longest repetition first. -/
def longest (goOn : Nat → Found) (si : Nat) : Nat → Found
  | 0 => goOn si
  | n + 1 =>
    match goOn (si + (n + 1)) with
    | .ok none => longest goOn si n
    | r => r

/-- Tries the shortest repetition first. -/
def shortest (goOn : Nat → Found) (more : Nat → Bool) (si : Nat) : Nat → Found
  | 0 => goOn si
  | n + 1 =>
    match goOn si with
    | .ok none => if more si then shortest goOn more (si + 1) n else .ok none
    | r => r

/-- The end of a balanced stretch, inside `depth` brackets. -/
def balanced (s : ByteArray) (opening closing : UInt8) (depth si : Nat) : Nat → Option Nat
  | 0 => none
  | n + 1 =>
    if s.size ≤ si then none
    else
      let c := at0 s si
      if c == closing then
        if depth = 1 then some (si + 1) else balanced s opening closing (depth - 1) (si + 1) n
      else if c == opening then balanced s opening closing (depth + 1) (si + 1) n
      else balanced s opening closing depth (si + 1) n

/-- The latest capture that is not finished. -/
def unfinished? (cs : Array Capture) : Option Nat :=
  (List.range cs.size).reverse.find? fun i => (cs[i]?.map (·.extent)) == some .unfinished

def sameBytes (s : ByteArray) (i j : Nat) : Nat → Bool
  | 0 => true
  | n + 1 => at0 s i == at0 s j && sameBytes s (i + 1) (j + 1) n

/-- The end of a repetition of an earlier capture. -/
def repeated (s : ByteArray) (cs : Array Capture) (si : Nat) (digit : UInt8) : Except String (Option Nat) :=
  let l := digit.toNat - 48
  match if l = 0 then none else cs[l - 1]? with
  | some ⟨start, .closed stop⟩ =>
    let n := stop - start
    if n ≤ s.size - si && sameBytes s start si n then .ok (some (si + n)) else .ok none
  | some ⟨_, .position⟩ => .ok none
  | _ => .error ("invalid capture index %" ++ toString l)

/-- The match of the pattern from `i` on at the place `si`. The count bounds the rest of the pattern. -/
def matchFrom (s p : ByteArray) (si i : Nat) (cs : Array Capture) : Nat → Found
  | 0 => .error "pattern too complex"
  | n + 1 =>
    if p.size ≤ i then .ok (some (si, cs))
    else
      let c := at0 p i
      let next := at0 p (i + 1)
      let item (_ : Unit) : Found := do
        let stop ← itemEnd p i
        let mark := at0 p stop
        let matched := single s p si i stop
        let goOn (si : Nat) : Found := matchFrom s p si (stop + 1) cs n
        if mark == 63 then
          if matched then
            match ← goOn (si + 1) with
            | none => goOn si
            | r => pure r
          else goOn si
        else if mark == 43 then
          if matched then longest goOn (si + 1) (countSingle s p i stop (si + 1) s.size)
          else pure none
        else if mark == 42 then longest goOn si (countSingle s p i stop si s.size)
        else if mark == 45 then
          shortest goOn (fun si => single s p si i stop) si (s.size + 1)
        else if matched then matchFrom s p (si + 1) stop cs n
        else pure none
      if c == 40 then
        if captureLimit ≤ cs.size then .error "too many captures"
        else if next == 41 then matchFrom s p si (i + 2) (cs.push ⟨si, .position⟩) n
        else matchFrom s p si (i + 1) (cs.push ⟨si, .unfinished⟩) n
      else if c == 41 then
        match unfinished? cs with
        | some l => matchFrom s p si (i + 1) (cs.modify l fun c => { c with extent := .closed si }) n
        | none => .error "invalid pattern capture"
      else if c == 36 && i + 1 = p.size then .ok (if si = s.size then some (si, cs) else none)
      else if c == 37 && next == 98 then
        if p.size < i + 4 then .error "malformed pattern (missing arguments to '%b')"
        else if s.size ≤ si || at0 s si != at0 p (i + 2) then .ok none
        else
          match balanced s (at0 p (i + 2)) (at0 p (i + 3)) 1 (si + 1) s.size with
          | some si => matchFrom s p si (i + 4) cs n
          | none => .ok none
      else if c == 37 && next == 102 then
        if at0 p (i + 2) != 91 then .error "missing '[' after '%f' in pattern"
        else do
          let stop ← itemEnd p (i + 2)
          let before := if si = 0 then 0 else at0 s (si - 1)
          if !inSet p before (i + 2) (stop - 1) && inSet p (at0 s si) (i + 2) (stop - 1) then
            matchFrom s p si stop cs n
          else pure none
      else if c == 37 && isDigit next then do
        match ← repeated s cs si next with
        | some si => matchFrom s p si (i + 2) cs n
        | none => pure none
      else item ()

/-- The match of a pattern at one place; an anchor at its front is not looked at. -/
def matchAt (s p : ByteArray) (anchored : Bool) (si : Nat) : Found :=
  matchFrom s p si (if anchored then 1 else 0) #[] (p.size + 2)

def isAnchored (p : ByteArray) : Bool := at0 p 0 == 94

/-- The first match from a place on: its start, its end and its captures. -/
def firstMatch (s p : ByteArray) (anchored : Bool) (si : Nat) :
    Nat → Except String (Option (Nat × Nat × Array Capture))
  | 0 => .ok none
  | n + 1 =>
    match matchAt s p anchored si with
    | .error e => .error e
    | .ok (some (stop, cs)) => .ok (some (si, stop, cs))
    | .ok none => if anchored || s.size ≤ si then .ok none else firstMatch s p anchored (si + 1) n

/-- Whether a pattern has no characters with a meaning. -/
def isPlain (p : ByteArray) : Bool :=
  p.toList.all fun b => !("^$*+?.([%-".toUTF8.toList.contains b)

/-- The first place from one on where a sequence stands in another. -/
def plainFind? (s p : ByteArray) (si : Nat) : Option Nat :=
  go si (s.size + 1 - si)
where
  go (si : Nat) : Nat → Option Nat
    | 0 => none
    | n + 1 =>
      if s.size < si + p.size then none
      else if same si 0 p.size then some si
      else go (si + 1) n
  same (si i : Nat) : Nat → Bool
    | 0 => true
    | n + 1 => at0 s (si + i) == at0 p i && same si (i + 1) n

end ScriptTools.Guest.Pattern
