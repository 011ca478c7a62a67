/-!
Labels of domain names that are not ASCII, written in ASCII: the ASCII characters first, then the others
as differences in ascending order, in digits of base 36 whose limits adapt.
-/

namespace ScriptTools.Web.Punycode

def base : Nat := 36

def digitChar (d : Nat) : Char := if d < 26 then Char.ofNat (97 + d) else Char.ofNat (22 + d)

/-- Reduces a difference until it is small, counting the steps. -/
def adaptLoop (delta steps : Nat) : Nat :=
  if _h : 455 < delta then adaptLoop (delta / 35) (steps + base)
  else steps + 36 * delta / (delta + 38)
termination_by delta
decreasing_by omega

def adapt (delta count : Nat) (first : Bool) : Nat :=
  let delta := if first then delta / 700 else delta / 2
  adaptLoop (delta + delta / count) 0

def threshold (k bias : Nat) : Nat :=
  if k ≤ bias then 1 else if bias + 26 ≤ k then 26 else k - bias

theorem threshold_pos (k bias : Nat) : 1 ≤ threshold k bias := by
  unfold threshold
  split
  · omega
  · split <;> omega

/-- A difference as digits, least significant first. -/
def encodeNumber (q k bias : Nat) : List Char :=
  let t := threshold k bias
  if _h : q < t then [digitChar q]
  else digitChar (t + (q - t) % (base - t)) :: encodeNumber ((q - t) / (base - t)) (k + base) bias
termination_by q
decreasing_by
  have := threshold_pos k bias
  exact Nat.lt_of_le_of_lt (Nat.div_le_self _ _) (by omega)

structure State where
  delta : Nat
  bias : Nat
  handled : Nat
  out : List Char

/-- Goes over the label once for the code point `n`: smaller ones count as steps, and each place where `n`
stands is written. -/
def passOver (n basic : Nat) (label : List Nat) (s : State) : State :=
  label.foldl (fun s c =>
    if c < n then { s with delta := s.delta + 1 }
    else if c = n then
      { delta := 0
        bias := adapt s.delta (s.handled + 1) (s.handled = basic)
        handled := s.handled + 1
        out := s.out ++ encodeNumber s.delta base s.bias }
    else s) s

/-- The points to write in ascending order, each once. -/
def ascending (label : List Nat) : List Nat :=
  ((label.filter (128 ≤ ·)).mergeSort (· ≤ ·)).eraseReps

/-- Writes the points one after another; `n` is the first that has not been gone over. -/
def encodePoints (label : List Nat) (basic : Nat) : List Nat → Nat → State → State
  | [], _, s => s
  | m :: rest, n, s =>
    let s := { s with delta := s.delta + (m - n) * (s.handled + 1) }
    let s := passOver m basic label s
    encodePoints label basic rest (m + 1) { s with delta := s.delta + 1 }

/-- A label in ASCII; one that is ASCII stays as it is. -/
def encodeLabel (label : List Char) : List Char :=
  let points := label.map Char.toNat
  if points.all (· < 128) then label
  else
    let basic := label.filter fun c => c.toNat < 128
    let start := if basic.isEmpty then [] else basic ++ ['-']
    let s := encodePoints points basic.length (ascending points) 128 ⟨0, 72, basic.length, start⟩
    ['x', 'n', '-', '-'] ++ s.out

end ScriptTools.Web.Punycode
