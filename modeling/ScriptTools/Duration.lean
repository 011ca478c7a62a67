import ScriptTools.Decimal.Notation

/-!
Spans of time in nanoseconds, their text in the largest unit that is not above them, and readings of the clock.
-/

namespace ScriptTools

structure Duration where
  nanos : Nat
deriving DecidableEq, Repr, Inhabited

namespace Duration

def ofSeconds (n : Nat) : Duration := ⟨n * 1000000000⟩

def ofMillis (n : Nat) : Duration := ⟨n * 1000000⟩

def ofMicros (n : Nat) : Duration := ⟨n * 1000⟩

/-- A quotient by a power of ten without zeros at its end. -/
def decimalText (n places : Nat) : String :=
  let ds := Decimal.digitChars (n % Nat.pow 10 places)
  let fraction := Decimal.dropTrailingZeros (List.replicate (places - ds.length) '0' ++ ds)
  let whole := toString (n / Nat.pow 10 places)
  if n % Nat.pow 10 places = 0 then whole else whole ++ "." ++ String.ofList fraction

def text (d : Duration) : String :=
  if 1000000000 ≤ d.nanos then decimalText d.nanos 9 ++ "s"
  else if 1000000 ≤ d.nanos then decimalText d.nanos 6 ++ "ms"
  else if 1000 ≤ d.nanos then decimalText d.nanos 3 ++ "µs"
  else toString d.nanos ++ "ns"

end Duration

/-- What the clock can count, in nanoseconds: its seconds are a signed word of 64 bits. -/
def Instant.horizon : Nat := Nat.pow 2 63 * 1000000000

/-- A reading of the clock, in nanoseconds. -/
structure Instant where
  nanos : Nat
  counted : nanos < Instant.horizon
deriving DecidableEq

namespace Instant

def start : Instant := ⟨0, by decide⟩

def ofNanos? (n : Nat) : Option Instant := if counted : n < horizon then some ⟨n, counted⟩ else none

/-- The reading after a span of time, if the clock can count so far. -/
def after? (now : Instant) (d : Duration) : Option Instant := ofNanos? (now.nanos + d.nanos)

end Instant

end ScriptTools
