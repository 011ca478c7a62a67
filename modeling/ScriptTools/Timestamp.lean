import ScriptTools.Decimal.Fixed
import ScriptTools.Decimal.Read
import ScriptTools.Text.Basic

/-!
Moments in UTC with nanoseconds. Texts may carry any offset; they are written in UTC with the suffix
`Z` and as many groups of three fraction digits as are needed.
-/

namespace ScriptTools

/-- Seconds since 1970-01-01T00:00:00Z and nanoseconds; a leap second is the second before it with a
billion nanoseconds or more. -/
structure Timestamp where
  seconds : Int
  nanos : Nat
deriving DecidableEq, Repr, Inhabited

/-- A day of the proleptic Gregorian calendar. -/
structure CivilDay where
  year : Int
  month : Nat
  day : Nat
deriving DecidableEq, Repr

namespace CivilDay

def isLeapYear (y : Int) : Bool := y % 4 == 0 && (y % 100 != 0 || y % 400 == 0)

def daysInMonth (y : Int) (m : Nat) : Nat :=
  if m = 2 then (if isLeapYear y then 29 else 28)
  else if m = 4 || m = 6 || m = 9 || m = 11 then 30
  else 31

/-- The years that are counted. -/
def yearInRange (y : Int) : Bool := -262143 ≤ y && y ≤ 262142

def isValid (d : CivilDay) : Bool :=
  yearInRange d.year && 1 ≤ d.month && d.month ≤ 12 && 1 ≤ d.day && d.day ≤ daysInMonth d.year d.month

/-- Days since 1970-01-01. Years are taken to begin in March, so that the leap day ends one. -/
def toDays (d : CivilDay) : Int :=
  let y := if d.month ≤ 2 then d.year - 1 else d.year
  let era := y / 400
  let yearOfEra := y - era * 400
  let monthFromMarch : Int := if 2 < d.month then d.month - 3 else d.month + 9
  let dayOfYear := (153 * monthFromMarch + 2) / 5 + d.day - 1
  let dayOfEra := yearOfEra * 365 + yearOfEra / 4 - yearOfEra / 100 + dayOfYear
  era * 146097 + dayOfEra - 719468

def ofDays (days : Int) : CivilDay :=
  let z := days + 719468
  let era := z / 146097
  let dayOfEra := z - era * 146097
  let yearOfEra := (dayOfEra - dayOfEra / 1460 + dayOfEra / 36524 - dayOfEra / 146096) / 365
  let dayOfYear := dayOfEra - (365 * yearOfEra + yearOfEra / 4 - yearOfEra / 100)
  let monthFromMarch := (5 * dayOfYear + 2) / 153
  let day := dayOfYear - (153 * monthFromMarch + 2) / 5 + 1
  let month := if monthFromMarch < 10 then monthFromMarch + 3 else monthFromMarch - 9
  let year := yearOfEra + era * 400
  ⟨if month ≤ 2 then year + 1 else year, month.toNat, day.toNat⟩

end CivilDay

namespace Timestamp

def billion : Nat := 1000000000

/-- The moment before `other`, or the same one. -/
def le (a b : Timestamp) : Bool := a.seconds < b.seconds || (a.seconds == b.seconds && a.nanos ≤ b.nanos)

/-- Years of four digits stand as they are; others have a sign. -/
def yearText (y : Int) : List Char :=
  if 0 ≤ y && y ≤ 9999 then Decimal.padLeftZeros 4 (Decimal.digitChars y.toNat)
  else (if y < 0 then '-' else '+') :: Decimal.padLeftZeros 4 (Decimal.digitChars y.natAbs)

def twoDigits (n : Nat) : List Char := Decimal.padLeftZeros 2 (Decimal.digitChars n)

/-- None, three, six or nine digits of a fraction of a second. -/
def fractionText (nanos : Nat) : List Char :=
  if nanos = 0 then []
  else if nanos % 1000000 = 0 then '.' :: Decimal.padLeftZeros 3 (Decimal.digitChars (nanos / 1000000))
  else if nanos % 1000 = 0 then '.' :: Decimal.padLeftZeros 6 (Decimal.digitChars (nanos / 1000))
  else '.' :: Decimal.padLeftZeros 9 (Decimal.digitChars nanos)

/-- An hour, a minute and a second of a day. -/
structure Clock where
  hour : Nat
  minute : Nat
  second : Nat
deriving DecidableEq, Repr

/-- The day of a moment. -/
def date (t : Timestamp) : CivilDay := CivilDay.ofDays (t.seconds / 86400)

/-- The time of day of a moment. A leap second is the second after the one that it belongs to. -/
def clock (t : Timestamp) : Clock :=
  let inDay := (t.seconds % 86400).toNat
  ⟨inDay / 3600, inDay / 60 % 60, inDay % 60 + (if t.nanos < billion then 0 else 1)⟩

def dateText (d : CivilDay) : List Char := yearText d.year ++ '-' :: twoDigits d.month ++ '-' :: twoDigits d.day

def minuteText (c : Clock) : List Char := twoDigits c.hour ++ ':' :: twoDigits c.minute

/-- The date, the time of day and the fraction, with the given character between date and time. -/
def body (t : Timestamp) (between : Char) : List Char :=
  dateText t.date ++ between :: minuteText t.clock ++ ':' :: twoDigits t.clock.second ++ fractionText (t.nanos % billion)

/-- The written form. -/
def text (t : Timestamp) : String := String.ofList (t.body 'T' ++ ['Z'])

/-- The written form with an offset in numbers. -/
def offsetText (t : Timestamp) : String := String.ofList (t.body 'T') ++ "+00:00"

/-- The date and the time of day with a blank between them and the offset at the end. -/
def spaced (t : Timestamp) : String := String.ofList (t.body ' ') ++ " +00:00"

/-- The date and the minute. -/
def toMinute (t : Timestamp) : String := String.ofList (dateText t.date ++ ' ' :: minuteText t.clock)

/-- A number of at most `width` digits after blanks. -/
def readNumber? (width : Nat) (cs : List Char) : Option (Nat × List Char) :=
  let cs := Text.trimStartChars cs
  let ds := (cs.take width).takeWhile Char.isDigit
  if ds.isEmpty then none else some (Decimal.natOfDigits ds, cs.drop ds.length)

/-- A year: up to four digits, or a sign and any number of digits. -/
def readYear? (cs : List Char) : Option (Int × List Char) :=
  let cs := Text.trimStartChars cs
  let signed (negative : Bool) (rest : List Char) : Option (Int × List Char) :=
    let (ds, rest) := Decimal.spanDigits rest
    if ds.isEmpty then none
    else
      let n : Int := Decimal.natOfDigits ds
      some (if negative then -n else n, rest)
  match cs with
  | '-' :: rest => signed true rest
  | '+' :: rest => signed false rest
  | _ => (readNumber? 4 cs).map fun (n, rest) => ((n : Int), rest)

/-- The given character after blanks. -/
def readMark? (mark : Char) (cs : List Char) : Option (List Char) :=
  match Text.trimStartChars cs with
  | c :: rest => if c = mark then some rest else none
  | [] => none

/-- A fraction of a second in nanoseconds; digits after the ninth are dropped. -/
def readFraction? (cs : List Char) : Option (Nat × List Char) :=
  match cs with
  | '.' :: rest =>
    let (ds, rest) := Decimal.spanDigits rest
    let kept := ds.take 9
    if ds.isEmpty then none else some (Decimal.natOfDigits kept * Nat.pow 10 (9 - kept.length), rest)
  | _ => some (0, cs)

/-- An offset from UTC in seconds: `Z`, `UTC`, or a sign, two digits of hours, colons or blanks, and two
digits of minutes. -/
def readOffset? (cs : List Char) : Option (Int × List Char) :=
  if (cs.take 3).map Char.toLower = ['u', 't', 'c'] then some (0, cs.drop 3)
  else
    match cs with
    | [] => none
    | sign :: rest =>
      if sign = 'Z' || sign = 'z' then some (0, rest)
      else if sign = '+' || sign = '-' || sign = '\u2212' then
        match rest with
        | h₁ :: h₂ :: rest =>
          match rest.dropWhile (fun c => c = ':' || Text.isBlank c) with
          | m₁ :: m₂ :: rest =>
            if [h₁, h₂, m₁, m₂].all Char.isDigit && m₁ ≤ '5' then
              let seconds : Int :=
                Decimal.natOfDigits [h₁, h₂] * 3600 + Decimal.natOfDigits [m₁, m₂] * 60
              if seconds < 86400 then some (if sign = '+' then seconds else -seconds, rest) else none
            else none
          | _ => none
        | _ => none
      else none

/-- A year, a month and a day with hyphens between them. -/
def readDate? (cs : List Char) : Option (CivilDay × List Char) := do
  let (year, cs) ← readYear? cs
  let (month, cs) ← readNumber? 2 (← readMark? '-' cs)
  let (day, cs) ← readNumber? 2 (← readMark? '-' cs)
  pure (⟨year, month, day⟩, cs)

/-- The mark between the date and the time of day. -/
def readBetween? : List Char → Option (List Char)
  | c :: rest => if c = 't' || c = 'T' || c = ' ' then some rest else none
  | [] => none

/-- An hour, a minute and a second with colons between them. -/
def readClock? (cs : List Char) : Option (Clock × List Char) := do
  let (hour, cs) ← readNumber? 2 cs
  let (minute, cs) ← readNumber? 2 (← readMark? ':' cs)
  let (second, cs) ← readNumber? 2 (← readMark? ':' cs)
  pure (⟨hour, minute, second⟩, cs)

/-- The moment of a day, a time of day and a fraction at an offset. The sixtieth second of a minute is a
leap second. -/
def ofParts? (date : CivilDay) (clock : Clock) (nanos : Nat) (offset : Int) : Option Timestamp :=
  let seconds : Int :=
    date.toDays * 86400 + clock.hour * 3600 + clock.minute * 60 + min clock.second 59 - offset
  if date.isValid && clock.hour < 24 && clock.minute < 60 && clock.second ≤ 60
      && CivilDay.yearInRange (CivilDay.ofDays (seconds / 86400)).year then
    some ⟨seconds, if clock.second = 60 then nanos + billion else nanos⟩
  else none

/-- The moment that a text writes. -/
def read? (s : String) : Option Timestamp := do
  let (date, cs) ← readDate? s.toList
  let (clock, cs) ← readClock? (← readBetween? cs)
  let (nanos, cs) ← readFraction? cs
  let (offset, cs) ← readOffset? (Text.trimStartChars cs)
  if (Text.trimStartChars cs).isEmpty then ofParts? date clock nanos offset else none

end Timestamp

end ScriptTools
