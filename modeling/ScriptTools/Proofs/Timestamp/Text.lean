import Mathlib.Algebra.Group.Nat.Defs
import ScriptTools.Proofs.Decimal.Digits
import ScriptTools.Proofs.Timestamp.Calendar

/-!
The written form of a moment is read back as that moment.
-/

namespace ScriptTools

namespace Decimal

theorem padLeftZeros_digits (width n : Nat) : ∀ d ∈ padLeftZeros width (digitChars n), d.isDigit = true := by
  intro d member
  rcases List.mem_append.mp member with zero | digit
  · rw [List.eq_of_mem_replicate zero]
    rfl
  · exact isDigit_of_mem_digitChars digit

theorem natOfDigits_padLeftZeros (width n : Nat) : natOfDigits (padLeftZeros width (digitChars n)) = n := by
  have zeros (k : Nat) : (List.replicate k '0').foldl (fun n c => n * 10 + digitValue c) 0 = 0 := by
    induction k with
    | zero => rfl
    | succ k ih => exact ih
  rw [natOfDigits, padLeftZeros, List.foldl_append, zeros]
  exact natOfDigits_digitChars n

theorem natOfDigits_lt {ds : List Char} (digits : ∀ d ∈ ds, d.isDigit = true) : natOfDigits ds < 10 ^ ds.length := by
  have later (start : Nat) : ds.foldl (fun n c => n * 10 + digitValue c) start < (start + 1) * 10 ^ ds.length := by
    induction ds generalizing start with
    | nil => simp
    | cons d ds ih =>
      have value := of_isDigit (p := fun c => decide (digitValue c < 10)) (by decide) (digits d (by simp))
      have step : start * 10 + digitValue d + 1 ≤ (start + 1) * 10 := by
        have := of_decide_eq_true value
        omega
      rw [List.foldl_cons, List.length_cons, Nat.pow_succ', ← Nat.mul_assoc]
      exact Nat.lt_of_lt_of_le (ih (fun c member => digits c (by simp [member])) _) (Nat.mul_le_mul_right _ step)
  simpa [natOfDigits] using later 0

theorem padLeftZeros_ne_nil (width n : Nat) : padLeftZeros width (digitChars n) ≠ [] := by
  simp [padLeftZeros, digitChars_ne_nil]

theorem padLeftZeros_length {width n : Nat} (positive : 0 < width) (fits : n < 10 ^ width) :
    (padLeftZeros width (digitChars n)).length = width := by
  have short : (digitChars n).length ≤ width := (Nat.length_toDigits_le_iff (by decide) positive).mpr fits
  rw [padLeftZeros, List.length_append, List.length_replicate]
  omega

end Decimal

namespace Timestamp

open Decimal (digitChars padLeftZeros)

theorem trimStartChars_of_visible {c : Char} (visible : Text.isBlank c = false) (cs : List Char) :
    Text.trimStartChars (c :: cs) = c :: cs := by
  rw [Text.trimStartChars, List.dropWhile_cons, visible]
  rfl

theorem not_isBlank_of_isDigit {c : Char} (digit : c.isDigit = true) : Text.isBlank c = false := by
  have visible := Decimal.of_isDigit (p := fun c => !Text.isBlank c) (by decide) digit
  simpa using visible

theorem readMark?_self {mark : Char} (visible : Text.isBlank mark = false) (rest : List Char) :
    readMark? mark (mark :: rest) = some rest := by
  rw [readMark?, trimStartChars_of_visible visible]
  exact if_pos rfl

/-- A number that is filled with zeros to its width is read whatever follows. -/
theorem readNumber?_padded {width n : Nat} (positive : 0 < width) (fits : n < 10 ^ width) (rest : List Char) :
    readNumber? width (padLeftZeros width (digitChars n) ++ rest) = some (n, rest) := by
  have length := Decimal.padLeftZeros_length positive fits
  have digits := Decimal.padLeftZeros_digits width n
  have value := Decimal.natOfDigits_padLeftZeros width n
  have some := Decimal.padLeftZeros_ne_nil width n
  generalize padLeftZeros width (digitChars n) = ds at length digits value some
  have front : Text.trimStartChars (ds ++ rest) = ds ++ rest := by
    cases ds with
    | nil => exact absurd rfl some
    | cons d ds => exact trimStartChars_of_visible (not_isBlank_of_isDigit (digits d (by simp))) _
  have taken : (ds ++ rest).take width = ds := List.take_left' length
  have all : ds.takeWhile Char.isDigit = ds := List.takeWhile_eq_self_iff.mpr digits
  simp only [readNumber?, front, taken, all, List.isEmpty_iff, some, if_false, value, List.drop_left]

theorem readYear?_of_isDigit {c : Char} (digit : c.isDigit = true) (cs : List Char) :
    readYear? (c :: cs) = (readNumber? 4 (c :: cs)).map fun (n, rest) => ((n : Int), rest) := by
  rw [readYear?, trimStartChars_of_visible (not_isBlank_of_isDigit digit)]
  split
  next same => cases same; cases digit
  next same => cases same; cases digit
  next => rfl

theorem readYear?_yearText (y : Int) (rest : List Char) :
    readYear? (yearText y ++ '-' :: rest) = some (y, '-' :: rest) := by
  unfold yearText
  split
  case isTrue plain =>
    rw [Bool.and_eq_true, decide_eq_true_eq, decide_eq_true_eq] at plain
    have fits : y.toNat < 10 ^ 4 := by omega
    have read := readNumber?_padded (by decide) fits ('-' :: rest)
    have digits := Decimal.padLeftZeros_digits 4 y.toNat
    have filled := Decimal.padLeftZeros_ne_nil 4 y.toNat
    generalize padLeftZeros 4 (digitChars y.toNat) = ds at read digits filled
    cases ds with
    | nil => exact absurd rfl filled
    | cons d ds =>
      rw [List.cons_append] at read ⊢
      simp only [readYear?_of_isDigit (digits d (by simp)), read, Option.map_some, Int.toNat_of_nonneg plain.1]
  case isFalse =>
    have span : Decimal.spanDigits (padLeftZeros 4 (digitChars y.natAbs) ++ '-' :: rest) = (_, '-' :: rest) :=
      Decimal.spanDigits_append (Decimal.padLeftZeros_digits 4 y.natAbs) (by decide)
    have filled := Decimal.padLeftZeros_ne_nil 4 y.natAbs
    have value := Decimal.natOfDigits_padLeftZeros 4 y.natAbs
    split
    case isTrue negative =>
      have magnitude : -(y.natAbs : Int) = y := by omega
      rw [List.cons_append, readYear?, trimStartChars_of_visible (by decide)]
      simp only [span, List.isEmpty_iff, filled, if_false, value, if_true, magnitude]
    case isFalse positive =>
      have magnitude : (y.natAbs : Int) = y := by omega
      rw [List.cons_append, readYear?, trimStartChars_of_visible (by decide)]
      simp only [span, List.isEmpty_iff, filled, if_false, value, magnitude, Bool.false_eq_true]

theorem readFraction?_padded {places n : Nat} (positive : 0 < places) (short : places ≤ 9) (fits : n < 10 ^ places) :
    readFraction? ('.' :: padLeftZeros places (digitChars n) ++ ['Z']) = some (n * 10 ^ (9 - places), ['Z']) := by
  have length := Decimal.padLeftZeros_length positive fits
  have digits := Decimal.padLeftZeros_digits places n
  have value := Decimal.natOfDigits_padLeftZeros places n
  have some := Decimal.padLeftZeros_ne_nil places n
  generalize padLeftZeros places (digitChars n) = ds at length digits value some
  have kept : ds.take 9 = ds := List.take_of_length_le (by omega)
  simp only [List.cons_append, readFraction?, Decimal.spanDigits_append digits (c := 'Z') (by decide), kept, List.isEmpty_iff,
    some, if_false, value, length]
  rfl

theorem readFraction?_fractionText {nanos : Nat} (small : nanos < billion) :
    readFraction? (fractionText nanos ++ ['Z']) = some (nanos, ['Z']) := by
  unfold billion at small
  unfold fractionText
  split
  case isTrue zero =>
    rw [zero]
    rfl
  split
  case isTrue thousandths =>
    have whole : nanos / 1000000 * 10 ^ (9 - 3) = nanos := by omega
    rw [readFraction?_padded (by decide) (by decide) (by omega), whole]
  split
  case isTrue millionths =>
    have whole : nanos / 1000 * 10 ^ (9 - 6) = nanos := by omega
    rw [readFraction?_padded (by decide) (by decide) (by omega), whole]
  case isFalse =>
    rw [readFraction?_padded (by decide) (by decide) (by omega), Nat.sub_self, Nat.pow_zero, Nat.mul_one]

theorem readOffset?_zulu : readOffset? (Text.trimStartChars ['Z']) = some (0, []) := by decide

theorem readNumber?_twoDigits {n : Nat} (small : n < 100) (rest : List Char) :
    readNumber? 2 (twoDigits n ++ rest) = some (n, rest) :=
  readNumber?_padded (by decide) small rest

theorem readDate?_dateText {d : CivilDay} (valid : d.isValid = true) (rest : List Char) :
    readDate? (dateText d ++ rest) = some (d, rest) := by
  have month : d.month < 100 := Nat.lt_of_le_of_lt (CivilDay.month_le_of_isValid valid) (by decide)
  have day : d.day < 100 := Nat.lt_of_le_of_lt (CivilDay.day_le_of_isValid valid) (by decide)
  have dash (rest : List Char) : readMark? '-' ('-' :: rest) = some rest := readMark?_self (by decide) rest
  simp only [readDate?, dateText, List.append_assoc, List.cons_append, Option.bind_eq_bind, Option.bind_some,
    readYear?_yearText, dash, readNumber?_twoDigits month, readNumber?_twoDigits day, Option.pure_def]

/-- The fields of a time of day are in their ranges; the sixtieth second is a leap second. -/
structure Clock.IsValid (c : Clock) : Prop where
  hour : c.hour < 24
  minute : c.minute < 60
  second : c.second ≤ 60

theorem readClock?_clockText {c : Clock} (valid : c.IsValid) (rest : List Char) :
    readClock? (minuteText c ++ ':' :: twoDigits c.second ++ rest) = some (c, rest) := by
  have hour : c.hour < 100 := Nat.lt_trans valid.hour (by decide)
  have minute : c.minute < 100 := Nat.lt_trans valid.minute (by decide)
  have second : c.second < 100 := Nat.lt_of_le_of_lt valid.second (by decide)
  have colon (rest : List Char) : readMark? ':' (':' :: rest) = some rest := readMark?_self (by decide) rest
  simp only [readClock?, minuteText, List.append_assoc, List.cons_append, Option.bind_eq_bind, Option.bind_some,
    readNumber?_twoDigits hour, colon, readNumber?_twoDigits minute, readNumber?_twoDigits second, Option.pure_def]

/-- A moment of the calendar, with its leap seconds at the ends of minutes. -/
structure IsMoment (t : Timestamp) : Prop where
  nanos : t.nanos < 2 * billion
  leap : billion ≤ t.nanos → t.seconds % 60 = 59
  year : CivilDay.yearInRange t.date.year = true

theorem clock_isValid (t : Timestamp) : t.clock.IsValid := by
  refine ⟨?_, ?_, ?_⟩ <;> simp only [clock]
  · omega
  · omega
  · split <;> omega

/-- The day and the time of day make up the moment. -/
theorem ofParts?_clock {t : Timestamp} (moment : t.IsMoment) :
    ofParts? t.date t.clock (t.nanos % billion) 0 = some t := by
  have small := moment.nanos
  have leap := moment.leap
  have nanos : (if t.clock.second = 60 then t.nanos % billion + billion else t.nanos % billion) = t.nanos := by
    by_cases ordinary : t.nanos < billion
    · have second : t.clock.second ≠ 60 := by
        simp only [clock, if_pos ordinary]
        omega
      rw [if_neg second, Nat.mod_eq_of_lt ordinary]
    · have second : t.clock.second = 60 := by
        have := leap (Nat.not_lt.mp ordinary)
        simp only [clock, if_neg ordinary]
        omega
      rw [if_pos second]
      unfold billion at *
      omega
  have second : min t.clock.second 59 = (t.seconds % 86400).toNat % 60 := by
    simp only [clock]
    split <;> omega
  have seconds : t.date.toDays * 86400 + t.clock.hour * 3600 + t.clock.minute * 60 + (min t.clock.second 59 : Nat) - 0
      = t.seconds := by
    rw [second, date, CivilDay.toDays_ofDays]
    simp only [clock]
    omega
  obtain ⟨hour, minute, sixty⟩ := t.clock_isValid
  have valid : t.date.isValid = true := CivilDay.isValid_ofDays moment.year
  have year : CivilDay.yearInRange (CivilDay.ofDays (t.seconds / 86400)).year = true := moment.year
  simp only [ofParts?, seconds, nanos, valid, hour, minute, sixty, year, decide_true, Bool.and_true, if_true]

theorem read?_text {t : Timestamp} (moment : t.IsMoment) : read? t.text = some t := by
  have valid : t.date.isValid = true := CivilDay.isValid_ofDays moment.year
  have date := readDate?_dateText valid
  have clock := readClock?_clockText t.clock_isValid
  have fraction := readFraction?_fractionText (Nat.mod_lt t.nanos (by decide : 0 < billion))
  have between (rest : List Char) : readBetween? ('T' :: rest) = some rest := rfl
  have parts : t.text.toList = dateText t.date
      ++ 'T' :: (minuteText t.clock ++ ':' :: twoDigits t.clock.second ++ (fractionText (t.nanos % billion) ++ ['Z'])) := by
    simp [text, body]
  simp only [read?, parts, date, between, clock, fraction, readOffset?_zulu, Option.bind_eq_bind, Option.bind_some]
  exact ofParts?_clock moment

theorem readFraction?_lt {cs rest : List Char} {nanos : Nat} (read : readFraction? cs = some (nanos, rest)) :
    nanos < billion := by
  unfold readFraction? at read
  split at read
  next more =>
    have digits : ∀ d ∈ (Decimal.spanDigits more).1.take 9, d.isDigit = true := fun d member =>
      Decimal.isDigit_of_mem_spanDigits (List.mem_of_mem_take member)
    have short : ((Decimal.spanDigits more).1.take 9).length ≤ 9 := List.length_take_le 9 _
    have value := Decimal.natOfDigits_lt digits
    simp only [Option.ite_none_left_eq_some, Option.some.injEq, Prod.mk.injEq] at read
    obtain ⟨_, rfl, _⟩ := read
    generalize (Decimal.spanDigits more).1.take 9 = kept at short value
    calc Decimal.natOfDigits kept * Nat.pow 10 (9 - kept.length)
      _ < 10 ^ kept.length * 10 ^ (9 - kept.length) := Nat.mul_lt_mul_of_pos_right value (Nat.pow_pos (by decide))
      _ = 10 ^ 9 := by rw [← Nat.pow_add, Nat.add_sub_cancel' short]
  next =>
    cases read
    decide

/-- Offsets are whole minutes. -/
theorem readOffset?_minutes {cs rest : List Char} {offset : Int} (read : readOffset? cs = some (offset, rest)) :
    offset % 60 = 0 := by
  unfold readOffset? at read
  split at read
  · cases read
    rfl
  split at read
  · cases read
  split at read
  · cases read
    rfl
  split at read
  swap
  · cases read
  split at read
  swap
  · cases read
  split at read
  swap
  · cases read
  simp only [Option.ite_none_right_eq_some, Option.some.injEq, Prod.mk.injEq] at read
  obtain ⟨_, _, rfl, _⟩ := read
  split <;> omega

theorem isMoment_of_ofParts? {date : CivilDay} {clock : Clock} {nanos : Nat} {offset : Int} {t : Timestamp}
    (small : nanos < billion) (minutes : offset % 60 = 0) (made : ofParts? date clock nanos offset = some t) :
    t.IsMoment := by
  simp only [ofParts?, Option.ite_none_right_eq_some, Option.some.injEq, Bool.and_eq_true] at made
  obtain ⟨⟨_, year⟩, rfl⟩ := made
  refine ⟨?_, fun leap => ?_, year⟩
  · simp only
    split <;> omega
  · simp only at leap ⊢
    split at leap <;> omega

/-- Every text that is read gives a moment of the calendar. -/
theorem isMoment_of_read? {s : String} {t : Timestamp} (read : read? s = some t) : t.IsMoment := by
  simp only [read?, Option.bind_eq_bind, Option.bind_eq_some_iff, Option.ite_none_right_eq_some] at read
  obtain ⟨date, _, between, _, clock, _, ⟨nanos, _⟩, fraction, ⟨offset, _⟩, shift, _, made⟩ := read
  exact isMoment_of_ofParts? (readFraction?_lt fraction) (readOffset?_minutes shift) made

end Timestamp

end ScriptTools
