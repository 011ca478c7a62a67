import Mathlib.Tactic.SplitIfs
import ScriptTools.Timestamp

/-!
Days are numbered without gaps: a number leads to a day of the calendar, and that day to the number.
-/

namespace ScriptTools.CivilDay

/-- A day of an era of 400 years that begin in March, by the centuries, the cycles of four years, the years
and the days that are over. -/
structure EraDay where
  century : Int
  cycle : Int
  year : Int
  day : Int
  century_bounds : 0 ≤ century ∧ century ≤ 3
  cycle_bounds : 0 ≤ cycle ∧ cycle ≤ 24
  year_bounds : 0 ≤ year ∧ year ≤ 3
  day_bounds : 0 ≤ day ∧ day ≤ 365
  leap : day = 365 → year = 3 ∧ (cycle = 24 → century = 3)

namespace EraDay

variable (e : EraDay)

def number : Int := 36524 * e.century + 1461 * e.cycle + 365 * e.year + e.day

def yearOfEra : Int := 100 * e.century + 4 * e.cycle + e.year

/-- The quotients that `ofDays` takes find the year. -/
theorem yearOfEra_eq :
    (e.number - e.number / 1460 + e.number / 36524 - e.number / 146096) / 365 = e.yearOfEra := by
  obtain ⟨c, q, y, d, centuries, cycles, years, days, leap⟩ := e
  simp only [number, yearOfEra]
  generalize total : 36524 * c + 1461 * q + 365 * y + d = n
  by_cases last : n = 146096
  · omega
  have century : n / 36524 = c := by omega
  have none : n / 146096 = 0 := by omega
  have some : n / 1460 = 25 * c + q + (if 24 * c + q + 365 * y + d < 1460 then 0 else 1) := by
    split <;> omega
  rw [century, none, some]
  split <;> omega

/-- The days before the year of an era. -/
theorem daysBefore_yearOfEra :
    365 * e.yearOfEra + e.yearOfEra / 4 - e.yearOfEra / 100 = e.number - e.day := by
  obtain ⟨c, q, y, d, centuries, cycles, years, days, leap⟩ := e
  simp only [number, yearOfEra]
  omega

theorem yearOfEra_bounds : 0 ≤ e.yearOfEra ∧ e.yearOfEra < 400 := by
  obtain ⟨c, q, y, d, centuries, cycles, years, days, leap⟩ := e
  simp only [yearOfEra]
  omega

/-- Only a year whose February has 29 days has a day 365. -/
theorem isLeapYear_of_day (era : Int) (full : e.day = 365) : isLeapYear (era * 400 + e.yearOfEra + 1) = true := by
  obtain ⟨c, q, y, d, centuries, cycles, years, days, leap⟩ := e
  simp only [isLeapYear, yearOfEra, Bool.and_eq_true, Bool.or_eq_true, beq_iff_eq, bne_iff_ne]
  have := leap full
  omega

end EraDay

theorem exists_eraDay {d : Int} (low : 0 ≤ d) (high : d < 146097) : ∃ e : EraDay, e.number = d := by
  by_cases last : d = 146096
  · exact ⟨⟨3, 24, 3, 365, by omega, by omega, by omega, by omega, by omega⟩, last.symm⟩
  exact ⟨⟨d / 36524, d % 36524 / 1461, min (d % 36524 % 1461 / 365) 3,
    d % 36524 % 1461 - 365 * min (d % 36524 % 1461 / 365) 3, by omega, by omega, by omega, by omega, by omega⟩,
    by simp only [EraDay.number]; omega⟩

/-- The day of a year that begins in March. -/
def ofMarch (year dayOfYear : Int) : CivilDay :=
  let monthFromMarch := (5 * dayOfYear + 2) / 153
  let month := if monthFromMarch < 10 then monthFromMarch + 3 else monthFromMarch - 9
  ⟨if month ≤ 2 then year + 1 else year, month.toNat, (dayOfYear - (153 * monthFromMarch + 2) / 5 + 1).toNat⟩

theorem ofDays_eq (days : Int) :
    ∃ (era : Int) (e : EraDay), days + 719468 = era * 146097 + e.number ∧
      ofDays days = ofMarch (e.yearOfEra + era * 400) e.day := by
  obtain ⟨e, place⟩ := exists_eraDay (d := days + 719468 - (days + 719468) / 146097 * 146097) (by omega) (by omega)
  refine ⟨(days + 719468) / 146097, e, by omega, ?_⟩
  have day : e.number - (365 * e.yearOfEra + e.yearOfEra / 4 - e.yearOfEra / 100) = e.day := by
    rw [e.daysBefore_yearOfEra]
    omega
  simp only [ofDays, ← place, e.yearOfEra_eq, day]
  rfl

theorem toDays_ofMarch {era y d : Int} (year : 0 ≤ y ∧ y < 400) (day : 0 ≤ d ∧ d ≤ 365) :
    (ofMarch (y + era * 400) d).toDays = era * 146097 + (365 * y + y / 4 - y / 100) + d - 719468 := by
  have century : (y + era * 400) / 400 = era := by omega
  by_cases spring : (5 * d + 2) / 153 < 10
  · have month : ¬(((5 * d + 2) / 153 + 3).toNat ≤ 2) := by omega
    have month' : ¬((5 * d + 2) / 153 + 3 ≤ 2) := by omega
    have late : 2 < ((5 * d + 2) / 153 + 3).toNat := by omega
    simp only [toDays, ofMarch, if_pos spring, if_neg month, if_neg month', if_pos late, century]
    omega
  · have month : ((5 * d + 2) / 153 - 9).toNat ≤ 2 := by omega
    have month' : (5 * d + 2) / 153 - 9 ≤ 2 := by omega
    have late : ¬(2 < ((5 * d + 2) / 153 - 9).toNat) := by omega
    simp only [toDays, ofMarch, if_neg spring, if_pos month, if_pos month', if_neg late, Int.add_sub_cancel, century]
    omega

theorem toDays_ofDays (days : Int) : (ofDays days).toDays = days := by
  obtain ⟨era, e, place, day⟩ := ofDays_eq days
  rw [day, toDays_ofMarch e.yearOfEra_bounds e.day_bounds, e.daysBefore_yearOfEra]
  omega

/-- The months from March to January have as many days as the rule that `toDays` and `ofDays` count by. -/
theorem daysInMonth_eq (y : Int) {m : Int} (low : 0 ≤ m) (high : m < 11) :
    (daysInMonth y (if m < 10 then m + 3 else m - 9).toNat : Int) = (153 * (m + 1) + 2) / 5 - (153 * m + 2) / 5 := by
  have months : m = 0 ∨ m = 1 ∨ m = 2 ∨ m = 3 ∨ m = 4 ∨ m = 5 ∨ m = 6 ∨ m = 7 ∨ m = 8 ∨ m = 9 ∨ m = 10 := by omega
  rcases months with rfl | rfl | rfl | rfl | rfl | rfl | rfl | rfl | rfl | rfl | rfl <;> rfl

theorem isValid_ofMarch {y d : Int} (day : 0 ≤ d ∧ d ≤ 365) (leap : d = 365 → isLeapYear (y + 1) = true)
    (year : yearInRange (ofMarch y d).year = true) : (ofMarch y d).isValid = true := by
  simp only [isValid, year, Bool.true_and, Bool.and_eq_true, decide_eq_true_eq]
  have month : (ofMarch y d).month
      = (if (5 * d + 2) / 153 < 10 then (5 * d + 2) / 153 + 3 else (5 * d + 2) / 153 - 9).toNat := rfl
  have dayOf : (ofMarch y d).day = (d - (153 * ((5 * d + 2) / 153) + 2) / 5 + 1).toNat := rfl
  have months : 1 ≤ (ofMarch y d).month ∧ (ofMarch y d).month ≤ 12 := by
    split at month <;> omega
  refine ⟨⟨months, by omega⟩, ?_⟩
  by_cases february : (5 * d + 2) / 153 = 11
  · have second : (ofMarch y d).month = 2 := by
      rw [month, february]
      rfl
    have before : (ofMarch y d).year = y + 1 := by
      simp only [ofMarch, february]
      rfl
    rw [second, before, daysInMonth, if_pos rfl]
    split
    · omega
    · have : d ≠ 365 := fun full => absurd (leap full) ‹_›
      omega
  · have length := daysInMonth_eq (ofMarch y d).year (m := (5 * d + 2) / 153) (by omega) (by omega)
    rw [← month] at length
    omega

/-- A year in range makes a day of the calendar. -/
theorem isValid_ofDays {days : Int} (year : yearInRange (ofDays days).year = true) : (ofDays days).isValid = true := by
  obtain ⟨era, e, _, day⟩ := ofDays_eq days
  rw [day] at year ⊢
  refine isValid_ofMarch e.day_bounds (fun full => ?_) year
  rw [Int.add_comm e.yearOfEra]
  exact e.isLeapYear_of_day era full

theorem month_le_of_isValid {d : CivilDay} (valid : d.isValid = true) : d.month ≤ 12 := by
  simp only [isValid, Bool.and_eq_true, decide_eq_true_eq] at valid
  exact valid.1.1.2

theorem day_le_of_isValid {d : CivilDay} (valid : d.isValid = true) : d.day ≤ 31 := by
  simp only [isValid, Bool.and_eq_true, decide_eq_true_eq] at valid
  refine Nat.le_trans valid.2 ?_
  unfold daysInMonth
  split_ifs <;> decide

end ScriptTools.CivilDay
