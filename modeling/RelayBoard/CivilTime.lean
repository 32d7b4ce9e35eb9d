import RelayBoard.Lib.Checked
import RelayBoard.Lib.Civil
import RelayBoard.Text

/-!
# Dates in the firmware

`days_from_civil`, `civil_from_days` and `wday_of` of `rtc_pcf85063.c`. They
mix signed values of 64 bits with unsigned ones of 32: an unsigned result
wraps, a signed one that does not fit has no meaning and no value here. For a
date of the calendar only the sums wrap that shift the month.
-/

set_option autoImplicit false

namespace RelayBoard
open Lib Lib.Civil

def int64 (x : ℤ) : Option ℤ :=
  if -9223372036854775808 ≤ x ∧ x ≤ 9223372036854775807 then some x else none

def daysFromCivil (y : ℤ) (m d : BitVec 32) : Option ℤ := do
  let y ← int64 (y - if m ≤ 2#32 then 1 else 0)
  let low ← (if 0 ≤ y then some y else int64 (y - 399))
  let era := low.tdiv 400
  let yoe := BitVec.ofInt 32 (← int64 (y - (← int64 (era * 400))))
  let doy := (153#32 * (m + if 2#32 < m then -3#32 else 9#32) + 2#32) / 5#32 + d - 1#32
  let doe := yoe * 365#32 + yoe / 4#32 - yoe / 100#32 + doy
  int64 ((← int64 ((← int64 (era * 146097)) + doe.toNat)) - 719468)

def civilFromDays (z : ℤ) : Option (ℤ × BitVec 32 × BitVec 32) := do
  let z ← int64 (z + 719468)
  let low ← (if 0 ≤ z then some z else int64 (z - 146096))
  let era := low.tdiv 146097
  let doe := BitVec.ofInt 32 (← int64 (z - (← int64 (era * 146097))))
  let yoe := (doe - doe / 1460#32 + doe / 36524#32 - doe / 146096#32) / 365#32
  let yr ← int64 (yoe.toNat + (← int64 (era * 400)))
  let doy := doe - (365#32 * yoe + yoe / 4#32 - yoe / 100#32)
  let mp := (5#32 * doy + 2#32) / 153#32
  let d := doy - (153#32 * mp + 2#32) / 5#32 + 1#32
  let m := mp + if mp < 10#32 then 3#32 else -9#32
  let y ← int64 (yr + if m ≤ 2#32 then 1 else 0)
  some (y, m, d)

/-- `days_from_civil` where nothing unsigned may wrap but the shift of the month. -/
def daysFromCivilChecked (y : ℤ) (m d : BitVec 32) : Option ℤ := do
  let y ← int64 (y - if m ≤ 2#32 then 1 else 0)
  let low ← (if 0 ≤ y then some y else int64 (y - 399))
  let era := low.tdiv 400
  let yoe ← Checked.ofInt 32 (← int64 (y - (← int64 (era * 400))))
  let months ← Checked.mul 153#32 (m + if 2#32 < m then -3#32 else 9#32)
  let doy ← Checked.sub (← Checked.add ((← Checked.add months 2#32) / 5#32) d) 1#32
  let days ← Checked.add (← Checked.mul yoe 365#32) (yoe / 4#32)
  let doe ← Checked.add (← Checked.sub days (yoe / 100#32)) doy
  int64 ((← int64 ((← int64 (era * 146097)) + doe.toNat)) - 719468)

/-- `civil_from_days` in the same way. -/
def civilFromDaysChecked (z : ℤ) : Option (ℤ × BitVec 32 × BitVec 32) := do
  let z ← int64 (z + 719468)
  let low ← (if 0 ≤ z then some z else int64 (z - 146096))
  let era := low.tdiv 146097
  let doe ← Checked.ofInt 32 (← int64 (z - (← int64 (era * 146097))))
  let spread ← Checked.add (← Checked.sub doe (doe / 1460#32)) (doe / 36524#32)
  let yoe := (← Checked.sub spread (doe / 146096#32)) / 365#32
  let yr ← int64 (yoe.toNat + (← int64 (era * 400)))
  let days ← Checked.add (← Checked.mul 365#32 yoe) (yoe / 4#32)
  let doy ← Checked.sub doe (← Checked.sub days (yoe / 100#32))
  let mp := (← Checked.add (← Checked.mul 5#32 doy) 2#32) / 153#32
  let before := (← Checked.add (← Checked.mul 153#32 mp) 2#32) / 5#32
  let d ← Checked.add (← Checked.sub doy before) 1#32
  let m := mp + if mp < 10#32 then 3#32 else -9#32
  let y ← int64 (yr + if m ≤ 2#32 then 1 else 0)
  some (y, m, d)

def wdayOf (days : ℤ) : Option Byte := do
  let w := (← int64 (days + 4)).tmod 7
  let w := if w < 0 then w + 7 else w
  some (BitVec.ofInt 8 w)

theorem int64_some {x : ℤ} (hlow : -9223372036854775808 ≤ x) (hhigh : x ≤ 9223372036854775807) :
    int64 x = some x := if_pos ⟨hlow, hhigh⟩

theorem floor_some {z k : ℤ} (hlow : -9223372036854775808 ≤ z - k)
    (hhigh : z - k ≤ 9223372036854775807) :
    (if 0 ≤ z then some z else int64 (z - k)) = some (if 0 ≤ z then z else z - k) := by
  rw [int64_some hlow hhigh]
  split_ifs <;> rfl

theorem tdiv_floor {n : ℤ} (hn : 0 < n) (z : ℤ) :
    (if 0 ≤ z then z else z - (n - 1)).tdiv n = z / n := by
  split_ifs with hz
  · exact Int.tdiv_eq_ediv_of_nonneg hz
  · have hmod := Int.emod_lt_of_pos z hn
    have hmod' := Int.emod_nonneg z hn.ne'
    have hdiv := Int.mul_ediv_add_emod z n
    have hflip : z - (n - 1) = -((n - 1 - z % n) + n * -(z / n)) := by
      rw [mul_neg]
      omega
    rw [hflip, Int.neg_tdiv, Int.tdiv_eq_ediv_of_nonneg, Int.add_mul_ediv_left _ _ hn.ne',
      Int.ediv_eq_zero_of_lt] <;> omega

theorem daysFromCivil_sound (y : ℤ) (m d : BitVec 32) :
    Checked.Sound (daysFromCivilChecked y m d) (daysFromCivil y m d) := by
  unfold daysFromCivilChecked daysFromCivil
  refine .bind fun y => .bind fun low => .bind fun years => .bind fun rest => .ofInt ?_
  refine .mul (.add (.add (.sub ?_)))
  exact .mul (.add (.sub (.add (.refl _))))

theorem civilFromDays_sound (z : ℤ) :
    Checked.Sound (civilFromDaysChecked z) (civilFromDays z) := by
  unfold civilFromDaysChecked civilFromDays
  refine .bind fun z => .bind fun low => .bind fun eras => .bind fun rest => .ofInt ?_
  refine .sub (.add (.sub (.bind fun years => .bind fun yr => ?_)))
  refine .mul (.add (.sub (.sub ?_)))
  exact .mul (.add (.mul (.add (.sub (.add (.refl _))))))

theorem wdayOf_dayNumber (date : Date) (hlow : -9007199254740992 ≤ date.dayNumber)
    (hhigh : date.dayNumber ≤ 9007199254740992) :
    wdayOf date.dayNumber = some (BitVec.ofInt 8 date.weekday) := by
  have hfloor : (if (date.dayNumber + 4).tmod 7 < 0 then (date.dayNumber + 4).tmod 7 + 7
      else (date.dayNumber + 4).tmod 7) = date.weekday := by
    unfold Date.weekday
    rw [Int.tmod_eq_emod]
    split_ifs <;> omega
  rw [wdayOf, int64_some (by omega) (by omega)]
  simp only [Option.bind_eq_bind, Option.bind_some, hfloor]

variable (date : Date)

theorem unsigned_marchMonth :
    (BitVec.ofNat 32 date.month + if 2#32 < BitVec.ofNat 32 date.month then -3#32 else 9#32) =
      BitVec.ofNat 32 date.marchMonth := by
  have hpos := date.month_pos
  have hle := date.month_le
  unfold Date.marchMonth
  interval_cases date.month <;> rfl

theorem unsigned_month :
    (BitVec.ofNat 32 date.marchMonth + if BitVec.ofNat 32 date.marchMonth < 10#32 then 3#32
      else -9#32) = BitVec.ofNat 32 date.month := by
  have hpos := date.month_pos
  have hle := date.month_le
  unfold Date.marchMonth
  interval_cases date.month <;> rfl

theorem unsigned_year :
    (if BitVec.ofNat 32 date.month ≤ 2#32 then 1 else 0 : ℤ) = date.year - date.marchYear := by
  have hpos := date.month_pos
  have hle := date.month_le
  unfold Date.marchYear
  rw [sub_sub_cancel]
  interval_cases date.month <;> rfl

theorem daysFromCivilChecked_date (hlow : -9223372036854775808 ≤ date.dayNumber)
    (hhigh : date.dayNumber ≤ 9223372036854056339) :
    daysFromCivilChecked date.year (BitVec.ofNat 32 date.month) (BitVec.ofNat 32 date.day) =
      some date.dayNumber := by
  have hera := date.dayNumber_era
  have hyear := date.marchYear_era
  have hlt := date.yearOfEra_lt
  have hdoe := date.dayOfEra_lt
  have hmonth := date.marchMonth_lt
  have hpos := date.day_pos
  have hday := date.marchDay_lt
  have hmarch : (date.year - if BitVec.ofNat 32 date.month ≤ 2#32 then 1 else 0) =
      date.marchYear := by
    rw [unsigned_year, sub_sub_cancel]
  have hdiv : (if 0 ≤ date.marchYear then date.marchYear else date.marchYear - 399).tdiv 400 =
      date.marchYear / 400 := tdiv_floor (n := 400) (by decide) date.marchYear
  have hyoe : date.marchYear - date.marchYear / 400 * 400 = date.yearOfEra := by omega
  have hdoy : (153 * date.marchMonth + 2) / 5 + date.day - 1 = date.marchDay := rfl
  have hall : date.yearOfEra * 365 + date.yearOfEra / 4 - date.yearOfEra / 100 + date.marchDay =
      date.dayOfEra := by
    rw [mul_comm]
    rfl
  have hnat : (BitVec.ofNat 32 date.dayOfEra).toNat = date.dayOfEra := by
    rw [BitVec.toNat_ofNat, Nat.mod_eq_of_lt (by omega)]
  unfold daysFromCivilChecked
  dsimp only [Option.bind_eq_bind]
  rw [hmarch, int64_some (by omega) (by omega), Option.bind_some,
    floor_some (by omega) (by omega), Option.bind_some, hdiv]
  rw [int64_some (by omega) (by omega), Option.bind_some, int64_some (by omega) (by omega),
    Option.bind_some, hyoe, Checked.ofInt_natCast (by omega), Option.bind_some]
  rw [unsigned_marchMonth, Checked.mul_ofNat (by omega), Option.bind_some,
    Checked.add_ofNat (by omega), Option.bind_some, Checked.div_ofNat (by omega) (by decide),
    Checked.add_ofNat (by omega), Option.bind_some, Checked.sub_ofNat (by omega) (by omega),
    Option.bind_some, hdoy]
  rw [Checked.mul_ofNat (by omega), Option.bind_some, Checked.div_ofNat (by omega) (by decide),
    Checked.add_ofNat (by omega), Option.bind_some, Checked.div_ofNat (by omega) (by decide),
    Checked.sub_ofNat (by omega) (by omega), Option.bind_some, Checked.add_ofNat (by omega),
    Option.bind_some, hall, hnat]
  rw [int64_some (by omega) (by omega), Option.bind_some, int64_some (by omega) (by omega),
    Option.bind_some, int64_some (by omega) (by omega)]
  congr 1
  omega

theorem civilFromDaysChecked_dayNumber (hlow : -9223372036854775808 ≤ date.dayNumber)
    (hhigh : date.dayNumber ≤ 9223372036854056339) :
    civilFromDaysChecked date.dayNumber =
      some (date.year, BitVec.ofNat 32 date.month, BitVec.ofNat 32 date.day) := by
  have hera := date.dayNumber_era
  have hyear := date.marchYear_era
  have hlt := date.yearOfEra_lt
  have hdoe := date.dayOfEra_lt
  have hday := date.marchDay_lt
  have hmonth := date.marchMonth_lt
  have hdiv : (if 0 ≤ date.dayNumber + 719468 then date.dayNumber + 719468
      else date.dayNumber + 719468 - 146096).tdiv 146097 = date.marchYear / 400 :=
    (tdiv_floor (n := 146097) (by decide) (date.dayNumber + 719468)).trans (by omega)
  have hrest : date.dayNumber + 719468 - date.marchYear / 400 * 146097 = date.dayOfEra := by
    omega
  have hnat : (BitVec.ofNat 32 date.yearOfEra).toNat = date.yearOfEra := by
    rw [BitVec.toNat_ofNat, Nat.mod_eq_of_lt (by omega)]
  have hall : date.dayOfEra = 365 * date.yearOfEra + date.yearOfEra / 4 -
      date.yearOfEra / 100 + date.marchDay := rfl
  have hfirst : marchDays date.marchMonth = (153 * date.marchMonth + 2) / 5 := rfl
  have hbefore := date.marchDays_month
  have hcivil : ((date.yearOfEra : ℤ) + date.marchYear / 400 * 400 +
      if BitVec.ofNat 32 date.month ≤ 2#32 then 1 else 0) = date.year := by
    rw [unsigned_year]
    omega
  unfold civilFromDaysChecked
  dsimp only [Option.bind_eq_bind]
  rw [int64_some (by omega) (by omega), Option.bind_some, floor_some (by omega) (by omega),
    Option.bind_some, hdiv]
  rw [int64_some (by omega) (by omega), Option.bind_some, int64_some (by omega) (by omega),
    Option.bind_some, hrest, Checked.ofInt_natCast (by omega), Option.bind_some]
  -- the year of the era
  rw [Checked.div_ofNat (by omega) (by decide), Checked.sub_ofNat (by omega) (by omega),
    Option.bind_some, Checked.div_ofNat (by omega) (by decide), Checked.add_ofNat (by omega),
    Option.bind_some, Checked.div_ofNat (by omega) (by decide),
    Checked.sub_ofNat (by omega) (by omega), Option.bind_some,
    Checked.div_ofNat (by omega) (by decide), date.year_of_dayOfEra, hnat]
  rw [int64_some (by omega) (by omega), Option.bind_some, int64_some (by omega) (by omega),
    Option.bind_some]
  -- the days since March
  rw [Checked.mul_ofNat (by omega), Option.bind_some, Checked.div_ofNat (by omega) (by decide),
    Checked.add_ofNat (by omega), Option.bind_some, Checked.div_ofNat (by omega) (by decide),
    Checked.sub_ofNat (by omega) (by omega), Option.bind_some,
    Checked.sub_ofNat (by omega) (by omega), Option.bind_some, date.marchDay_of_dayOfEra]
  -- month and day
  rw [Checked.mul_ofNat (by omega), Option.bind_some, Checked.add_ofNat (by omega),
    Option.bind_some, Checked.div_ofNat (by omega) (by decide), date.month_of_marchDay]
  rw [Checked.mul_ofNat (by omega), Option.bind_some, Checked.add_ofNat (by omega),
    Option.bind_some, Checked.div_ofNat (by omega) (by decide), ← hfirst,
    Checked.sub_ofNat (by omega) (by omega), Option.bind_some, Checked.add_ofNat (by omega),
    Option.bind_some]
  rw [unsigned_month, hcivil, int64_some (by omega) (by omega), Option.bind_some,
    date.day_of_marchDay]

theorem daysFromCivil_date (hlow : -9223372036854775808 ≤ date.dayNumber)
    (hhigh : date.dayNumber ≤ 9223372036854056339) :
    daysFromCivil date.year (BitVec.ofNat 32 date.month) (BitVec.ofNat 32 date.day) =
      some date.dayNumber :=
  daysFromCivil_sound _ _ _ _ (daysFromCivilChecked_date date hlow hhigh)

theorem civilFromDays_dayNumber (hlow : -9223372036854775808 ≤ date.dayNumber)
    (hhigh : date.dayNumber ≤ 9223372036854056339) :
    civilFromDays date.dayNumber =
      some (date.year, BitVec.ofNat 32 date.month, BitVec.ofNat 32 date.day) :=
  civilFromDays_sound _ _ (civilFromDaysChecked_dayNumber date hlow hhigh)

example : civilFromDays 19782 = some (2024, 2#32, 29#32) := by decide

end RelayBoard
