import RelayBoard.CivilTime

/-!
# Days and dates are inverse

`days_from_civil` and `civil_from_days` of `rtc_pcf85063.c` against the
calendar, and the copy of the first which `sun.c` keeps.
-/

set_option autoImplicit false

namespace RelayBoard
open Lib Lib.Civil

/-- The copy of `sun.c`. -/
def Sun.daysFromCivil (y : ℤ) (m d : BitVec 32) : Option ℤ := do
  let y ← int64 (y - if m ≤ 2#32 then 1 else 0)
  let low ← (if 0 ≤ y then some y else int64 (y - 399))
  let era := low.tdiv 400
  let yoe := BitVec.ofInt 32 (← int64 (y - (← int64 (era * 400))))
  let doy := (153#32 * (m + if 2#32 < m then -3#32 else 9#32) + 2#32) / 5#32 + d - 1#32
  let doe := yoe * 365#32 + yoe / 4#32 - yoe / 100#32 + doy
  int64 ((← int64 ((← int64 (era * 146097)) + doe.toNat)) - 719468)

/-- The two agree on all values. -/
theorem sun_daysFromCivil : Sun.daysFromCivil = daysFromCivil := rfl

def civilOf (date : Date) : ℤ × BitVec 32 × BitVec 32 :=
  (date.year, BitVec.ofNat 32 date.month, BitVec.ofNat 32 date.day)

/-- Values that hold a date of the calendar. -/
def ValidCivil (y : ℤ) (m d : BitVec 32) : Prop :=
  1 ≤ m.toNat ∧ m.toNat ≤ 12 ∧ 1 ≤ d.toNat ∧ d.toNat ≤ monthLength y m.toNat

/-- Day `z` is `date`, and the conversions of the firmware take each to the other. -/
structure CivilDay (z : ℤ) (date : Date) : Prop where
  counted : date.dayNumber = z
  decoded : civilFromDays z = some (civilOf date)
  valid : ∀ y m d, civilFromDays z = some (y, m, d) → ValidCivil y m d
  encoded : (civilFromDays z >>= fun (y, m, d) => daysFromCivil y m d) = some z
  inverse : (daysFromCivil date.year (BitVec.ofNat 32 date.month) (BitVec.ofNat 32 date.day) >>=
    civilFromDays) = some (civilOf date)
  next : civilFromDays (z + 1) = some (civilOf date.next)
  /-- Only the sums wrap that shift the month. -/
  within : civilFromDaysChecked z = some (civilOf date) ∧
    daysFromCivilChecked date.year (BitVec.ofNat 32 date.month) (BitVec.ofNat 32 date.day) = some z
  sun : Sun.daysFromCivil date.year (BitVec.ofNat 32 date.month) (BitVec.ofNat 32 date.day) =
    some z

variable (date : Date)

theorem validCivil_date :
    ValidCivil date.year (BitVec.ofNat 32 date.month) (BitVec.ofNat 32 date.day) := by
  have hmonth : (BitVec.ofNat 32 date.month).toNat = date.month := by
    have hle := date.month_le
    rw [BitVec.toNat_ofNat, Nat.mod_eq_of_lt (by omega)]
  have hday : (BitVec.ofNat 32 date.day).toNat = date.day := by
    have hlt := date.day_lt
    rw [BitVec.toNat_ofNat, Nat.mod_eq_of_lt (by omega)]
  rw [ValidCivil, hmonth, hday]
  exact ⟨date.month_pos, date.month_le, date.day_pos, date.day_le⟩

/-- Every day but the last one whose sums fit 64 bits is converted both ways. -/
theorem civilDay (hlow : -9223372036854775808 ≤ date.dayNumber)
    (hhigh : date.dayNumber < 9223372036854056339) : CivilDay date.dayNumber date := by
  have hdecoded := civilFromDays_dayNumber date hlow hhigh.le
  have hencoded := daysFromCivil_date date hlow hhigh.le
  have hnext := date.dayNumber_next
  constructor
  · rfl
  · exact hdecoded
  · intro y m d h
    obtain ⟨rfl, rfl, rfl⟩ := Option.some.inj (hdecoded.symm.trans h)
    exact validCivil_date date
  · rw [hdecoded]
    exact hencoded
  · rw [hencoded]
    exact hdecoded
  · rw [← hnext]
    exact civilFromDays_dayNumber date.next (by omega) (by omega)
  · exact ⟨civilFromDaysChecked_dayNumber date hlow hhigh.le,
      daysFromCivilChecked_date date hlow hhigh.le⟩
  · rw [sun_daysFromCivil]
    exact hencoded

/-- The conversions are inverse, from days to dates and from dates to days. -/
theorem civil_inverse :
    (∀ z : ℤ, z.natAbs ≤ 2 ^ 53 → ∃ date : Date, CivilDay z date) ∧
      ∀ date : Date, date.dayNumber.natAbs ≤ 2 ^ 53 → CivilDay date.dayNumber date := by
  have hdate (date : Date) (h : date.dayNumber.natAbs ≤ 2 ^ 53) :
      CivilDay date.dayNumber date := civilDay date (by omega) (by omega)
  refine ⟨fun z hz => ?_, hdate⟩
  obtain ⟨date, rfl⟩ := exists_date z
  exact ⟨date, hdate date hz⟩

end RelayBoard
