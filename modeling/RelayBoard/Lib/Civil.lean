import Mathlib.Data.Int.Basic
import Mathlib.Tactic.IntervalCases

/-!
# The civil calendar

Dates of the proleptic Gregorian calendar and the day count which the calendar
itself gives: the epoch is day zero and the next date is one day on. The count
of a calendar whose years begin in March is the same count, and there the leap
day comes last, so year and month of a day are found by division.
-/

set_option autoImplicit false

namespace Lib.Civil

def leap (y : ℤ) : Bool :=
  decide (y % 4 = 0) && (!decide (y % 100 = 0) || decide (y % 400 = 0))

def monthLength (y : ℤ) (m : ℕ) : ℕ :=
  if m = 2 then if leap y then 29 else 28
  else if m = 4 ∨ m = 6 ∨ m = 9 ∨ m = 11 then 30
  else 31

structure Date where
  year : ℤ
  month : ℕ
  day : ℕ
  month_pos : 1 ≤ month
  month_le : month ≤ 12
  day_pos : 1 ≤ day
  day_le : day ≤ monthLength year month
  deriving DecidableEq

theorem monthLength_february (y : ℤ) : monthLength y 2 = 28 + if leap y then 1 else 0 := by
  cases hleap : leap y <;> simp [monthLength, hleap]

theorem monthLength_pos (y : ℤ) (m : ℕ) : 1 ≤ monthLength y m := by
  unfold monthLength
  split_ifs <;> omega

theorem Date.day_lt (d : Date) : d.day < 32 := by
  have h := d.day_le
  unfold monthLength at h
  split_ifs at h <;> omega

def Date.epoch : Date := ⟨1970, 1, 1, by decide, by decide, by decide, by decide⟩

def Date.next (d : Date) : Date :=
  if hday : d.day < monthLength d.year d.month then
    ⟨d.year, d.month, d.day + 1, d.month_pos, d.month_le, Nat.succ_pos d.day, hday⟩
  else if hmonth : d.month < 12 then
    ⟨d.year, d.month + 1, 1, Nat.succ_pos d.month, hmonth, le_rfl, monthLength_pos _ _⟩
  else ⟨d.year + 1, 1, 1, le_rfl, by decide, le_rfl, monthLength_pos _ _⟩

def yearDays (y : ℤ) : ℤ := 365 * y + y / 4 - y / 100 + y / 400

def monthDays (y : ℤ) : ℕ → ℕ
  | 0 => 0
  | n + 1 => monthDays y n + monthLength y (n + 1)

def Date.dayNumber (d : Date) : ℤ :=
  yearDays (d.year - 1) + monthDays d.year (d.month - 1) + (d.day - 1) - 719162

def Date.weekday (d : Date) : ℤ := (d.dayNumber + 4) % 7

theorem leap_iff (y : ℤ) : leap y = true ↔ y % 4 = 0 ∧ (y % 100 = 0 → y % 400 = 0) := by
  simp only [leap, Bool.and_eq_true, Bool.or_eq_true, Bool.not_eq_true', decide_eq_true_iff,
    decide_eq_false_iff_not, ← imp_iff_not_or]

theorem yearDays_succ (y : ℤ) :
    yearDays (y + 1) = yearDays y + 365 + if leap (y + 1) then 1 else 0 := by
  have h4 : (y + 1) / 4 = y / 4 + if (y + 1) % 4 = 0 then 1 else 0 := by
    split_ifs <;> omega
  have h100 : (y + 1) / 100 = y / 100 + if (y + 1) % 100 = 0 then 1 else 0 := by
    split_ifs <;> omega
  have h400 : (y + 1) / 400 = y / 400 + if (y + 1) % 400 = 0 then 1 else 0 := by
    split_ifs <;> omega
  have hfour : (y + 1) % 100 = 0 → (y + 1) % 4 = 0 := by omega
  have hcentury : (y + 1) % 400 = 0 → (y + 1) % 100 = 0 := by omega
  rw [yearDays, yearDays, h4, h100, h400]
  simp only [leap_iff]
  split_ifs <;> grind

theorem yearDays_mono {y z : ℤ} (h : y ≤ z) : yearDays y ≤ yearDays z := by
  refine monotone_int_of_le_succ (fun y => ?_) h
  rw [yearDays_succ]
  split_ifs <;> omega

theorem monthDays_mono (y : ℤ) : Monotone (monthDays y) :=
  monotone_nat_of_le_succ fun n => Nat.le_add_right (monthDays y n) _

theorem monthDays_year (y : ℤ) : monthDays y 12 = 365 + if leap y then 1 else 0 := by
  cases hleap : leap y <;> simp [monthDays, monthLength, hleap]

theorem Date.dayNumber_next (d : Date) : d.next.dayNumber = d.dayNumber + 1 := by
  obtain ⟨y, m, day, hm, hm12, hd, hday⟩ := d
  unfold next dayNumber
  split_ifs with hlt hmonth
  · dsimp only
    omega
  · obtain ⟨n, rfl⟩ := Nat.exists_eq_add_of_le' hm
    have hsplit : monthDays y (n + 1) = monthDays y n + monthLength y (n + 1) := rfl
    simp only [Nat.add_sub_cancel] at hlt ⊢
    omega
  · obtain rfl : m = 12 := by
      simp only at hmonth
      omega
    have hyear := yearDays_succ (y - 1)
    rw [sub_add_cancel] at hyear
    have hmonths := monthDays_year y
    have hsplit : monthDays y 12 = monthDays y (12 - 1) + monthLength y 12 := rfl
    have hzero : monthDays (y + 1) (1 - 1) = 0 := rfl
    simp only [add_sub_cancel_right] at hlt ⊢
    cases hleap : leap y <;> simp only [hleap] at hyear hmonths <;> grind

theorem Date.dayNumber_epoch : Date.epoch.dayNumber = 0 := by decide

theorem Date.weekday_lt (d : Date) : 0 ≤ d.weekday ∧ d.weekday < 7 := by
  unfold weekday
  omega

theorem leap_shift (y k : ℤ) : leap (y + 400 * k) = leap y := by
  have h4 : (y + 400 * k) % 4 = y % 4 := by omega
  have h100 : (y + 400 * k) % 100 = y % 100 := by omega
  have h400 : (y + 400 * k) % 400 = y % 400 := by omega
  rw [leap, leap, h4, h100, h400]

theorem monthLength_shift (y k : ℤ) (m : ℕ) :
    monthLength (y + 400 * k) m = monthLength y m := by
  rw [monthLength, monthLength, leap_shift]

theorem monthDays_shift (y k : ℤ) (n : ℕ) : monthDays (y + 400 * k) n = monthDays y n := by
  induction n with
  | zero => rfl
  | succ n ih => rw [monthDays, monthDays, ih, monthLength_shift]

theorem yearDays_shift (y k : ℤ) : yearDays (y + 400 * k) = yearDays y + 146097 * k := by
  unfold yearDays
  omega

def Date.shift (d : Date) (k : ℤ) : Date :=
  ⟨d.year + 400 * k, d.month, d.day, d.month_pos, d.month_le, d.day_pos,
    (monthLength_shift d.year k d.month).symm ▸ d.day_le⟩

theorem Date.dayNumber_shift (d : Date) (k : ℤ) :
    (d.shift k).dayNumber = d.dayNumber + 146097 * k := by
  have hyear : d.year + 400 * k - 1 = (d.year - 1) + 400 * k := by omega
  unfold dayNumber shift
  simp only [hyear, monthDays_shift, yearDays_shift]
  omega

theorem exists_date (z : ℤ) : ∃ d : Date, d.dayNumber = z := by
  have hfrom : ∀ n : ℕ, ∃ d : Date, d.dayNumber = n := by
    intro n
    induction n with
    | zero => exact ⟨Date.epoch, Date.dayNumber_epoch⟩
    | succ n ih =>
      obtain ⟨d, hd⟩ := ih
      exact ⟨d.next, by rw [Date.dayNumber_next, hd, Nat.cast_succ]⟩
  obtain ⟨d, hd⟩ := hfrom (z + 146097 * z.natAbs).toNat
  refine ⟨d.shift (-z.natAbs), ?_⟩
  rw [Date.dayNumber_shift, hd]
  omega

def Date.marchYear (d : Date) : ℤ := d.year - if d.month ≤ 2 then 1 else 0

def Date.marchMonth (d : Date) : ℕ := if d.month ≤ 2 then d.month + 9 else d.month - 3

def marchDays (n : ℕ) : ℕ := (153 * n + 2) / 5

def Date.marchDay (d : Date) : ℕ := marchDays d.marchMonth + d.day - 1

def Date.yearOfEra (d : Date) : ℕ := (d.marchYear % 400).toNat

def Date.dayOfEra (d : Date) : ℕ :=
  365 * d.yearOfEra + d.yearOfEra / 4 - d.yearOfEra / 100 + d.marchDay

variable (d : Date)

theorem Date.marchMonth_lt : d.marchMonth < 12 := by
  have hpos := d.month_pos
  have hle := d.month_le
  unfold marchMonth
  split_ifs <;> omega

theorem monthLength_march (y : ℤ) {n : ℕ} (h : n < 10) :
    marchDays n + monthLength y (n + 3) = marchDays (n + 1) := by
  interval_cases n <;> rfl

theorem monthDays_march (y : ℤ) {n : ℕ} (h : n ≤ 10) :
    monthDays y (n + 2) = monthDays y 2 + marchDays n := by
  induction n with
  | zero => rfl
  | succ n ih =>
    calc monthDays y (n + 3) = monthDays y (n + 2) + monthLength y (n + 3) := rfl
      _ = monthDays y 2 + (marchDays n + monthLength y (n + 3)) := by
        rw [ih (by omega), add_assoc]
      _ = monthDays y 2 + marchDays (n + 1) := by rw [monthLength_march y (by omega)]

theorem monthDays_february (y : ℤ) : monthDays y 2 = 59 + if leap y then 1 else 0 := by
  calc monthDays y 2 = 31 + monthLength y 2 := rfl
    _ = 59 + if leap y then 1 else 0 := by rw [monthLength_february, ← add_assoc]

/-- Both calendars count the same days. -/
theorem Date.dayNumber_march : d.dayNumber = yearDays d.marchYear + d.marchDay - 719468 := by
  obtain ⟨y, m, day, hm, hm12, hd, hday⟩ := d
  unfold dayNumber marchDay marchYear marchMonth
  dsimp only
  by_cases hmonth : m ≤ 2
  · have hdays : monthDays y (m - 1) + 306 = marchDays (m + 9) := by
      interval_cases m <;> rfl
    rw [if_pos hmonth, if_pos hmonth]
    omega
  · obtain ⟨n, rfl⟩ := Nat.exists_eq_add_of_le' (show 3 ≤ m by omega)
    have hyear := yearDays_succ (y - 1)
    rw [sub_add_cancel] at hyear
    have hdays := monthDays_march y (show n ≤ 10 by omega)
    have hfebruary := monthDays_february y
    rw [if_neg hmonth, if_neg hmonth, sub_zero, show n + 3 - 1 = n + 2 from rfl, hdays, hyear,
      Nat.add_sub_cancel]
    split_ifs at hfebruary ⊢ <;> omega

theorem Date.dayNumber_year : yearDays (d.year - 1) ≤ d.dayNumber + 719162 ∧
    d.dayNumber + 719162 < yearDays d.year := by
  obtain ⟨y, m, day, hm, hm12, hd, hday⟩ := d
  have hyear := yearDays_succ (y - 1)
  rw [sub_add_cancel] at hyear
  have hmonths := monthDays_year y
  obtain ⟨n, rfl⟩ := Nat.exists_eq_add_of_le' hm
  have hsplit : monthDays y (n + 1) = monthDays y n + monthLength y (n + 1) := rfl
  have hle := monthDays_mono y hm12
  unfold dayNumber
  dsimp only
  rw [hyear, Nat.add_sub_cancel]
  split_ifs at hmonths ⊢ <;> omega

theorem Date.marchDays_le : marchDays d.marchMonth + d.day ≤ marchDays (d.marchMonth + 1) := by
  obtain ⟨y, m, day, hm, hm12, hd, hday⟩ := d
  unfold marchMonth
  dsimp only
  by_cases hmonth : m ≤ 2
  · have hdays : marchDays (m + 9) + monthLength y m ≤ marchDays (m + 9 + 1) := by
      interval_cases m
      · exact le_of_eq rfl
      · rw [monthLength_february]
        split_ifs <;> decide
    rw [if_pos hmonth]
    omega
  · obtain ⟨n, rfl⟩ := Nat.exists_eq_add_of_le' (show 3 ≤ m by omega)
    have hdays := monthLength_march y (show n < 10 by omega)
    rw [if_neg hmonth, Nat.add_sub_cancel]
    omega

theorem Date.month_of_marchDay : (5 * d.marchDay + 2) / 153 = d.marchMonth := by
  have hlt := d.marchMonth_lt
  have hle := d.marchDays_le
  have hpos := d.day_pos
  unfold marchDay marchDays at *
  interval_cases d.marchMonth <;> omega

theorem Date.day_of_marchDay : d.marchDay - marchDays d.marchMonth + 1 = d.day := by
  have hpos := d.day_pos
  unfold marchDay
  omega

theorem Date.marchDays_month : marchDays d.marchMonth ≤ d.marchDay := by
  have hpos := d.day_pos
  unfold marchDay
  omega

theorem Date.marchDay_le : d.marchDay ≤ 364 + if leap (d.marchYear + 1) then 1 else 0 := by
  obtain ⟨y, m, day, hm, hm12, hd, hday⟩ := d
  unfold marchDay marchYear marchMonth
  dsimp only
  by_cases hmonth : m ≤ 2
  · have hfebruary := monthLength_february y
    rw [if_pos hmonth, if_pos hmonth, sub_add_cancel]
    interval_cases m
    · have hjanuary : monthLength y 1 = 31 := rfl
      have hdays : marchDays (1 + 9) = 306 := rfl
      omega
    · have hdays : marchDays (2 + 9) = 337 := rfl
      omega
  · obtain ⟨n, rfl⟩ := Nat.exists_eq_add_of_le' (show 3 ≤ m by omega)
    have hlength := monthLength_march y (show n < 10 by omega)
    have hdays : marchDays (n + 1) ≤ 306 := by
      unfold marchDays
      omega
    rw [if_neg hmonth, Nat.add_sub_cancel]
    omega

theorem Date.marchDay_lt : d.marchDay < 366 := by
  have hle := d.marchDay_le
  split_ifs at hle <;> omega

theorem Date.yearOfEra_lt : d.yearOfEra < 400 := by
  unfold yearOfEra
  omega

theorem Date.marchYear_era : d.marchYear = 400 * (d.marchYear / 400) + d.yearOfEra := by
  unfold yearOfEra
  omega

/-- A day with 366 in its year ends four years, and a century only with its era. -/
theorem Date.leap_yearOfEra (h : d.marchDay = 365) :
    (d.yearOfEra + 1) % 4 = 0 ∧ ((d.yearOfEra + 1) % 100 = 0 → d.yearOfEra = 399) := by
  have hle := d.marchDay_le
  have hleap : leap (d.marchYear + 1) = true := by
    by_contra hn
    rw [if_neg hn] at hle
    omega
  obtain ⟨h4, h100⟩ := (leap_iff _).mp hleap
  have hera := d.marchYear_era
  have hlt := d.yearOfEra_lt
  constructor
  · omega
  · intro hc
    have := h100 (by omega)
    omega

theorem Date.dayNumber_era :
    d.dayNumber + 719468 = 146097 * (d.marchYear / 400) + d.dayOfEra := by
  have hera := d.marchYear_era
  have hyears := yearDays_shift d.yearOfEra (d.marchYear / 400)
  rw [add_comm, ← hera] at hyears
  have hlt := d.yearOfEra_lt
  rw [d.dayNumber_march, hyears]
  unfold yearDays dayOfEra
  omega

theorem Date.dayOfEra_lt : d.dayOfEra < 146097 := by
  have hday := d.marchDay_lt
  have hlt := d.yearOfEra_lt
  have hlast := d.leap_yearOfEra
  unfold dayOfEra
  omega

theorem year_of_days {c q r doy doe : ℕ} (hc : c < 4) (hq : q < 25) (hr : r < 4)
    (hdoy : doy ≤ 365) (hlast : doy = 365 → r = 3 ∧ (q = 24 → c = 3))
    (hdoe : doe = 36524 * c + 1461 * q + 365 * r + doy) :
    (doe - doe / 1460 + doe / 36524 - doe / 146096) / 365 = 100 * c + 4 * q + r := by
  have hsmall : (doy - if 1460 ≤ 24 * c + q + 365 * r + doy then 1 else 0) < 365 := by
    clear hdoe
    split_ifs <;> omega
  have hend : 1461 * q + 365 * r + doy < 36524 ∨ (doe = 146096 ∧ c = 3) := by omega
  have hcentury : doe / 36524 = c + doe / 146096 := by
    rcases hend with h | h
    · have hlt : doe < 146096 := by omega
      rw [Nat.div_eq_of_lt hlt, Nat.div_eq_of_lt_le] <;> omega
    · omega
  have hfour : doe / 1460 = 25 * c + q + if 1460 ≤ 24 * c + q + 365 * r + doy then 1 else 0 := by
    split_ifs <;> omega
  have hrest : doe - doe / 1460 + doe / 36524 - doe / 146096 =
      365 * (100 * c + 4 * q + r) +
        (doy - if 1460 ≤ 24 * c + q + 365 * r + doy then 1 else 0) := by
    split_ifs at hfour ⊢ <;> omega
  rw [hrest, Nat.mul_add_div (by decide), Nat.div_eq_of_lt hsmall, add_zero]

theorem Date.year_of_dayOfEra :
    (d.dayOfEra - d.dayOfEra / 1460 + d.dayOfEra / 36524 - d.dayOfEra / 146096) / 365 =
      d.yearOfEra := by
  have hlast (h : d.marchDay = 365) : d.yearOfEra % 4 = 3 ∧
      (d.yearOfEra % 100 / 4 = 24 → d.yearOfEra / 100 = 3) := by
    obtain ⟨h4, h100⟩ := d.leap_yearOfEra h
    omega
  have hday := d.marchDay_lt
  have hlt := d.yearOfEra_lt
  have hyear : d.yearOfEra = 100 * (d.yearOfEra / 100) + 4 * (d.yearOfEra % 100 / 4) +
      d.yearOfEra % 4 := by
    omega
  have hdoe : d.dayOfEra = 36524 * (d.yearOfEra / 100) + 1461 * (d.yearOfEra % 100 / 4) +
      365 * (d.yearOfEra % 4) + d.marchDay := by
    unfold dayOfEra
    omega
  rw [hyear]
  exact year_of_days (by omega) (by omega) (by omega) (by omega) hlast hdoe

theorem Date.marchDay_of_dayOfEra :
    d.dayOfEra - (365 * d.yearOfEra + d.yearOfEra / 4 - d.yearOfEra / 100) = d.marchDay :=
  Nat.add_sub_cancel_left _ _

end Lib.Civil
