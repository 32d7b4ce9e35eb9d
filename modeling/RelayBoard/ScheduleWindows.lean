import RelayBoard.Lib.Windows
import RelayBoard.ScheduleEval

/-!
# The window of a schedule

An entry in clock mode has a window for each day of its mask, which opens at
the on minute of that day. Minutes are counted from the midnight that began
today, so that yesterday is day -1. On a day without sunrise or sunset the
minutes 0 and 1440 stand for what has already been and what never comes.
-/

set_option autoImplicit false

namespace RelayBoard
open Lib.Windows

namespace TimeParts

structure OnClock (now : TimeParts) : Prop where
  hour : now.hour < 24
  minute : now.minute < 60
  wday : now.wday < 7

def minuteOfDay (now : TimeParts) : ℤ := now.hour * 60 + now.minute

def weekday (now : TimeParts) (d : ℤ) : ℕ := ((now.wday + d) % 7).toNat

theorem OnClock.minuteOfDay {now : TimeParts} (h : now.OnClock) :
    0 ≤ now.minuteOfDay ∧ now.minuteOfDay < 1440 := by
  have hhour := h.hour
  have hminute := h.minute
  unfold TimeParts.minuteOfDay
  omega

theorem OnClock.today {now : TimeParts} (h : now.OnClock) : now.weekday 0 = now.wday := by
  have hwday := h.wday
  unfold weekday
  omega

theorem OnClock.yesterday {now : TimeParts} (h : now.OnClock) :
    now.weekday (-1) = (now.wday + 6) % 7 := by
  have hwday := h.wday
  unfold weekday
  omega

end TimeParts

/-- A minute of an ordinary day. -/
def InDay (m : ℤ) : Prop := 0 ≤ m ∧ m < 1440

theorem wrapMinute_inDay (m : ℤ) : InDay (wrapMinute m) := by
  have hlow : -1440 < m.tmod 1440 := Int.lt_tmod_of_pos m (by omega)
  have hhigh : m.tmod 1440 < 1440 := Int.tmod_lt_of_pos m (by omega)
  unfold InDay wrapMinute
  dsimp only
  split_ifs with h <;> omega

/-- On a day with a sunrise and a sunset every boundary is a minute of the day. -/
theorem resolveMinute_inDay (t : ScheduleTime) (now : TimeParts) {sun : SunTimes}
    (hsun : sun.kind = .transition) (hfixed : t.kind = .clock → InDay t.minuteOfDay) :
    InDay (resolveMinute t now sun) := by
  unfold resolveMinute
  by_cases hclock : t.kind = .clock
  · rw [if_pos hclock]
    exact hfixed hclock
  · rw [if_neg hclock, if_neg (not_not.mpr hsun)]
    exact wrapMinute_inDay _

section Law

variable (sc : ScheduleCfg) (now : TimeParts) (sun : SunTimes)

/-- Now lies in the window of day `d`, and the mask has that day. -/
def InWindow (d : ℤ) : Prop :=
  dayInMask sc.days (now.weekday d) = true ∧
    now.minuteOfDay ∈ window 1440 (resolveMinute sc.on now sun) (resolveMinute sc.off now sun) d

/-- The entry is active just when a day of the mask has its window open. -/
def WindowLaw : Prop :=
  clockActive sc now sun = true ↔ ∃ d, (d = 0 ∨ d = -1) ∧ InWindow sc now sun d

/-- The hours before the off minute of a window past midnight, on a day of the
mask that follows a day not of the mask. -/
def UnopenedMorning : Prop :=
  resolveMinute sc.off now sun < resolveMinute sc.on now sun ∧
    now.minuteOfDay < resolveMinute sc.off now sun ∧
    dayInMask sc.days now.wday = true ∧ dayInMask sc.days ((now.wday + 6) % 7) = false

end Law

section Window

variable {sc : ScheduleCfg} {now : TimeParts} {sun : SunTimes}

theorem inWindow_today (hnow : now.OnClock) (hoff : InDay (resolveMinute sc.off now sun)) :
    InWindow sc now sun 0 ↔ dayInMask sc.days now.wday = true ∧
      resolveMinute sc.on now sun ≤ now.minuteOfDay ∧
      (now.minuteOfDay < resolveMinute sc.off now sun ∨
        resolveMinute sc.off now sun < resolveMinute sc.on now sun) := by
  have hmem := mem_own (resolveMinute sc.on now sun) 0 hoff.1 hnow.minuteOfDay.2
  rw [mul_zero, zero_add] at hmem
  rw [InWindow, hnow.today, hmem]

theorem inWindow_yesterday (hnow : now.OnClock) (hon : InDay (resolveMinute sc.on now sun))
    (hoff : InDay (resolveMinute sc.off now sun)) :
    InWindow sc now sun (-1) ↔ dayInMask sc.days ((now.wday + 6) % 7) = true ∧
      resolveMinute sc.off now sun < resolveMinute sc.on now sun ∧
      now.minuteOfDay < resolveMinute sc.off now sun := by
  have hmem := mem_next (-1) hon.2 hnow.minuteOfDay.1 hoff.2.le
  rw [neg_add_cancel, mul_zero, zero_add] at hmem
  rw [InWindow, hnow.yesterday, hmem]

/-- The two tests of `clock_active`, by the minutes they compare. -/
theorem clockActive_iff (sc : ScheduleCfg) (now : TimeParts) (sun : SunTimes) :
    clockActive sc now sun = true ↔
      (dayInMask sc.days now.wday = true ∧
        (resolveMinute sc.on now sun ≤ now.minuteOfDay ∧
            (now.minuteOfDay < resolveMinute sc.off now sun ∨
              resolveMinute sc.off now sun < resolveMinute sc.on now sun) ∨
          resolveMinute sc.off now sun < resolveMinute sc.on now sun ∧
            now.minuteOfDay < resolveMinute sc.off now sun)) ∨
      (dayInMask sc.days ((now.wday + 6) % 7) = true ∧
        resolveMinute sc.off now sun < resolveMinute sc.on now sun ∧
        now.minuteOfDay < resolveMinute sc.off now sun) := by
  unfold clockActive TimeParts.minuteOfDay
  dsimp only
  by_cases horder : resolveMinute sc.on now sun ≤ resolveMinute sc.off now sun
  · have hlt : ¬resolveMinute sc.off now sun < resolveMinute sc.on now sun := by omega
    simp [horder, hlt]
  · have hlt : resolveMinute sc.off now sun < resolveMinute sc.on now sun := by omega
    cases dayInMask sc.days now.wday <;> cases dayInMask sc.days ((now.wday + 6) % 7) <;>
      simp [horder, hlt]
    omega

/-- The law of the window, for every mask, weekday and minute: it fails in the
morning of a day of the mask whose eve the mask excludes, and there only. -/
theorem window_law_iff (hnow : now.OnClock) (hon : InDay (resolveMinute sc.on now sun))
    (hoff : InDay (resolveMinute sc.off now sun)) :
    WindowLaw sc now sun ↔ ¬UnopenedMorning sc now sun := by
  have hwindows : (∃ d, (d = 0 ∨ d = -1) ∧ InWindow sc now sun d) ↔
      InWindow sc now sun 0 ∨ InWindow sc now sun (-1) := by
    simp [or_and_right, exists_or]
  rw [WindowLaw, hwindows, clockActive_iff, inWindow_today hnow hoff,
    inWindow_yesterday hnow hon hoff, UnopenedMorning]
  cases dayInMask sc.days now.wday <;> cases dayInMask sc.days ((now.wday + 6) % 7) <;>
    simp only [true_and, false_and, and_true, and_false, or_false, false_or, Bool.false_eq_true,
      Bool.true_eq_false, not_false_eq_true, iff_true]
  all_goals omega

def untilSunrise : ScheduleCfg :=
  ⟨1, .clock, ⟨.clock, 1320, 0⟩, ⟨.sunrise, 0, 60⟩, 0, 0, 0x7E#8⟩

/-- The law holds on a Saturday at 05:59, an hour and a minute after sunrise. -/
theorem untilSunrise_saturday :
    WindowLaw untilSunrise ⟨2026, 10, 3, 6, 5, 59, 0⟩ ⟨.transition, 17880000, 64800000⟩ ↔
      ¬UnopenedMorning untilSunrise ⟨2026, 10, 3, 6, 5, 59, 0⟩
        ⟨.transition, 17880000, 64800000⟩ :=
  window_law_iff ⟨by decide, by decide, by decide⟩
    (resolveMinute_inDay _ _ rfl fun _ => ⟨by decide, by decide⟩)
    (resolveMinute_inDay _ _ rfl nofun)

/-- A schedule for the night from Friday is on in the small hours of Friday. -/
theorem fridayNight_before_friday :
    ¬WindowLaw fridayNight ⟨2026, 10, 2, 5, 3, 0, 0⟩ ⟨.transition, 0, 0⟩ := by
  have hnow : TimeParts.OnClock ⟨2026, 10, 2, 5, 3, 0, 0⟩ := ⟨by decide, by decide, by decide⟩
  have hactive : clockActive fridayNight ⟨2026, 10, 2, 5, 3, 0, 0⟩ ⟨.transition, 0, 0⟩ = true := by
    decide +kernel
  intro h
  obtain ⟨d, rfl | rfl, hd⟩ := h.mp hactive
  · exact absurd ((inWindow_today hnow ⟨by decide, by decide⟩).mp hd).2.1 (by decide)
  · exact absurd ((inWindow_yesterday hnow ⟨by decide, by decide⟩ ⟨by decide, by decide⟩).mp hd).1
      (by decide)

end Window

section Polar

/-- The sun is already past the boundary when the day begins. -/
def Already (t : ScheduleTime) (sun : SunTimes) : Prop :=
  (t.kind = .sunrise ∧ sun.kind = .alwaysUp) ∨ (t.kind = .sunset ∧ sun.kind = .alwaysDown)

/-- The boundary does not come that day. -/
def Never (t : ScheduleTime) (sun : SunTimes) : Prop :=
  (t.kind = .sunset ∧ sun.kind = .alwaysUp) ∨ (t.kind = .sunrise ∧ sun.kind = .alwaysDown)

/-- What an entry is to do on a day without a sunrise or a sunset. -/
structure PolarLaw (sc : ScheduleCfg) (now : TimeParts) (sun : SunTimes) : Prop where
  neverOn : Never sc.on sun ∨ Already sc.off sun → clockActive sc now sun = false
  untilFixed : Already sc.on sun → sc.off.kind = .clock →
    (clockActive sc now sun = true ↔ now.minuteOfDay < sc.off.minuteOfDay)
  fromFixed : sc.on.kind = .clock → Never sc.off sun →
    (clockActive sc now sun = true ↔ sc.on.minuteOfDay ≤ now.minuteOfDay)
  allDay : Already sc.on sun → Never sc.off sun → clockActive sc now sun = true

/-- The minutes before a fixed off time with an on boundary that never comes,
and those from a fixed on time with an off boundary already past: the two
constants then read as a window past midnight. -/
def ReadAsNight (sc : ScheduleCfg) (now : TimeParts) (sun : SunTimes) : Prop :=
  (Never sc.on sun ∧ sc.off.kind = .clock ∧ now.minuteOfDay < sc.off.minuteOfDay) ∨
    (sc.on.kind = .clock ∧ Already sc.off sun ∧ 0 < sc.on.minuteOfDay ∧
      sc.on.minuteOfDay ≤ now.minuteOfDay)

variable {sc : ScheduleCfg} {now : TimeParts} {sun : SunTimes} {t : ScheduleTime}

theorem resolve_fixed (h : t.kind = .clock) : resolveMinute t now sun = t.minuteOfDay :=
  if_pos h

theorem resolve_already (h : Already t sun) : resolveMinute t now sun = 0 := by
  rcases h with ⟨hkind, hsun⟩ | ⟨hkind, hsun⟩ <;> simp [resolveMinute, hkind, hsun]

theorem resolve_never (h : Never t sun) : resolveMinute t now sun = 1440 := by
  rcases h with ⟨hkind, hsun⟩ | ⟨hkind, hsun⟩ <;> simp [resolveMinute, hkind, hsun]

theorem kind_of_already (h : Already t sun) : t.kind ≠ .clock := by
  rcases h with ⟨hkind, -⟩ | ⟨hkind, -⟩ <;> simp [hkind]

theorem kind_of_never (h : Never t sun) : t.kind ≠ .clock := by
  rcases h with ⟨hkind, -⟩ | ⟨hkind, -⟩ <;> simp [hkind]

theorem polar_cases (hsun : sun.kind ≠ .transition) (t : ScheduleTime) :
    t.kind = .clock ∨ Already t sun ∨ Never t sun := by
  unfold Already Never
  cases hk : t.kind <;> cases hs : sun.kind <;> simp_all

theorem active_in_mask (sun : SunTimes) (htoday : dayInMask sc.days now.wday = true)
    (hyesterday : dayInMask sc.days ((now.wday + 6) % 7) = true) :
    clockActive sc now sun = true ↔
      (resolveMinute sc.on now sun ≤ now.minuteOfDay ∧
        now.minuteOfDay < resolveMinute sc.off now sun) ∨
      (resolveMinute sc.off now sun < resolveMinute sc.on now sun ∧
        (resolveMinute sc.on now sun ≤ now.minuteOfDay ∨
          now.minuteOfDay < resolveMinute sc.off now sun)) := by
  rw [clockActive_iff, htoday, hyesterday]
  simp only [true_and]
  omega

/-- With an on boundary that never comes the entry is inactive but before a fixed
off minute. -/
theorem inactive_of_never_on (hnow : now.OnClock) (htoday : dayInMask sc.days now.wday = true)
    (hyesterday : dayInMask sc.days ((now.wday + 6) % 7) = true)
    (hoff : sc.off.kind = .clock → InDay sc.off.minuteOfDay) (hsun : sun.kind ≠ .transition)
    (hnever : Never sc.on sun) : clockActive sc now sun = false ↔
      ¬(sc.off.kind = .clock ∧ now.minuteOfDay < sc.off.minuteOfDay) := by
  have hminute := hnow.minuteOfDay
  rw [← Bool.not_eq_true, active_in_mask sun htoday hyesterday, resolve_never hnever]
  rcases polar_cases hsun sc.off with hfixed | halready | hnever'
  · have hin := hoff hfixed
    unfold InDay at hin
    rw [resolve_fixed hfixed]
    simp only [hfixed, true_and]
    omega
  · have hkind : ¬sc.off.kind = .clock := kind_of_already halready
    rw [resolve_already halready]
    simp only [hkind, false_and, not_false_eq_true, iff_true]
    omega
  · have hkind : ¬sc.off.kind = .clock := kind_of_never hnever'
    rw [resolve_never hnever']
    simp only [hkind, false_and, not_false_eq_true, iff_true]
    omega

/-- With an off boundary already past it is inactive but from a fixed on minute. -/
theorem inactive_of_already_off (hnow : now.OnClock)
    (htoday : dayInMask sc.days now.wday = true)
    (hyesterday : dayInMask sc.days ((now.wday + 6) % 7) = true)
    (hon : sc.on.kind = .clock → InDay sc.on.minuteOfDay) (hsun : sun.kind ≠ .transition)
    (halready : Already sc.off sun) : clockActive sc now sun = false ↔
      ¬(sc.on.kind = .clock ∧ 0 < sc.on.minuteOfDay ∧
        sc.on.minuteOfDay ≤ now.minuteOfDay) := by
  have hminute := hnow.minuteOfDay
  rw [← Bool.not_eq_true, active_in_mask sun htoday hyesterday, resolve_already halready]
  rcases polar_cases hsun sc.on with hfixed | halready' | hnever
  · have hin := hon hfixed
    unfold InDay at hin
    rw [resolve_fixed hfixed]
    simp only [hfixed, true_and]
    omega
  · have hkind : ¬sc.on.kind = .clock := kind_of_already halready'
    rw [resolve_already halready']
    simp only [hkind, false_and, not_false_eq_true, iff_true]
    omega
  · have hkind : ¬sc.on.kind = .clock := kind_of_never hnever
    rw [resolve_never hnever]
    simp only [hkind, false_and, not_false_eq_true, iff_true]
    omega

/-- The law of a polar day, for every pair of boundaries with a fixed time taken
from the day: it fails where the constants read as a night, and there only. -/
theorem polar_law_iff (hnow : now.OnClock) (hsun : sun.kind ≠ .transition)
    (hon : sc.on.kind = .clock → InDay sc.on.minuteOfDay)
    (hoff : sc.off.kind = .clock → InDay sc.off.minuteOfDay)
    (htoday : dayInMask sc.days now.wday = true)
    (hyesterday : dayInMask sc.days ((now.wday + 6) % 7) = true) :
    PolarLaw sc now sun ↔ ¬ReadAsNight sc now sun := by
  have hactive := active_in_mask sun htoday hyesterday
  have hminute := hnow.minuteOfDay
  have hneverOn := inactive_of_never_on hnow htoday hyesterday hoff hsun
  have halreadyOff := inactive_of_already_off hnow htoday hyesterday hon hsun
  constructor
  · rintro hlaw (⟨hnever, hnight⟩ | ⟨hfixed, halready, hnight⟩)
    · exact (hneverOn hnever).mp (hlaw.neverOn (.inl hnever)) hnight
    · exact (halreadyOff halready).mp (hlaw.neverOn (.inr halready)) ⟨hfixed, hnight⟩
  · intro hday
    constructor
    · rintro (hnever | halready)
      · exact (hneverOn hnever).mpr (fun hnight => hday (.inl ⟨hnever, hnight⟩))
      · exact (halreadyOff halready).mpr
          (fun hnight => hday (.inr ⟨hnight.1, halready, hnight.2⟩))
    · intro halready hfixed
      have hin := hoff hfixed
      unfold InDay at hin
      rw [hactive, resolve_already halready, resolve_fixed hfixed]
      omega
    · intro hfixed hnever
      have hin := hon hfixed
      unfold InDay at hin
      rw [hactive, resolve_fixed hfixed, resolve_never hnever]
      omega
    · intro halready hnever
      rw [hactive, resolve_already halready, resolve_never hnever]
      omega

def eveningLight : ScheduleCfg :=
  ⟨1, .clock, ⟨.sunset, 0, 0⟩, ⟨.clock, 1380, 0⟩, 0, 0, 0x7F#8⟩

theorem eveningLight_polar_night :
    PolarLaw eveningLight ⟨2026, 12, 21, 1, 12, 0, 0⟩ ⟨.alwaysDown, 0, 0⟩ ↔
      ¬ReadAsNight eveningLight ⟨2026, 12, 21, 1, 12, 0, 0⟩ ⟨.alwaysDown, 0, 0⟩ :=
  polar_law_iff ⟨by decide, by decide, by decide⟩ nofun nofun
    (fun _ => ⟨by decide, by decide⟩) (by decide) (by decide)

/-- In the polar day it is on at noon, though the sun does not set. -/
theorem eveningLight_polar_day :
    ¬PolarLaw eveningLight ⟨2026, 6, 21, 0, 12, 0, 0⟩ ⟨.alwaysUp, 0, 0⟩ := by
  have hactive :
      clockActive eveningLight ⟨2026, 6, 21, 0, 12, 0, 0⟩ ⟨.alwaysUp, 0, 0⟩ = true := by
    decide +kernel
  intro h
  have hno := h.neverOn (.inl (.inl ⟨rfl, rfl⟩))
  rw [hactive] at hno
  cases hno

end Polar

end RelayBoard
