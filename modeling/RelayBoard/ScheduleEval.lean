import RelayBoard.Expander
import RelayBoard.Lib.Runs

/-!
# Schedules

`schedule_eval.c`. A tick looks at every entry of the settings, works out
whether it is active now and calls `set_relay` where that is news. What
`sun_times` computes in floating point is a parameter; a position is of
whatever type it takes.
-/

set_option autoImplicit false

namespace RelayBoard

/-- `SCHEDULE_MAX_ENTRIES`; index 0 is schedule 1. -/
abbrev ScheduleEntry := Fin 8

inductive ScheduleMode where
  | clock
  | repeat
  deriving DecidableEq, Repr

inductive ScheduleTimeKind where
  | clock
  | sunrise
  | sunset
  deriving DecidableEq, Repr

structure ScheduleTime where
  kind : ScheduleTimeKind
  minuteOfDay : ℤ
  offsetMin : ℤ
  deriving DecidableEq, Repr

/-- `schedule_cfg_t`; `relay` is 0 for an entry that does nothing. An enabled
entry in repeat mode has a positive period, `device_config_load` sees to it. -/
structure ScheduleCfg where
  relay : ℕ
  mode : ScheduleMode
  on : ScheduleTime
  off : ScheduleTime
  onMin : ℕ
  periodMin : ℕ
  days : BitVec 8
  deriving DecidableEq, Repr

/-- `espos_time_parts_t`, what is read of it. -/
structure TimeParts where
  year : ℤ
  month : ℕ
  day : ℕ
  wday : ℕ
  hour : ℕ
  minute : ℕ
  utcOffsetS : ℤ
  deriving DecidableEq, Repr

inductive SunDayKind where
  | transition
  | alwaysUp
  | alwaysDown
  deriving DecidableEq, Repr

structure SunTimes where
  kind : SunDayKind
  sunriseUnixMs : ℤ
  sunsetUnixMs : ℤ
  deriving DecidableEq, Repr

def wrapMinute (m : ℤ) : ℤ :=
  let m := m.tmod 1440
  if m < 0 then m + 1440 else m

def resolveMinute (t : ScheduleTime) (now : TimeParts) (sun : SunTimes) : ℤ :=
  if t.kind = .clock then t.minuteOfDay
  else if sun.kind ≠ .transition then
    if (sun.kind = .alwaysDown ∧ t.kind = .sunset) ∨ (sun.kind = .alwaysUp ∧ t.kind = .sunrise)
    then 0 else 1440
  else
    let instant := if t.kind = .sunrise then sun.sunriseUnixMs else sun.sunsetUnixMs
    let localMs := instant + now.utcOffsetS * 1000
    let minute := (localMs.tdiv 60000).tmod 1440
    let minute := if minute < 0 then minute + 1440 else minute
    wrapMinute (minute + t.offsetMin)

def dayInMask (mask : BitVec 8) (wday : ℕ) : Bool := mask.getLsbD wday

def clockActive (sc : ScheduleCfg) (now : TimeParts) (sunToday : SunTimes) : Bool :=
  let nowMin : ℤ := now.hour * 60 + now.minute
  let onMin := resolveMinute sc.on now sunToday
  let offMin := resolveMinute sc.off now sunToday
  let today :=
    dayInMask sc.days now.wday &&
      if onMin ≤ offMin then decide (onMin ≤ nowMin) && decide (nowMin < offMin)
      else decide (onMin ≤ nowMin) || decide (nowMin < offMin)
  -- yesterday's window may reach past midnight
  if !today && decide (offMin < onMin) && dayInMask sc.days ((now.wday + 6) % 7) then
    decide (nowMin < offMin)
  else today

def repeatActive (sc : ScheduleCfg) (now : TimeParts) : Bool :=
  dayInMask sc.days now.wday && decide ((now.hour * 60 + now.minute) % sc.periodMin < sc.onMin)

/-- The arguments of a `schedule_eval_tick`; `δ` is the type of a degree. -/
structure ScheduleTick (δ : Type) where
  schedules : ScheduleEntry → ScheduleCfg
  timeValid : Bool
  now : TimeParts
  lat : δ
  lon : δ

/-- `entry_state_t`. -/
structure EntryState where
  valid : Bool
  active : Bool
  relay : ℕ
  deriving DecidableEq, Repr

structure ScheduleEval where
  entries : ScheduleEntry → EntryState
  wasTimeValid : Bool

/-- What a tick does outside: a call of `set_relay` for an entry, or a report
under `scheduleNoTime`. -/
inductive ScheduleOut where
  | setRelay (entry : ScheduleEntry) (relay : ℕ) (on : Bool)
  | health (h : Health)
  deriving DecidableEq, Repr

def noTimeMessage : String := "No valid time (RTC, SNTP or SignalK); schedules are not running"

def scheduleEvalInit : ScheduleEval := ⟨fun _ => ⟨false, false, 0⟩, false⟩

namespace ScheduleTick

variable {δ : Type} (sunTimes : ℤ → ℕ → ℕ → δ → δ → SunTimes)

def enabled (t : ScheduleTick δ) (i : ScheduleEntry) : Bool := (t.schedules i).relay != 0

def needSun (t : ScheduleTick δ) : Bool :=
  (List.finRange 8).any fun i =>
    t.enabled i && (t.schedules i).mode == .clock &&
      ((t.schedules i).on.kind != .clock || (t.schedules i).off.kind != .clock)

def sunToday (t : ScheduleTick δ) : SunTimes :=
  if t.needSun then sunTimes t.now.year t.now.month t.now.day t.lat t.lon else ⟨.transition, 0, 0⟩

def active (t : ScheduleTick δ) (i : ScheduleEntry) : Bool :=
  match (t.schedules i).mode with
  | .repeat => repeatActive (t.schedules i) t.now
  | .clock => clockActive (t.schedules i) t.now (t.sunToday sunTimes)

end ScheduleTick

namespace ScheduleEval

variable {δ : Type} (sunTimes : ℤ → ℕ → ℕ → δ → δ → SunTimes)

/-- The last loop of the tick for one entry: whether it calls `set_relay`. -/
def calls (t : ScheduleTick δ) (s : ScheduleEval) (i : ScheduleEntry) : Bool :=
  t.enabled i && (!(s.entries i).valid || t.active sunTimes i != (s.entries i).active ||
    (t.schedules i).relay != (s.entries i).relay)

/-- The same loop's effect on what is remembered of the entry. -/
def nextEntry (t : ScheduleTick δ) (s : ScheduleEval) (i : ScheduleEntry) : EntryState :=
  if !t.enabled i then { s.entries i with valid := false }
  else if s.calls sunTimes t i then ⟨true, t.active sunTimes i, (t.schedules i).relay⟩
  else s.entries i

def scheduleEvalTick (t : ScheduleTick δ) (s : ScheduleEval) : ScheduleEval × List ScheduleOut :=
  if !t.timeValid then
    (⟨fun i => { s.entries i with valid := false }, false⟩, [.health (.warn noTimeMessage)])
  else
    (⟨s.nextEntry sunTimes t, true⟩,
      (if !s.wasTimeValid then [.health .normal] else []) ++
        (List.finRange 8).flatMap fun i =>
          if s.calls sunTimes t i then [.setRelay i (t.schedules i).relay (t.active sunTimes i)]
          else [])

def step (s : ScheduleEval) (t : ScheduleTick δ) : ScheduleEval :=
  (scheduleEvalTick sunTimes t s).1

def outs (s : ScheduleEval) (t : ScheduleTick δ) : List ScheduleOut :=
  (scheduleEvalTick sunTimes t s).2

end ScheduleEval

section Days

def fridayNight : ScheduleCfg :=
  ⟨1, .clock, ⟨.clock, 1320, 0⟩, ⟨.clock, 360, 0⟩, 0, 0, 0x20#8⟩

/-- It is on late on Friday and early on Saturday, not late on Saturday. -/
example : clockActive fridayNight ⟨2026, 10, 2, 5, 23, 0, 0⟩ ⟨.transition, 0, 0⟩ = true ∧
    clockActive fridayNight ⟨2026, 10, 3, 6, 5, 59, 0⟩ ⟨.transition, 0, 0⟩ = true ∧
    clockActive fridayNight ⟨2026, 10, 3, 6, 23, 0, 0⟩ ⟨.transition, 0, 0⟩ = false := by
  decide +kernel

end Days

end RelayBoard
