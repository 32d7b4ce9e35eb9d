import RelayBoard.ButtonLogic
import RelayBoard.ConfigLoad
import RelayBoard.HoldState
import RelayBoard.InputSense
import RelayBoard.ScheduleEval
import RelayBoard.SkBridge

/-!
# The I/O task

`io_task` of `main.c` with the modules it drives. One function after another it
ticks relay control, polls the inputs and the button, and runs the SignalK-loss
timer and the schedules; the relay calls they lead to are made one at a time,
and other tasks command relays between any two of them. A button action leaves
a restart pending, from the next pass on the task does nothing.
-/

set_option autoImplicit false

namespace RelayBoard
open BitVec Lib.Runs Lib.Clock

/-- What the modules of the task read of a `device_config_t`. -/
structure IoSettings where
  relays : DeviceConfig
  sense : SenseCfg
  schedules : ScheduleEntry → ScheduleCfg

inductive IoPc where
  | kick
  | wake
  | updateInputs
  | updateBridge
  | tick
  | poll
  | button
  | skTick
  | schedule
  deriving DecidableEq, Repr

inductive Commander where
  | sk
  | n2k
  | web
  deriving DecidableEq, Repr

def Commander.source : Commander → RelaySource
  | .sk => .sk
  | .n2k => .n2k
  | .web => .web

/-- What a step finds: the time, how the expander and the store do, the
settings `device_config_load` returns, the pins, the button, whether the hold
state is erased, the clock if it is valid, and the position. -/
structure IoReads (δ : Type) where
  time : ℕ
  faults : List Access
  saveErr : Option EspErr
  loaded : Option IoSettings
  pins : Mask
  pressed : Bool
  erases : Bool
  clock : Option TimeParts
  lat : δ
  lon : δ

/-- `pending` are the relay calls which the function called last still has to
make. -/
structure IoTask where
  relays : World
  inputs : InputSense
  button : ButtonState
  buttonHwOk : Bool
  bridge : SkBridge
  schedules : ScheduleEval
  settings : IoSettings
  lastScheduleTickMs : Ms
  notified : Bool
  restartPending : Bool
  pc : IoPc
  pending : List Op

inductive IoAction (δ : Type) where
  | io (x : IoReads δ)
  | command (who : Commander) (channel : ℕ) (on : Bool) (x : IoReads δ)
  | streamChanged (connected : Bool) (time : ℕ)
  | configChange

def IoReads.call {δ : Type} (x : IoReads δ) (op : Op) : Call := ⟨op, x.time, x.faults, x.saveErr⟩

/-- `input_override` -/
def inputOverride (r : Channel) : InputAction → Op
  | .toggle => .toggle (r.val + 1) .input
  | .on => .set (r.val + 1) true .input
  | .off => .set (r.val + 1) false .input

def SenseCall.relayOp : SenseCall → Option Op
  | .notify _ _ _ => none
  | .override r action => some (inputOverride r action)

/-- `schedule_set_relay` -/
def ScheduleOut.relayOp : ScheduleOut → Option Op
  | .setRelay _ relay on => some (.set relay on .schedule)
  | .health _ => none

/-- `relay_hw_clear_hold_state` -/
def World.clearHoldState (erases : Bool) (w : World) : World :=
  if erases then { w with env := { w.env with stored := none } } else w

namespace IoTask

variable {δ : Type} (sunTimes : ℤ → ℕ → ℕ → δ → δ → SunTimes)

/-- `button_poll` with `do_reopen_portal` and `do_factory_reset`. -/
def buttonPoll (x : IoReads δ) (s : IoTask) : IoTask :=
  if !s.buttonHwOk then s
  else
    let r := s.button.buttonLogicUpdate x.pressed (reading 32 x.time)
    match r.2.1 with
    | .none => { s with button := r.1 }
    | .portal => { s with button := r.1, restartPending := true }
    | .reset =>
      { s with button := r.1, relays := s.relays.clearHoldState x.erases, restartPending := true }

/-- `schedule_tick`, and what `schedule_eval_tick` had called if it was called. -/
def scheduleTick (x : IoReads δ) (s : IoTask) : IoTask × Option (List ScheduleOut) :=
  let now := reading 32 x.time
  if now - s.lastScheduleTickMs < 1000#32 then (s, none)
  else
    let t : ScheduleTick δ :=
      ⟨s.settings.schedules, x.clock.isSome, x.clock.getD ⟨0, 0, 0, 0, 0, 0, 0⟩, x.lat, x.lon⟩
    let r := s.schedules.scheduleEvalTick sunTimes t
    ({ s with
      lastScheduleTickMs := now, schedules := r.1, pending := r.2.filterMap ScheduleOut.relayOp },
      some r.2)

def enter (x : IoReads δ) (s : IoTask) : IoTask :=
  match s.pc with
  | .kick => if s.restartPending then s else { s with pc := .wake }
  | .wake =>
    match s.notified, x.loaded with
    | true, some settings =>
      { s with
        notified := false, settings := settings, pending := [.updateConfig settings.relays]
        pc := .updateInputs }
    | _, _ => { s with notified := false, pc := .tick }
  | .updateInputs =>
    { s with inputs := (s.inputs.inputSenseUpdateConfig s.settings.sense).1, pc := .updateBridge }
  | .updateBridge =>
    { s with bridge := skBridgeUpdateConfig s.settings.relays s.bridge, pc := .tick }
  | .tick => { s with pending := [.tick], pc := .poll }
  | .poll =>
    let r := s.inputs.inputSensePoll x.pins (reading 32 x.time)
    { s with inputs := r.1, pending := r.2.filterMap SenseCall.relayOp, pc := .button }
  | .button => { s.buttonPoll x with pc := .skTick }
  | .skTick =>
    let r := skBridgeTick (reading 32 x.time) s.bridge
    { s with bridge := r.2, pending := if r.1 then [.skLost] else [], pc := .schedule }
  | .schedule => { (s.scheduleTick sunTimes x).1 with pc := .kick }

def call (c : Call) (s : IoTask) : IoTask := { s with relays := RelayBoard.step s.relays c }

def step (s : IoTask) : IoAction δ → IoTask
  | .io x =>
    match s.pending with
    | op :: rest => { s with pending := rest }.call (x.call op)
    | [] => s.enter sunTimes x
  | .command who channel on x => s.call (x.call (.set channel on who.source))
  | .streamChanged connected time =>
    { s with bridge := skBridgeStreamChanged connected (reading 32 time) s.bridge }
  | .configChange => { s with notified := true }

def idle (relays : World) : IoTask where
  relays := relays
  inputs := inputSenseInit SenseCfg.schemaDefault 0xff#8 0#32
  button := buttonLogicInit false
  buttonHwOk := true
  bridge := .zero
  schedules := scheduleEvalInit
  settings := ⟨DeviceConfig.schemaDefault, SenseCfg.schemaDefault, fun _ => ScheduleCfg.zero⟩
  lastScheduleTickMs := 0#32
  notified := false
  restartPending := false
  pc := .kick
  pending := []

def plainReads (time : ℕ) : IoReads ℕ :=
  ⟨time, [], none, none, 0xff#8, false, true, none, 0, 0⟩

def noSun : ℤ → ℕ → ℕ → ℕ → ℕ → SunTimes := fun _ _ _ _ _ => ⟨.transition, 0, 0⟩

end IoTask

end RelayBoard
