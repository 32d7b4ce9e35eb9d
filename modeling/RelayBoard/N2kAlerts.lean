import RelayBoard.BoardConfig
import RelayBoard.Lib.Clock
import RelayBoard.Lib.Loops
import RelayBoard.Lib.Runs
import RelayBoard.N2kAlertPgn

/-!
# Input alarms as NMEA 2000 alerts

`n2k_alerts.c`. Each tick raises and clears alerts from the input readings and
then sends what is due for one channel. What it sends is recorded as the
structures that are encoded, with the payload as their function.
-/

set_option autoImplicit false

namespace RelayBoard
open BitVec Lib.Clock Lib.Loops Lib.Runs

/-- `n2k_alerts_cfg_t`. -/
structure AlertsCfg where
  enabled : Bool
  inputsOn : Bool
  level : Channel → InputAlarm
  message : Channel → List Byte
  deriving DecidableEq

def n2kAlertsCfgFrom (bank : BankCfg) : AlertsCfg where
  enabled := bank.n2kAlerts
  inputsOn := inputBankUsable bank
  level i := (bank.inputs i).alarm
  message i := alarmMessage (nameMax + 8) (bank.inputs i)

/-- `n2k_alerts_chan_t`. -/
structure AlertChan where
  active : Bool
  level : InputAlarm
  occurrence : Byte
  acked : Bool
  ackName : IsoName
  textDue : Bool
  statusDue : Bool
  clearLeft : ℕ
  clearLevel : InputAlarm
  clearOccurrence : Byte
  deriving DecidableEq, Repr

/-- A channel after the `memset` of `n2k_alerts_init`. -/
def AlertChan.zero : AlertChan := ⟨false, .off, 0, false, 0, false, false, 0, .off, 0⟩

/-- `n2k_alerts_t`. -/
structure N2kAlerts where
  cfg : AlertsCfg
  inst : Byte
  sourceName : IsoName
  statusAt : Ms
  textAt : Ms
  ch : Channel → AlertChan

/-- The two PGNs the alerts send; `n2k_alert_encode_text` puts the text
together from the alert's id and two strings. -/
inductive AlertMsg where
  | status (st : Alert)
  | text (id : AlertId) (description location : List Byte)
  deriving DecidableEq, Repr

def AlertMsg.id : AlertMsg → AlertId
  | .status st => st.id
  | .text id _ _ => id

def n2kAlertsTypeOf : InputAlarm → Byte
  | .emergency => alertTypeEmergency
  | .alarm => alertTypeAlarm
  | _ => alertTypeWarning

/-- `N2K_ALERTS_STATUS_PERIOD_MS`, `N2K_ALERTS_TEXT_PERIOD_MS` and
`N2K_ALERTS_CLEAR_REPEATS`. -/
def alertsStatusPeriodMs : Ms := 1000#32
def alertsTextPeriodMs : Ms := 10000#32
def alertsClearRepeats : ℕ := 3

namespace AlertChan

def beginClear (c : AlertChan) : AlertChan :=
  { c with
    clearLevel := c.level
    clearOccurrence := c.occurrence
    clearLeft := alertsClearRepeats
    active := false
    acked := false
    textDue := false
    statusDue := true }

/-- The number of the next occurrence, 1 to 255. -/
def nextOccurrence (occurrence : Byte) : Byte :=
  if occurrence = 255#8 then 1#8 else occurrence + 1#8

def raiseAlert (level : InputAlarm) (c : AlertChan) : AlertChan :=
  { c with
    active := true
    level := level
    occurrence := nextOccurrence c.occurrence
    acked := false
    ackName := alertNameNone
    textDue := true
    statusDue := true }

/-- The alert has to be cleared: its input no longer wants it, or not at this
level. -/
def clears (want : Bool) (level : InputAlarm) (c : AlertChan) : Bool :=
  c.active && (!want || c.level != level)

/-- The first loop of `n2k_alerts_tick` for one channel, in its two halves. -/
def react (want : Bool) (level : InputAlarm) (c : AlertChan) : AlertChan :=
  let c := if c.clears want level then c.beginClear else c
  if !c.active && want then c.raiseAlert level else c

def fallDue (statusPeriod textPeriod : Bool) (c : AlertChan) : AlertChan :=
  let c := if statusPeriod && (c.active || c.clearLeft != 0) then { c with statusDue := true }
    else c
  if textPeriod && c.active then { c with textDue := true } else c

def due (c : AlertChan) : Bool := c.textDue || c.statusDue

def sent (c : AlertChan) : AlertChan :=
  { c with
    textDue := false
    statusDue := false
    clearLeft := if c.statusDue then c.clearLeft - 1 else c.clearLeft }

end AlertChan

namespace N2kAlerts

def idOf (a : N2kAlerts) (i : Channel) (level : InputAlarm) (occurrence : Byte) : AlertId where
  type := n2kAlertsTypeOf level
  category := alertCategoryTechnical
  system := 0
  subsystem := 0
  id := BitVec.ofNat 16 (i.val + 1)
  sourceName := a.sourceName
  inst := a.inst
  index := BitVec.ofNat 8 (i.val + 1)
  occurrence := occurrence

/-- `n2k_alerts_status_of`: the status an active or, `clearing`, a cleared
channel reports. -/
def n2kAlertsStatusOf (a : N2kAlerts) (i : Channel) (clearing : Bool) : Alert :=
  let c := a.ch i
  if clearing then
    { id := a.idOf i c.clearLevel c.clearOccurrence
      silenced := false
      acknowledged := false
      escalated := false
      silenceSupported := false
      ackSupported := true
      escalationSupported := false
      ackName := alertNameNone
      trigger := alertTriggerAuto
      threshold := alertThresholdNormal
      priority := 0
      state := alertStateNormal }
  else
    { id := a.idOf i c.level c.occurrence
      silenced := false
      acknowledged := c.acked
      escalated := false
      silenceSupported := false
      ackSupported := true
      escalationSupported := false
      ackName := if c.acked then c.ackName else alertNameNone
      trigger := alertTriggerAuto
      threshold := alertThresholdExceeded
      priority := 0
      state := if c.acked then alertStateAcknowledged else alertStateActive }

/-- `n2k_alerts_init`. -/
def n2kAlertsInit (cfg : AlertsCfg) (inst : Byte) (sourceName : IsoName) (now : Ms) : N2kAlerts :=
  ⟨cfg, inst, sourceName, now, now, fun _ => .zero⟩

def n2kAlertsSetConfig (cfg : AlertsCfg) (a : N2kAlerts) : N2kAlerts :=
  { a with
    cfg := cfg
    ch := fun i =>
      if (a.ch i).active && a.cfg.message i != cfg.message i then
        { a.ch i with textDue := true }
      else a.ch i }

def wants (a : N2kAlerts) (inputsReady : Bool) (inputMask : Mask) (i : Channel) : Bool :=
  a.cfg.enabled && a.cfg.inputsOn && inputsReady && a.cfg.level i != .off && inputMask.has i

/-- The first loop of `n2k_alerts_tick`, behind the two period checks. -/
def settle (inputsReady : Bool) (inputMask : Mask) (now : Ms) (a : N2kAlerts) : N2kAlerts :=
  let statusPeriod := decide (alertsStatusPeriodMs ≤ now - a.statusAt)
  let textPeriod := decide (alertsTextPeriodMs ≤ now - a.textAt)
  { a with
    statusAt := if statusPeriod then now else a.statusAt
    textAt := if textPeriod then now else a.textAt
    ch := fun i =>
      ((a.ch i).react (a.wants inputsReady inputMask i) (a.cfg.level i)).fallDue statusPeriod
        textPeriod }

/-- What the second loop sends for a channel that has something due. -/
def messages (a : N2kAlerts) (i : Channel) : List AlertMsg :=
  let c := a.ch i
  (if c.textDue then [.text (a.idOf i c.level c.occurrence) (a.cfg.message i) []] else []) ++
    if c.statusDue then
      (if c.clearLeft != 0 then [.status (a.n2kAlertsStatusOf i true)] else []) ++
        if c.active then [.status (a.n2kAlertsStatusOf i false)] else []
    else []

/-- The channel whose turn it is. -/
def turn (a : N2kAlerts) : Option Channel := (List.finRange 8).find? fun i => (a.ch i).due

/-- `n2k_alerts_tick`: one channel's messages, the lowest that has any due. -/
def n2kAlertsTick (inputsReady : Bool) (inputMask : Mask) (now : Ms) (a : N2kAlerts) :
    N2kAlerts × List AlertMsg :=
  let a := a.settle inputsReady inputMask now
  match a.turn with
  | none => (a, [])
  | some i => ({ a with ch := Function.update a.ch i (a.ch i).sent }, a.messages i)

/-- `n2k_alerts_on_response`: whether it acknowledged one of our alerts. -/
def n2kAlertsOnResponse (data : List Byte) (a : N2kAlerts) : Bool × N2kAlerts :=
  match n2kAlertDecodeResponse data with
  | none => (false, a)
  | some r =>
    if r.id.sourceName ≠ a.sourceName ∨ r.id.inst ≠ a.inst then (false, a)
    else if h : r.id.id.toNat < 1 ∨ 8 < r.id.id.toNat then (false, a)
    else
      let i : Channel := ⟨r.id.id.toNat - 1, index_lt_of_not h⟩
      let c := a.ch i
      if !c.active || r.id.type != n2kAlertsTypeOf c.level || r.id.occurrence != c.occurrence then
        (false, a)
      else if r.command != alertResponseAcknowledge || c.acked then (false, a)
      else
        (true, { a with
          ch := Function.update a.ch i
            { c with acked := true, ackName := r.ackName, statusDue := true } })

end N2kAlerts

inductive AlertOp where
  | tick (inputsReady : Bool) (inputMask : Mask) (now : Ms)
  | setConfig (cfg : AlertsCfg)
  | response (data : List Byte)

namespace N2kAlerts

def step (a : N2kAlerts) : AlertOp → N2kAlerts
  | .tick inputsReady inputMask now => (a.n2kAlertsTick inputsReady inputMask now).1
  | .setConfig cfg => a.n2kAlertsSetConfig cfg
  | .response data => (a.n2kAlertsOnResponse data).2

def sends (a : N2kAlerts) : AlertOp → List AlertMsg
  | .tick inputsReady inputMask now => (a.n2kAlertsTick inputsReady inputMask now).2
  | _ => []

structure Acknowledges (a : N2kAlerts) (r : AlertResponse) (i : Channel) : Prop where
  sourceName : r.id.sourceName = a.sourceName
  inst : r.id.inst = a.inst
  id : r.id.id = BitVec.ofNat 16 (i.val + 1)
  active : (a.ch i).active = true
  type : r.id.type = n2kAlertsTypeOf (a.ch i).level
  occurrence : r.id.occurrence = (a.ch i).occurrence
  command : r.command = alertResponseAcknowledge
  unacked : (a.ch i).acked = false

/-- The channel's alert as acknowledged by `name`. -/
def acknowledge (a : N2kAlerts) (i : Channel) (name : IsoName) : N2kAlerts :=
  { a with
    ch := Function.update a.ch i
      { a.ch i with acked := true, ackName := name, statusDue := true } }

theorem chanId_toNat (i : Channel) : (BitVec.ofNat 16 (i.val + 1)).toNat = i.val + 1 := by
  revert i
  decide

/-- What a response does, for every payload. -/
theorem onResponse_cases (a : N2kAlerts) (data : List Byte) :
    (∃ r i, n2kAlertDecodeResponse data = some r ∧ a.Acknowledges r i ∧
      a.n2kAlertsOnResponse data = (true, a.acknowledge i r.ackName)) ∨
    (∀ r i, n2kAlertDecodeResponse data = some r → ¬a.Acknowledges r i) ∧
      a.n2kAlertsOnResponse data = (false, a) := by
  unfold n2kAlertsOnResponse
  cases hdecode : n2kAlertDecodeResponse data with
  | none => exact .inr ⟨nofun, rfl⟩
  | some r =>
    dsimp only
    split
    · rename_i hother
      refine .inr ⟨fun r' i hr hack => ?_, rfl⟩
      cases hr
      exact hother.elim (fun h => h hack.sourceName) (fun h => h hack.inst)
    · rename_i hours
      push Not at hours
      split
      · rename_i hid
        refine .inr ⟨fun r' i hr hack => ?_, rfl⟩
        cases hr
        rw [hack.id, chanId_toNat] at hid
        omega
      · rename_i hid
        have hi : ∀ i : Channel, r.id.id = BitVec.ofNat 16 (i.val + 1) →
            i = ⟨r.id.id.toNat - 1, index_lt_of_not hid⟩ := by
          intro i h
          have hnat := congrArg BitVec.toNat h
          rw [chanId_toNat] at hnat
          exact Fin.ext (by simp [hnat])
        split
        · rename_i hmiss
          refine .inr ⟨fun r' i hr hack => ?_, rfl⟩
          cases hr
          rw [← hi i hack.id] at hmiss
          simp [hack.active, hack.type, hack.occurrence] at hmiss
        · rename_i hmatch
          split
          · rename_i hcommand
            refine .inr ⟨fun r' i hr hack => ?_, rfl⟩
            cases hr
            rw [← hi i hack.id] at hcommand
            simp [hack.command, hack.unacked] at hcommand
          · rename_i hcommand
            simp only [Bool.not_eq_true, Bool.or_eq_false_iff, Bool.not_eq_false',
              bne_eq_false_iff_eq] at hmatch hcommand
            refine .inl ⟨r, _, rfl, ⟨hours.1, hours.2, ?_, hmatch.1.1, hmatch.1.2, hmatch.2,
              hcommand.1, hcommand.2⟩, rfl⟩
            apply BitVec.eq_of_toNat_eq
            rw [chanId_toNat]
            change _ = r.id.id.toNat - 1 + 1
            omega

theorem tick_frame (a : N2kAlerts) (inputsReady : Bool) (inputMask : Mask) (now : Ms) :
    let b := (a.n2kAlertsTick inputsReady inputMask now).1
    b.cfg = a.cfg ∧ b.inst = a.inst ∧ b.sourceName = a.sourceName := by
  unfold n2kAlertsTick
  dsimp only
  split <;> exact ⟨rfl, rfl, rfl⟩

theorem response_cfg (a : N2kAlerts) (data : List Byte) :
    (a.n2kAlertsOnResponse data).2.cfg = a.cfg := by
  rcases a.onResponse_cases data with ⟨r, i, -, -, h⟩ | ⟨-, h⟩
  · rw [h]
    rfl
  · rw [h]

end N2kAlerts

end RelayBoard
