import RelayBoard.Lib.Journal
import RelayBoard.N2kAlerts

/-!
# The NMEA 2000 task and the tasks that wake it

`n2k_bridge.cpp`. Other tasks change what the bridge reads and set a flag; the
NMEA 2000 task exchanges the flags in its loop. A step of the model is one
access to what the tasks share: a read or a change of a mask, a store or an
exchange of a flag, what is done while `cfg_lock` is held. The steps of all
tasks come in any order.
-/

set_option autoImplicit false

namespace RelayBoard
open BitVec Lib.Runs Lib.Journal

/-- `BOARD_CHANNELS` and the 28 fields of a switch bank payload. -/
def boardChannels : ℕ := 8

def switchBankField (mask : BitVec 32) (channels i : ℕ) : Byte :=
  if channels ≤ i then 3 else if mask.getLsbD i then 1 else 0

/-- `switch_bank_encode_status`, the instance and seven bytes of four fields. -/
def switchBankEncodeStatus (inst : Byte) (mask : BitVec 32) (channels : ℕ) : List Byte :=
  inst :: (List.range 7).map fun k =>
    (List.range 4).foldl
      (fun byte j => byte ||| (switchBankField mask channels (4 * k + j) <<< (2 * j))) 0

example : switchBankEncodeStatus 3 0x85 8 =
    [0x03, 0x11, 0x40, 0xff, 0xff, 0xff, 0xff, 0xff] := by decide

inductive BusMsg where
  | status (payload : List Byte)
  | alert (m : AlertMsg)

/-- A 127501 of the bank with this instance. -/
def statusOf (inst : Byte) : BusMsg → Option (List Byte)
  | .status payload => if payload.head? = some inst then some payload else none
  | .alert _ => none

inductive N2kPc where
  | parseMessages
  | exchangeChanged
  | readRelays
  | sendRelays (mask : Mask)
  | readReady
  | readInputs
  | sendInputs (mask : Mask)
  | exchangeCfg
  | copyCfg
  | tick
  | tickInputs (inputsReady : Bool)
  deriving DecidableEq

/-- The bridge's static state with the readings behind its `io`. `owes` and
`owesCfg` are the tasks between a change and their store of the flag, `latest`
is the configuration written last, at the start or by a save; `statusPeriod` is
`kStatusPeriodMs` in ticks. -/
structure N2kBridge (τ : Type) where
  relayBank : Byte
  inputBank : Byte
  inputsOn : Bool
  relayMask : Mask
  inputsReady : Bool
  inputMask : Mask
  owes : τ → Bool
  changed : Bool
  alerts : N2kAlerts
  pendingCfg : AlertsCfg
  owesCfg : τ → Bool
  cfgChanged : Bool
  latest : AlertsCfg
  pc : N2kPc
  statusPeriod : BitVec 32
  lastStatus : BitVec 32
  bus : List BusMsg

/-- What other tasks do. A message that the NMEA 2000 task has parsed may
switch relays, which is such a task's doing here. -/
inductive TaskOp where
  | setRelays (mask : Mask)
  | setInputs (mask : Mask)
  | inputsBecomeReady
  | stateChanged
  | writeConfig (bank : BankCfg)
  | configChanged

inductive N2kAction (τ : Type) where
  | task (t : τ) (op : TaskOp)
  | response (data : List Byte)
  | n2kTask (isOpen : Bool) (now : BitVec 32)

namespace N2kBridge

variable {τ : Type}

/-- `n2k_bridge_start`, with the readings as they are then. -/
def n2kBridgeStart (bank : BankCfg) (sourceName : IsoName) (now : Ms) (relayMask : Mask)
    (inputsReady : Bool) (inputMask : Mask) (statusPeriod : BitVec 32) : N2kBridge τ where
  relayBank := bank.bankId
  inputBank := bank.inputBankId
  inputsOn := inputBankUsable bank
  relayMask := relayMask
  inputsReady := inputsReady
  inputMask := inputMask
  owes := fun _ => false
  changed := true
  alerts := N2kAlerts.n2kAlertsInit (n2kAlertsCfgFrom bank) bank.inputBankId sourceName now
  pendingCfg := ⟨false, false, fun _ => .off, fun _ => []⟩
  owesCfg := fun _ => false
  cfgChanged := false
  latest := n2kAlertsCfgFrom bank
  pc := .parseMessages
  statusPeriod := statusPeriod
  lastStatus := 0
  bus := []

/-- `s.pending_cfg = c` of `n2k_bridge_update_config`; the input bank's use is
that of the start. -/
def runningCfg (s : N2kBridge τ) (bank : BankCfg) : AlertsCfg :=
  { n2kAlertsCfgFrom bank with inputsOn := s.inputsOn }

/-- `configChanged` ends an `n2k_bridge_update_config`, which has written. -/
def taskStep [DecidableEq τ] (t : τ) (op : TaskOp) (s : N2kBridge τ) : N2kBridge τ :=
  match op with
  | .setRelays mask => { s with relayMask := mask, owes := Function.update s.owes t true }
  | .setInputs mask => { s with inputMask := mask, owes := Function.update s.owes t true }
  | .inputsBecomeReady => { s with inputsReady := true, owes := Function.update s.owes t true }
  | .stateChanged => { s with changed := true, owes := Function.update s.owes t false }
  | .writeConfig bank =>
    { s with
      pendingCfg := s.runningCfg bank
      latest := s.runningCfg bank
      owesCfg := Function.update s.owesCfg t true }
  | .configChanged =>
    if s.owesCfg t then
      { s with cfgChanged := true, owesCfg := Function.update s.owesCfg t false }
    else s

/-- `send_status`. -/
def sendStatus (inst : Byte) (mask : Mask) (s : N2kBridge τ) : N2kBridge τ :=
  { s with
    bus := s.bus ++ [.status (switchBankEncodeStatus inst (mask.setWidth 32) boardChannels)] }

/-- One step of `n2k_task`. -/
def n2kStep (isOpen : Bool) (now : BitVec 32) (s : N2kBridge τ) : N2kBridge τ :=
  match s.pc with
  | .parseMessages => { s with pc := if isOpen then .exchangeChanged else .parseMessages }
  | .exchangeChanged =>
    if s.changed || s.statusPeriod ≤ now - s.lastStatus then
      { s with changed := false, lastStatus := now, pc := .readRelays }
    else { s with changed := false, pc := .exchangeCfg }
  | .readRelays => { s with pc := .sendRelays s.relayMask }
  | .sendRelays mask => { s.sendStatus s.relayBank mask with pc := .readReady }
  | .readReady => { s with pc := if s.inputsOn && s.inputsReady then .readInputs else .exchangeCfg }
  | .readInputs => { s with pc := .sendInputs s.inputMask }
  | .sendInputs mask => { s.sendStatus s.inputBank mask with pc := .exchangeCfg }
  | .exchangeCfg => { s with cfgChanged := false, pc := if s.cfgChanged then .copyCfg else .tick }
  | .copyCfg => { s with alerts := s.alerts.n2kAlertsSetConfig s.pendingCfg, pc := .tick }
  | .tick => { s with pc := .tickInputs s.inputsReady }
  | .tickInputs inputsReady =>
    let ticked := s.alerts.n2kAlertsTick inputsReady s.inputMask now
    { s with alerts := ticked.1, bus := s.bus ++ ticked.2.map .alert, pc := .parseMessages }

def step [DecidableEq τ] (s : N2kBridge τ) : N2kAction τ → N2kBridge τ
  | .task t op => s.taskStep t op
  | .response data =>
    if s.pc = .parseMessages then { s with alerts := (s.alerts.n2kAlertsOnResponse data).2 } else s
  | .n2kTask isOpen now => s.n2kStep isOpen now

end N2kBridge

end RelayBoard
