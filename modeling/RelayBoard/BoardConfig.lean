import RelayBoard.DeviceConfig
import RelayBoard.Text

/-!
# Settings of the switch bank

The part of `device_config_t` that publishing and alerts act on: the bank ids,
the names, and each input's alarm.
-/

set_option autoImplicit false

namespace RelayBoard

/-- `DEVICE_CONFIG_NAME_MAX`. -/
abbrev nameMax : ℕ := 32

inductive InputAlarm where
  | off
  | warn
  | alarm
  | emergency
  deriving DecidableEq, Repr

structure InputCfg where
  name : CStr nameMax
  alarm : InputAlarm
  alarmMsg : CStr nameMax
  deriving DecidableEq

structure BankCfg where
  bankId : Byte
  inputBankId : Byte
  skRepublishS : BitVec 16
  n2kAlerts : Bool
  relayNames : Channel → CStr nameMax
  inputs : Channel → InputCfg
  deriving DecidableEq

structure BoardConfig extends DeviceConfig where
  bank : BankCfg
  deriving DecidableEq

def InputCfg.zero : InputCfg := ⟨.empty nameMax, .off, .empty nameMax⟩

def BankCfg.zero : BankCfg := ⟨0, 0, 0, false, fun _ => .empty nameMax, fun _ => .zero⟩

def BoardConfig.zero : BoardConfig := ⟨.zero, .zero⟩

def BoardConfig.bothTrees : BoardConfig :=
  { DeviceConfig.schemaDefault with publishControlsTree := true, bank := .zero }

/-- `device_config_input_bank_usable`: false when the two banks share an id. -/
def inputBankUsable (bank : BankCfg) : Bool := bank.bankId != bank.inputBankId

/-- The message of an input's alarm in a buffer of `size` bytes: its own, or
"<name> active" when that is empty. -/
def alarmMessage (size : ℕ) (input : InputCfg) : List Byte :=
  if input.alarmMsg.bytes ≠ [] then snprintf size input.alarmMsg.bytes
  else snprintf size (input.name.bytes ++ ascii " active")

def BankCfg.modifyInput (bank : BankCfg) (n : ℕ) (f : InputCfg → InputCfg) : BankCfg :=
  { bank with inputs := fun i => if i.val + 1 = n then f (bank.inputs i) else bank.inputs i }

end RelayBoard
