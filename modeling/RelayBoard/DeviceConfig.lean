import Mathlib.Data.Fintype.Pi
import RelayBoard.Lib.Bits

/-!
# Settings

The part of `device_config_t` that relay control and the SignalK-loss timer
act on. A relay's `interlock` is the effective partner which
`device_config_load` derives, 1 to 8 with 0 for none; `Loaded` states what
that function and the settings schema promise of every struct they fill.
-/

set_option autoImplicit false

namespace RelayBoard

/-- `BOARD_CHANNELS`; index 0 is relay 1. -/
abbrev Channel := Fin 8

theorem index_lt {channel : ℕ} (h : 1 ≤ channel ∧ channel ≤ 8) : channel - 1 < 8 := by omega

theorem index_lt_of_not {channel : ℕ} (h : ¬(channel < 1 ∨ 8 < channel)) : channel - 1 < 8 := by
  omega

theorem exists_index {channel : ℕ} (h : ¬(channel < 1 ∨ 8 < channel)) :
    ∃ i : Channel, channel = i.val + 1 :=
  ⟨⟨channel - 1, index_lt_of_not h⟩, by simp only; omega⟩

/-- One bit for each relay, the `uint8_t` masks of the source. -/
abbrev Mask := BitVec 8

/-- Milliseconds as the `uint32_t` clock and the settings hold them. -/
abbrev Ms := BitVec 32

inductive RelayMode where
  | latching
  | momentary
  deriving DecidableEq, Repr

inductive FailsafePolicy where
  | defaultSafe
  | hold
  deriving DecidableEq, Repr

structure RelayCfg where
  mode : RelayMode
  pulseMs : Ms
  failsafe : FailsafePolicy
  wiredNc : Bool
  maxOnS : BitVec 32
  interlock : ℕ
  deriving DecidableEq, Repr

structure DeviceConfig where
  relays : Channel → RelayCfg
  interlockDeadMs : Ms
  skLossGraceS : BitVec 16
  publishSwitchesTree : Bool
  publishControlsTree : Bool
  deriving DecidableEq

/-- Momentary relays always behave as default-safe, whatever is stored. -/
def effectiveFailsafe (relay : RelayCfg) : FailsafePolicy :=
  if relay.mode = .momentary then .defaultSafe else relay.failsafe

def RelayCfg.zero : RelayCfg := ⟨.latching, 0, .defaultSafe, false, 0, 0⟩

def DeviceConfig.zero : DeviceConfig := ⟨fun _ => .zero, 0, 0, false, false⟩

def RelayCfg.schemaDefault : RelayCfg := ⟨.latching, 1000#32, .defaultSafe, false, 0#32, 0⟩

def DeviceConfig.schemaDefault : DeviceConfig :=
  ⟨fun _ => .schemaDefault, 100#32, 30#16, true, false⟩

def DeviceConfig.modifyRelay (cfg : DeviceConfig) (n : ℕ) (f : RelayCfg → RelayCfg) :
    DeviceConfig :=
  { cfg with relays := fun i => if i.val + 1 = n then f (cfg.relays i) else cfg.relays i }

def DeviceConfig.pair (cfg : DeviceConfig) (m n : ℕ) : DeviceConfig :=
  (cfg.modifyRelay m fun r => { r with interlock := n }).modifyRelay n
    fun r => { r with interlock := m }

/-- Relay `j` is the partner named in relay `i`'s effective setting. -/
def Partner (cfg : DeviceConfig) (i j : Channel) : Prop := (cfg.relays i).interlock = j.val + 1

instance (cfg : DeviceConfig) (i j : Channel) : Decidable (Partner cfg i j) :=
  inferInstanceAs (Decidable (_ = _))

/-- The interlock pairs name each other and no relay names itself. -/
structure Paired (cfg : DeviceConfig) : Prop where
  symm : ∀ i j, Partner cfg i j → Partner cfg j i
  irrefl : ∀ i, ¬Partner cfg i i

instance (cfg : DeviceConfig) : Decidable (Paired cfg) :=
  decidable_of_iff ((∀ i j, Partner cfg i j → Partner cfg j i) ∧ ∀ i, ¬Partner cfg i i)
    ⟨fun ⟨a, b⟩ => ⟨a, b⟩, fun ⟨a, b⟩ => ⟨a, b⟩⟩

/-- What every loaded configuration satisfies: the interlocks are pairs, and
`max_on_s` is within its schema bound. -/
structure Loaded (cfg : DeviceConfig) : Prop extends Paired cfg where
  maxOn : ∀ i, (cfg.relays i).maxOnS.toNat ≤ 86400

instance (cfg : DeviceConfig) : Decidable (Loaded cfg) :=
  decidable_of_iff (Paired cfg ∧ ∀ i, (cfg.relays i).maxOnS.toNat ≤ 86400)
    ⟨fun ⟨a, b⟩ => ⟨a, b⟩, fun ⟨a, b⟩ => ⟨a, b⟩⟩

theorem partner_unique {cfg : DeviceConfig} {i j k : Channel} (hj : Partner cfg i j)
    (hk : Partner cfg i k) : j = k := by
  unfold Partner at hj hk
  exact Fin.ext (by omega)

end RelayBoard
