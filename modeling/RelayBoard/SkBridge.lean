import RelayBoard.DeviceConfig
import RelayBoard.Lib.Clock

/-!
# The SignalK-loss timer

The part of `sk_bridge.c` that notices a lost connection: a disconnect after a
connection starts an outage, and the first tick after the grace period fires
once for it. The bridge runs with a copy of the settings of its own, of which
a save only renews the grace period.
-/

set_option autoImplicit false

namespace RelayBoard

/-- The static struct of `sk_bridge.c`, less the lock, the functions it is
given and what only publishing uses. -/
structure SkBridge where
  cfg : DeviceConfig
  connectedOnce : Bool
  down : Bool
  lostFired : Bool
  downSince : Ms

/-- Static storage before `sk_bridge_start`. -/
def SkBridge.zero : SkBridge := ⟨.zero, false, false, false, 0#32⟩

def treePublished (cfg : DeviceConfig) : Bool := cfg.publishSwitchesTree || cfg.publishControlsTree

/-- `(uint32_t)s.cfg.sk_loss_grace_s * 1000`. -/
def graceMs (cfg : DeviceConfig) : Ms := cfg.skLossGraceS.setWidth 32 * 1000#32

def skBridgeStart (cfg : DeviceConfig) (b : SkBridge) : SkBridge := { b with cfg := cfg }

/-- Tree toggles need a restart, so the running copy keeps its own. -/
def skBridgeUpdateConfig (cfg : DeviceConfig) (b : SkBridge) : SkBridge :=
  { b with cfg := { b.cfg with skLossGraceS := cfg.skLossGraceS } }

def skBridgeStreamChanged (connected : Bool) (now : Ms) (b : SkBridge) : SkBridge :=
  if connected then { b with connectedOnce := true, down := false }
  else if b.connectedOnce && !b.down then
    { b with down := true, lostFired := false, downSince := now }
  else b

def skLossDue (now : Ms) (b : SkBridge) : Bool :=
  b.down && !b.lostFired && treePublished b.cfg && graceMs b.cfg ≤ now - b.downSince

def skBridgeTick (now : Ms) (b : SkBridge) : Bool × SkBridge :=
  let fire := skLossDue now b
  (fire, if fire then { b with lostFired := true } else b)

/-- The product stays below the wrap for every grace period that a `uint16_t`
holds. -/
theorem graceMs_toNat (cfg : DeviceConfig) :
    (graceMs cfg).toNat = cfg.skLossGraceS.toNat * 1000 := by
  have hlt := cfg.skLossGraceS.isLt
  rw [graceMs, BitVec.toNat_mul, BitVec.toNat_setWidth]
  change cfg.skLossGraceS.toNat % 2 ^ 32 * 1000 % 2 ^ 32 = _
  omega

/-- A tick whose reading finds the grace period over leaves the fail-safe
fired, now or before. -/
theorem skBridgeTick_fired (now : Ms) (b : SkBridge) (hdown : b.down = true)
    (htree : treePublished b.cfg = true) (hgrace : b.lostFired = false →
      graceMs b.cfg ≤ now - b.downSince) : (skBridgeTick now b).2.lostFired = true := by
  unfold skBridgeTick skLossDue
  cases hf : b.lostFired
  · simp [hdown, htree, hgrace hf]
  · simp [hf]

theorem skBridgeTick_keeps (now : Ms) (b : SkBridge) :
    (skBridgeTick now b).2.cfg = b.cfg ∧ (skBridgeTick now b).2.down = b.down ∧
      (skBridgeTick now b).2.downSince = b.downSince ∧
      (skBridgeTick now b).2.connectedOnce = b.connectedOnce := by
  unfold skBridgeTick
  dsimp only
  split_ifs
  · exact ⟨rfl, rfl, rfl, rfl⟩
  · exact ⟨rfl, rfl, rfl, rfl⟩

end RelayBoard
