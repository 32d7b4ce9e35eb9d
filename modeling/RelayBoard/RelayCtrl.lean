import RelayBoard.Expander
import RelayBoard.Lib.Clock

/-!
# Relay control

The functions of `relay_ctrl.c` as state passing over a `World`: the static
struct `s` together with the devices behind its function pointers. Masks are
coil levels throughout; `wiredNc` enters only where a command is taken and
where a state is reported. Each function returns the calls it makes to a
registered listener, in order.
-/

set_option autoImplicit false

namespace RelayBoard
open BitVec Lib.Loops

inductive RelaySource where
  | sk
  | n2k
  | input
  | pulseEnd
  | failsafe
  | web
  | maxOn
  | interlock
  | schedule
  deriving DecidableEq, Repr

/-- The static struct `s`, less the lock, the device pointers and the listener
table. -/
structure St where
  cfg : DeviceConfig
  mask : Mask
  pulsing : Mask
  pulseEnd : Channel → Ms
  limited : Mask
  maxOnEnd : Channel → Ms
  pendingOn : Mask
  pendingOnEnd : Channel → Ms
  pendingOnSrc : Channel → RelaySource
  savePending : Bool
  lastSaveMs : Ms
  i2cFault : Bool

structure World where
  s : St
  env : Env

/-- Static storage before the first `relay_ctrl_init`. -/
def St.zero : St :=
  ⟨.zero, 0, 0, fun _ => 0, 0, fun _ => 0, 0, fun _ => 0, fun _ => .sk, false, 0, false⟩

/-- One call `cb(relay + 1, on, src, mask, arg)` of a registered listener. -/
structure Notice where
  relay : Channel
  on : Bool
  src : RelaySource
  mask : Mask
  deriving DecidableEq, Repr

/-- `BOARD_RELAY_ACTIVE_HIGH`. -/
def relayActiveHigh : Bool := true

/-- `RELAY_CTRL_SAVE_DELAY_MS`. -/
def relayCtrlSaveDelayMs : Ms := 5000#32

def toReg (mask : Mask) : Mask := if relayActiveHigh then mask else ~~~mask

def fromReg (reg : Mask) : Mask := if relayActiveHigh then reg else ~~~reg

def isMomentary (cfg : DeviceConfig) (i : Channel) : Bool := (cfg.relays i).mode = .momentary

def holdMask (cfg : DeviceConfig) : Mask :=
  collect fun i => effectiveFailsafe (cfg.relays i) = .hold

def wiredNcMask (cfg : DeviceConfig) : Mask := collect fun i => (cfg.relays i).wiredNc

/-- Maximum on-time in ms, 0 for none. Momentary relays end by themselves. -/
def maxOnMs (cfg : DeviceConfig) (i : Channel) : Ms :=
  if isMomentary cfg i then 0#32 else (cfg.relays i).maxOnS * 1000#32

def interlockPartnerBit (cfg : DeviceConfig) (i : Channel) : Mask :=
  let p := (cfg.relays i).interlock
  if p = 0 then 0#8 else twoPow 8 (p - 1)

/-- The mask without the pairs that are on together, and their bits. -/
def clearInterlockConflicts (cfg : DeviceConfig) (mask : Mask) : Mask × Mask :=
  forEach (fun i out =>
    let partnerBit := interlockPartnerBit cfg i
    if partnerBit ≠ 0#8 ∧ mask.has i ∧ mask &&& partnerBit ≠ 0#8 then
      (out.1 &&& ~~~single i, out.2 ||| single i)
    else out) (mask, 0#8)

def reportInterlockHealth (conflict : Mask) (w : World) : World :=
  if conflict = 0#8 then { w with env := healthReport .interlockBothOn .normal w.env }
  else
    let list := ", ".intercalate
      (((List.finRange 8).filter fun i => conflict.has i).map fun i => toString (i.val + 1))
    let msg := "Relay " ++ list ++ ": both interlocked coils were on; switched off"
    { w with env := healthReport .interlockBothOn (.warn msg) w.env }

def deadlinePassed (now deadline : Ms) : Bool := Lib.Clock.passed now deadline

def reportFault (err : EspErr) (w : World) : World :=
  let msg := "Relay expander not responding (" ++ err.name ++ "); relay state may be wrong"
  { s := { w.s with i2cFault := true }
    env := healthReport .relayExpander (.alarm msg) w.env }

/-- Write `target` to the chip, with one retry. On success it becomes `s.mask`. -/
def commitLocked (target : Mask) (w : World) : EspResult Unit × World :=
  if target = w.s.mask then (.ok (), w)
  else
    let first := tca9554WriteOutputs (toReg target) w.env
    let last := match first.1 with
      | .ok _ => first
      | .error _ => tca9554WriteOutputs (toReg target) first.2
    match last.1 with
    | .error err => (.error err, reportFault err { w with env := last.2 })
    | .ok _ =>
      (.ok (),
        { s := { w.s with
            i2cFault := false
            savePending := w.s.savePending || (target ^^^ w.s.mask) &&& holdMask w.s.cfg ≠ 0#8
            mask := target }
          env := if w.s.i2cFault then healthReport .relayExpander .normal last.2 else last.2 })

/-- The body of the loop in `track_max_on_locked`. -/
def trackMaxOn (now : Ms) (before restart : Mask) (i : Channel) (s : St) : St :=
  if !s.mask.has i || maxOnMs s.cfg i = 0#32 then
    { s with limited := s.limited &&& ~~~single i }
  else if !before.has i || restart.has i then
    { s with
      maxOnEnd := Function.update s.maxOnEnd i (now + maxOnMs s.cfg i)
      limited := s.limited ||| single i }
  else s

def trackMaxOnLocked (before restart : Mask) (w : World) : World :=
  { w with s := forEach (trackMaxOn (nowMs w.env) before restart) w.s }

def notifyBits (changed after : Mask) (src : RelaySource) : List Notice :=
  ((List.finRange 8).filter fun i => changed.has i).map fun i => ⟨i, after.has i, src, after⟩

def notify (before after : Mask) (src : RelaySource) : List Notice :=
  notifyBits (before ^^^ after) after src

/-- What a boot starts from: the chip's outputs if the expander kept its
set-up, else the stored hold mask, or nothing. -/
def bootHeld (warm : Bool) (env : Env) : EspResult Mask × Env :=
  if warm then
    match tca9554ReadOutputs env with
    | (.error e, env) => (.error e, env)
    | (.ok reg, env) => (.ok (fromReg reg), env)
  else
    match storeLoad env with
    | .ok held => (.ok held, env)
    | .error _ => (.ok 0#8, env)

def relayCtrlInit (cfg : DeviceConfig) (w : World) : EspResult Unit × World :=
  let s := { w.s with
    cfg := cfg
    pulsing := 0#8
    limited := 0#8
    pendingOn := 0#8
    savePending := false
    lastSaveMs := nowMs w.env - relayCtrlSaveDelayMs }
  -- An error from here on leaves the mask of before with its timers gone.
  match tca9554AllOutputs w.env with
  | (.error e, env) => (.error e, reportFault e ⟨s, env⟩)
  | (.ok warm, env) =>
    match bootHeld warm env with
    | (.error e, env) => (.error e, reportFault e ⟨s, env⟩)
    | (.ok held, env) =>
      let boot := clearInterlockConflicts cfg (held &&& holdMask cfg)
      match if warm then tca9554WriteOutputs (toReg boot.1) env
          else tca9554InitOutputs (toReg boot.1) env with
      | (.error e, env) => (.error e, reportFault e ⟨s, env⟩)
      | (.ok _, env) =>
        let w := trackMaxOnLocked 0#8 0#8 ⟨{ s with mask := boot.1 }, env⟩
        let w := { w with s.savePending := warm || boot.2 ≠ 0#8 }
        (.ok (), reportInterlockHealth boot.2 w)

def startPulse (now : Ms) (i : Channel) (s : St) : St :=
  { s with
    pulseEnd := Function.update s.pulseEnd i (now + (s.cfg.relays i).pulseMs)
    pulsing := s.pulsing ||| single i }

/-- The body of the first loop in `relay_ctrl_update_config`: a relay that is
now latching drops its pulse, one that became momentary while on starts it. -/
def remode (now : Ms) (i : Channel) (s : St) : St :=
  if !isMomentary s.cfg i then { s with pulsing := s.pulsing &&& ~~~single i }
  else if s.mask.has i && !s.pulsing.has i then startPulse now i s
  else s

/-- `relay_ctrl_update_config` up to the max on-time timers. -/
def applyConfig (cfg : DeviceConfig) (w : World) : World :=
  let oldHold := holdMask w.s.cfg
  let oldLimit := maxOnMs w.s.cfg
  let s := forEach (remode (nowMs w.env)) { w.s with cfg := cfg }
  let s := { s with savePending := s.savePending || holdMask cfg ≠ oldHold }
  let changedLimit : Mask := collect fun i => maxOnMs cfg i ≠ oldLimit i
  trackMaxOnLocked s.mask changedLimit ⟨s, w.env⟩

/-- The rest of `relay_ctrl_update_config`: both coils of a pair found on
together go off. -/
def resolveConflict (w : World) : World :=
  let before := w.s.mask
  let conflict := (clearInterlockConflicts w.s.cfg w.s.mask).2
  if conflict ≠ 0#8 then
    match commitLocked (w.s.mask &&& ~~~conflict) w with
    | (.ok _, w) =>
      let w := { w with s := { w.s with
        pulsing := w.s.pulsing &&& ~~~conflict
        pendingOn := w.s.pendingOn &&& ~~~conflict } }
      reportInterlockHealth conflict (trackMaxOnLocked before 0#8 w)
    | (.error _, w) => reportInterlockHealth 0#8 w
  else reportInterlockHealth 0#8 w

def relayCtrlUpdateConfig (cfg : DeviceConfig) (w : World) : World × List Notice :=
  let before := w.s.mask
  let w := resolveConflict (applyConfig cfg w)
  let wnc := wiredNcMask w.s.cfg
  (w, notify (before ^^^ wnc) (w.s.mask ^^^ wnc) .interlock)

/-- The off branch of `set_or_toggle`. It always cancels the channel's own
pending-on, also when the write then fails. -/
def coilOff (i : Channel) (w : World) : EspResult Unit × World :=
  let before := w.s.mask
  let w := { w with s.pendingOn := w.s.pendingOn &&& ~~~single i }
  match commitLocked (w.s.mask &&& ~~~single i) w with
  | (.ok _, w) =>
    (.ok (), trackMaxOnLocked before 0#8 { w with s.pulsing := w.s.pulsing &&& ~~~single i })
  | (.error e, w) => (.error e, w)

/-- The on branch while the partner's coil is on: that coil goes off now, this
one waits out the dead time. -/
def deferOn (i : Channel) (partnerBit : Mask) (src : RelaySource) (w : World) :
    EspResult Unit × World :=
  let before := w.s.mask
  match commitLocked (w.s.mask &&& ~~~partnerBit) w with
  | (.ok _, w) =>
    let w := trackMaxOnLocked before 0#8 { w with s := { w.s with
      pulsing := w.s.pulsing &&& ~~~partnerBit
      pendingOn := w.s.pendingOn &&& ~~~partnerBit } }
    (.ok (), { w with s := { w.s with
      pendingOn := w.s.pendingOn ||| single i
      pendingOnEnd :=
        Function.update w.s.pendingOnEnd i (nowMs w.env + w.s.cfg.interlockDeadMs)
      pendingOnSrc := Function.update w.s.pendingOnSrc i src } })
  | (.error e, w) => (.error e, w)

/-- The on branch with no conflict and no pending-on of its own. -/
def directOn (i : Channel) (partnerBit : Mask) (w : World) : EspResult Unit × World :=
  let before := w.s.mask
  match commitLocked (w.s.mask ||| single i) w with
  | (.ok _, w) =>
    let w := if isMomentary w.s.cfg i then { w with s := startPulse (nowMs w.env) i w.s } else w
    let w := trackMaxOnLocked before (single i) w
    (.ok (), if partnerBit ≠ 0#8 then
      { w with s.pendingOn := w.s.pendingOn &&& ~~~partnerBit } else w)
  | (.error e, w) => (.error e, w)

def coilOn (i : Channel) (src : RelaySource) (w : World) : EspResult Unit × World :=
  let partnerBit := interlockPartnerBit w.s.cfg i
  if partnerBit ≠ 0#8 ∧ w.s.mask &&& partnerBit ≠ 0#8 then deferOn i partnerBit src w
  else if !w.s.pendingOn.has i then directOn i partnerBit w
  else (.ok (), w)

/-- The coil level a request asks for; no value is a toggle, which flips the
coil itself. -/
def coilRequest (i : Channel) (onReq : Option Bool) (s : St) : Bool :=
  match onReq with
  | none => !s.mask.has i
  | some on => on != (s.cfg.relays i).wiredNc

def setOrToggle (channel : ℕ) (onReq : Option Bool) (src : RelaySource) (w : World) :
    EspResult Unit × World × List Notice :=
  if h : channel < 1 ∨ 8 < channel then (.error .invalidArg, w, [])
  else
    let i : Channel := ⟨channel - 1, index_lt_of_not h⟩
    let before := w.s.mask
    let r := if coilRequest i onReq w.s then coilOn i src w else coilOff i w
    let wnc := wiredNcMask r.2.s.cfg
    (r.1, r.2, notify (before ^^^ wnc) (r.2.s.mask ^^^ wnc) src)

def relayCtrlSet (channel : ℕ) (on : Bool) (src : RelaySource) (w : World) :
    EspResult Unit × World × List Notice := setOrToggle channel (some on) src w

def relayCtrlToggle (channel : ℕ) (src : RelaySource) (w : World) :
    EspResult Unit × World × List Notice := setOrToggle channel none src w

/-- The reported state: the coils, translated for `wiredNc`. -/
def relayCtrlGetMask (s : St) : Mask := s.mask ^^^ wiredNcMask s.cfg

def relayCtrlGet (channel : ℕ) (s : St) : Bool :=
  if h : 1 ≤ channel ∧ channel ≤ 8 then (relayCtrlGetMask s).has ⟨channel - 1, index_lt h⟩
  else false

def relayCtrlSkLost (w : World) : World × List Notice :=
  let before := w.s.mask
  let off := ~~~holdMask w.s.cfg
  let w := match commitLocked (w.s.mask &&& ~~~off) w with
    | (.ok _, w) => trackMaxOnLocked before 0#8 { w with s.pulsing := w.s.pulsing &&& ~~~off }
    | (.error _, w) => w
  let w := { w with s.pendingOn := w.s.pendingOn &&& ~~~off }
  let wnc := wiredNcMask w.s.cfg
  (w, notify (before ^^^ wnc) (w.s.mask ^^^ wnc) .failsafe)

/-- The tick's first part: pulses that have run out. -/
def endPulses (w : World) : World :=
  let now := nowMs w.env
  let ended : Mask := collect fun i => w.s.pulsing.has i && deadlinePassed now (w.s.pulseEnd i)
  if ended ≠ 0#8 then
    match commitLocked (w.s.mask &&& ~~~ended) w with
    | (.ok _, w) => { w with s.pulsing := w.s.pulsing &&& ~~~ended }
    | (.error _, w) => w
  else w

/-- The tick's second part: maximum on-times that have run out. -/
def expireMaxOn (w : World) : World :=
  let now := nowMs w.env
  let expired : Mask := collect fun i => w.s.limited.has i && deadlinePassed now (w.s.maxOnEnd i)
  if expired ≠ 0#8 then
    match commitLocked (w.s.mask &&& ~~~expired) w with
    | (.ok _, w) => { w with s.limited := w.s.limited &&& ~~~expired }
    | (.error _, w) => w
  else w

/-- One pass of the loop that collects the pending-ons to fire. A stale one,
whose partner's coil is on, is dropped instead. -/
def collectFired (now : Ms) (i : Channel) (r : Mask × St) : Mask × St :=
  if !r.2.pendingOn.has i || !deadlinePassed now (r.2.pendingOnEnd i) then r
  else
    let partnerBit := interlockPartnerBit r.2.cfg i
    if partnerBit = 0#8 ∨ r.2.mask &&& partnerBit = 0#8 then (r.1 ||| single i, r.2)
    else (r.1, { r.2 with pendingOn := r.2.pendingOn &&& ~~~single i })

/-- One pass of the loop over the relays whose deferred coil went on. -/
def settleFired (now : Ms) (fired : Mask) (i : Channel) (s : St) : St :=
  if !fired.has i then s
  else
    let s := { s with pendingOn := s.pendingOn &&& ~~~single i }
    if isMomentary s.cfg i then startPulse now i s else s

/-- The tick's third part: dead times that have run out. Returns the relays
whose pending-on was carried out. -/
def firePending (w : World) : Mask × World :=
  let now := nowMs w.env
  let afterMaxOn := w.s.mask
  let due := forEach (collectFired now) (0#8, w.s)
  let fired := due.1
  let w := { w with s := due.2 }
  if fired ≠ 0#8 then
    match commitLocked (w.s.mask ||| fired) w with
    | (.ok _, w) =>
      let w := { w with s := forEach (settleFired now fired) w.s }
      (fired, trackMaxOnLocked afterMaxOn fired w)
    | (.error _, w) => (0#8, w)
  else (0#8, w)

/-- The tick's last part: the hold state goes to flash when due. -/
def saveHold (w : World) : World :=
  let now := nowMs w.env
  if w.s.savePending && relayCtrlSaveDelayMs ≤ now - w.s.lastSaveMs then
    match storeSave (w.s.mask &&& holdMask w.s.cfg) w.env with
    | (.ok _, env) => { s := { w.s with savePending := false, lastSaveMs := now }, env := env }
    | (.error _, env) => { s := { w.s with lastSaveMs := now }, env := env }
  else w

def relayCtrlTick (w : World) : World × List Notice :=
  let before := w.s.mask
  let w := endPulses w
  let afterPulses := w.s.mask
  let w := expireMaxOn w
  let afterMaxOn := w.s.mask
  let firedSrc := w.s.pendingOnSrc
  let r := firePending w
  let fired := r.1
  let afterFired := r.2.s.mask
  let w := saveHold r.2
  let wnc := wiredNcMask w.s.cfg
  (w, notify (before ^^^ wnc) (afterPulses ^^^ wnc) .pulseEnd ++
    notify (afterPulses ^^^ wnc) (afterMaxOn ^^^ wnc) .maxOn ++
    ((List.finRange 8).filter fun i => fired.has i).flatMap fun i =>
      notifyBits (single i) (afterFired ^^^ wnc) (firedSrc i))

end RelayBoard
