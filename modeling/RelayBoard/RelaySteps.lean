import RelayBoard.RelayFrames

/-!
# What one call can do

Every call after the first `relay_ctrl_init` is, for each relay, one of a few
sequences of events, and it keeps a steady state steady. The set and toggle
commands share one function and are treated as one.
-/

set_option autoImplicit false

namespace RelayBoard
open BitVec Lib.Loops Lib.Runs Lib.Clock Relay

/-- What `set_or_toggle` is asked to do; no value is a toggle. -/
structure Command where
  channel : ℕ
  onReq : Option Bool
  src : RelaySource

def Op.command : Op → Option Command
  | .set channel on src => some ⟨channel, some on, src⟩
  | .toggle channel src => some ⟨channel, none, src⟩
  | _ => none

def Op.commandTo (op : Op) (i : Channel) : Option Command :=
  op.command.filter fun k => k.channel = i.val + 1

def command (i : Channel) (k : Command) (w : World) : EspResult Unit × World :=
  if coilRequest i k.onReq w.s then coilOn i k.src w else coilOff i w

theorem command_wrote (i : Channel) (k : Command) (w : World) : Wrote w (command i k w).2 := by
  unfold command
  split_ifs
  · exact coilOn_wrote i k.src w
  · exact coilOff_wrote i w

theorem setOrToggle_channel (i : Channel) (onReq : Option Bool) (src : RelaySource) (w : World) :
    setOrToggle (i.val + 1) onReq src w =
      ((command i ⟨i.val + 1, onReq, src⟩ w).1, (command i ⟨i.val + 1, onReq, src⟩ w).2,
        notify (w.s.mask ^^^ wiredNcMask (command i ⟨i.val + 1, onReq, src⟩ w).2.s.cfg)
          ((command i ⟨i.val + 1, onReq, src⟩ w).2.s.mask ^^^
            wiredNcMask (command i ⟨i.val + 1, onReq, src⟩ w).2.s.cfg) src) := by
  have hi := i.isLt
  rw [setOrToggle, dif_neg (by omega)]
  rfl

theorem perform_command (op : Op) (k : Command) (w : World) (h : op.command = some k) :
    (∃ i : Channel, op.commandTo i = some k ∧ k.channel = i.val + 1 ∧
      perform op w = ⟨(command i k w).1,
        notify (w.s.mask ^^^ wiredNcMask (command i k w).2.s.cfg)
          ((command i k w).2.s.mask ^^^ wiredNcMask (command i k w).2.s.cfg) k.src,
        (command i k w).2⟩) ∨
    ((∀ i, op.commandTo i = none) ∧ perform op w = ⟨.error .invalidArg, [], w⟩) := by
  have hset : perform op w = ⟨(setOrToggle k.channel k.onReq k.src w).1,
      (setOrToggle k.channel k.onReq k.src w).2.2,
      (setOrToggle k.channel k.onReq k.src w).2.1⟩ := by
    cases op with
    | set channel on src => cases h; rfl
    | toggle channel src => cases h; rfl
    | init cfg => cases h
    | tick => cases h
    | skLost => cases h
    | updateConfig cfg => cases h
  obtain ⟨channel, onReq, src⟩ := k
  by_cases hc : channel < 1 ∨ 8 < channel
  · right
    constructor
    · intro i
      have hi := i.isLt
      simp [Op.commandTo, h]
      omega
    · rw [hset, setOrToggle, dif_pos hc]
  · left
    obtain ⟨i, rfl⟩ := exists_index hc
    refine ⟨i, by simp [Op.commandTo, h], rfl, ?_⟩
    rw [hset, setOrToggle_channel]

theorem commandTo_eq_some {op : Op} {i : Channel} {k : Command} (h : op.commandTo i = some k) :
    op.command = some k ∧ k.channel = i.val + 1 := by
  rw [Op.commandTo, Option.filter_eq_some_iff] at h
  exact ⟨h.1, by simpa using h.2⟩

theorem perform_commandTo {op : Op} {i : Channel} {k : Command} (w : World)
    (h : op.commandTo i = some k) : perform op w = ⟨(command i k w).1,
      notify (w.s.mask ^^^ wiredNcMask (command i k w).2.s.cfg)
        ((command i k w).2.s.mask ^^^ wiredNcMask (command i k w).2.s.cfg) k.src,
      (command i k w).2⟩ := by
  obtain ⟨hk, hch⟩ := commandTo_eq_some h
  rcases perform_command op k w hk with ⟨j, -, hj, hp⟩ | ⟨hnone, -⟩
  · obtain rfl : i = j := Fin.ext (by omega)
    exact hp
  · rw [hnone i] at h
    cases h

/-- What a command to relay `i` does to relay `j`. -/
def commandEvents (i : Channel) (k : Command) (w : World) (j : Channel) : List Event :=
  let r := command i k w
  if !coilRequest i k.onReq w.s then
    cancelled (single i) j ++ dropped w.s.mask r.2.s.mask j
  else if !r.1.isOk then []
  else if PartnerOn w.s.cfg w.s.mask i then
    cancelled (interlockPartnerBit w.s.cfg i) j ++ dropped w.s.mask r.2.s.mask j ++
      (if j = i then [.defer w.s.cfg.interlockDeadMs k.src] else [])
  else if w.s.pendingOn.has i then []
  else (if j = i then [.on] else []) ++ cancelled (interlockPartnerBit w.s.cfg i) j

def timedOut (w : World) : World := expireMaxOn (endPulses w)

def fired (w : World) : Mask := (firePending (timedOut w)).1

def tickEvents (w : World) (i : Channel) : List Event :=
  dropped w.s.mask (endPulses w).s.mask i ++
    dropped (endPulses w).s.mask (timedOut w).s.mask i ++
    if (fired w).has i then [.cancel, .on]
    else if (timedOut w).s.due (nowMs w.env) i &&
      PartnerOn (timedOut w).s.cfg (timedOut w).s.mask i then [.cancel]
    else []

def skLostEvents (w : World) (i : Channel) : List Event :=
  dropped w.s.mask (relayCtrlSkLost w).1.s.mask i ++ cancelled (~~~holdMask w.s.cfg) i

def updateEvents (cfg : DeviceConfig) (w : World) (i : Channel) : List Event :=
  .reconfigure (cfg.relays i) ::
    if w.s.mask.has i && !(relayCtrlUpdateConfig cfg w).1.s.mask.has i then [.cancel, .off] else []

theorem timedOut_acts (w : World) (h : w.s.Steady) : Acts w (timedOut w) (fun i =>
    dropped w.s.mask (endPulses w).s.mask i ++
      dropped (endPulses w).s.mask (timedOut w).s.mask i) :=
  (endPulses_acts w h).trans (expireMaxOn_acts _ ((endPulses_acts w h).steady h))

theorem timedOut_due (w : World) (now : Ms) (i : Channel) :
    (timedOut w).s.due now i = w.s.due now i := by
  have hpulses : (endPulses w).s.due now i = w.s.due now i := by
    obtain ⟨ended, env, -, -, ⟨fault, hc⟩ | ⟨-, hc⟩⟩ := endPulses_spec w <;> rw [hc] <;> rfl
  rw [← hpulses]
  obtain ⟨expired, env, -, -, ⟨fault, hc⟩ | ⟨-, hc⟩⟩ := expireMaxOn_spec (endPulses w) <;>
    rw [timedOut, hc] <;> rfl

section Timers

variable {w : World} {i : Channel}

theorem endPulses_keeps (hon : w.s.mask.has i = true)
    (hdue : (w.s.pulsing.has i && deadlinePassed (nowMs w.env) (w.s.pulseEnd i)) = false) :
    (endPulses w).s.mask.has i = true := by
  obtain ⟨ended, env, hended, -, ⟨fault, hc⟩ | ⟨-, hc⟩⟩ := endPulses_spec w <;> rw [hc]
  · change (w.s.mask &&& ~~~ended).has i = true
    rw [has_and, has_not, hon, hended, hdue]
    rfl
  · exact hon

theorem expireMaxOn_keeps (hon : w.s.mask.has i = true)
    (hdue : (w.s.limited.has i && deadlinePassed (nowMs w.env) (w.s.maxOnEnd i)) = false) :
    (expireMaxOn w).s.mask.has i = true := by
  obtain ⟨expired, env, hexpired, -, ⟨fault, hc⟩ | ⟨-, hc⟩⟩ := expireMaxOn_spec w <;> rw [hc]
  · change (w.s.mask &&& ~~~expired).has i = true
    rw [has_and, has_not, hon, hexpired, hdue]
    rfl
  · exact hon

theorem endPulses_limits (w : World) :
    (endPulses w).s.limited = w.s.limited ∧ (endPulses w).s.maxOnEnd = w.s.maxOnEnd := by
  obtain ⟨ended, env, -, -, ⟨fault, hc⟩ | ⟨-, hc⟩⟩ := endPulses_spec w <;> rw [hc]
  · exact ⟨rfl, rfl⟩
  · exact ⟨rfl, rfl⟩

end Timers

theorem command_acts (i : Channel) (k : Command) (w : World) (h : w.s.Steady) :
    Acts w (command i k w).2 (commandEvents i k w) := by
  unfold commandEvents
  cases hreq : coilRequest i k.onReq w.s
  · have hoff : command i k w = coilOff i w := by rw [command, hreq]; rfl
    rw [hoff]
    exact coilOff_acts i w h
  · have hon : command i k w = coilOn i k.src w := by rw [command, hreq]; rfl
    rw [hon]
    exact coilOn_acts i k.src w h

theorem tick_acts (w : World) (h : w.s.Steady) : Acts w (relayCtrlTick w).1 (tickEvents w) := by
  have ht := timedOut_acts w h
  have hf := firePending_acts (timedOut w) (ht.steady h)
  rw [tick_world]
  refine (ht.trans (hf.trans (saveHold_acts _))).congr (fun i => ?_)
  rw [List.append_nil, ht.clock]
  rfl

theorem updateConfig_acts (cfg : DeviceConfig) (w : World) (h : w.s.Steady) :
    Acts w (relayCtrlUpdateConfig cfg w).1 (updateEvents cfg w) := by
  have ha := applyConfig_acts cfg w h
  have hr := resolveConflict_acts _ (ha.steady h)
  unfold updateEvents
  rw [updateConfig_world]
  rw [applyConfig_mask] at hr
  exact ha.trans hr

def setOrToggleEvents (channel : ℕ) (onReq : Option Bool) (src : RelaySource) (w : World)
    (j : Channel) : List Event :=
  if h : 1 ≤ channel ∧ channel ≤ 8 then
    commandEvents ⟨channel - 1, index_lt h⟩ ⟨channel, onReq, src⟩ w j
  else []

theorem setOrToggle_acts (channel : ℕ) (onReq : Option Bool) (src : RelaySource) (w : World)
    (h : w.s.Steady) :
    Acts w (setOrToggle channel onReq src w).2.1 (setOrToggleEvents channel onReq src w) := by
  unfold setOrToggle setOrToggleEvents
  by_cases hc : channel < 1 ∨ 8 < channel
  · rw [dif_pos hc]
    refine (Acts.same rfl (fun _ => rfl)).congr (fun j => ?_)
    rw [dif_neg (by omega)]
  · rw [dif_neg hc]
    refine (command_acts ⟨channel - 1, by omega⟩ ⟨channel, onReq, src⟩ w h).congr (fun j => ?_)
    rw [dif_pos (by omega)]

theorem setOrToggle_wrote (channel : ℕ) (onReq : Option Bool) (src : RelaySource) (w : World) :
    Wrote w (setOrToggle channel onReq src w).2.1 := by
  by_cases hc : channel < 1 ∨ 8 < channel
  · rw [setOrToggle, dif_pos hc]
    exact .refl w
  · obtain ⟨i, rfl⟩ := exists_index hc
    rw [setOrToggle_channel]
    exact command_wrote i _ w

theorem timedOut_moved (w : World) : Moved w (timedOut w) :=
  (endPulses_wrote w).toMoved.trans (expireMaxOn_wrote _).toMoved

theorem fired_moved (w : World) : Moved w (firePending (timedOut w)).2 :=
  (timedOut_moved w).trans (firePending_wrote _).toMoved

def Op.config (op : Op) (cfg : DeviceConfig) : DeviceConfig :=
  match op with
  | .updateConfig new => new
  | _ => cfg

theorem tick_cfg (w : World) : (relayCtrlTick w).1.s.cfg = w.s.cfg := by
  rw [tick_world, saveHold_cfg]
  exact (fired_moved w).cfg

theorem step_cfg (w : World) (c : Call) (hop : c.op.running = true) :
    (step w c).s.cfg = c.op.config w.s.cfg := by
  obtain ⟨op, time, faults, saveErr⟩ := c
  cases op with
  | init cfg => cases hop
  | set channel on src => exact (setOrToggle_wrote channel (some on) src _).cfg
  | toggle channel src => exact (setOrToggle_wrote channel none src _).cfg
  | tick => exact tick_cfg _
  | skLost => exact (skLost_wrote _).cfg
  | updateConfig cfg =>
    exact (resolveConflict_wrote (applyConfig cfg _)).cfg.trans (applyConfig_cfg cfg _)

/-- What a call does to relay `j`, as events of the abstract relay. -/
def effects (op : Op) (w : World) (j : Channel) : List Event :=
  match op with
  | .init _ => []
  | .set channel on src => setOrToggleEvents channel (some on) src w j
  | .toggle channel src => setOrToggleEvents channel none src w j
  | .tick => tickEvents w j
  | .skLost => skLostEvents w j
  | .updateConfig cfg => updateEvents cfg w j

/-- Relay control refines eight abstract relays. -/
theorem perform_acts (op : Op) (hop : op.running = true) (w : World) (h : w.s.Steady) :
    Acts w (perform op w).world (effects op w) := by
  cases op with
  | init cfg => cases hop
  | set channel on src => exact setOrToggle_acts channel (some on) src w h
  | toggle channel src => exact setOrToggle_acts channel none src w h
  | tick => exact tick_acts w h
  | skLost => exact skLost_acts w h
  | updateConfig cfg => exact updateConfig_acts cfg w h

theorem step_acts (w : World) (c : Call) (hop : c.op.running = true) (h : w.s.Steady) :
    Acts (w.begin c) (step w c) (effects c.op (w.begin c)) :=
  perform_acts c.op hop (w.begin c) h

theorem step_relay (w : World) (c : Call) (hop : c.op.running = true) (h : w.s.Steady)
    (i : Channel) : (step w c).s.relay i =
      (w.s.relay i).applyAll (reading 32 c.time) (effects c.op (w.begin c) i) :=
  (step_acts w c hop h).relay i

theorem step_steady (w : World) (c : Call) (hop : c.op.running = true) (h : w.s.Steady) :
    (step w c).s.Steady := (step_acts w c hop h).steady h

end RelayBoard
