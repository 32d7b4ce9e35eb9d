import RelayBoard.RelayInit
import RelayBoard.Reports

/-!
# Loads wired to the NC terminal

`wired_nc` is read where a command is taken and where a state is reported, and
nowhere else: erasing it from the settings commutes with everything relay
control does to the coils. Two runs that differ in these flags only, and in
the set values turned around to match, therefore move the same coils.
-/

set_option autoImplicit false

namespace RelayBoard
open BitVec Lib.Loops Lib.Runs

def DeviceConfig.erase (cfg : DeviceConfig) : DeviceConfig :=
  { cfg with relays := fun i => { cfg.relays i with wiredNc := false } }

def St.erase (s : St) : St := { s with cfg := s.cfg.erase }

def World.erase (w : World) : World := { w with s := w.s.erase }

@[simp] theorem erase_mask (w : World) : w.erase.s.mask = w.s.mask := rfl

@[simp] theorem erase_pending (w : World) : w.erase.s.pendingOn = w.s.pendingOn := rfl

@[simp] theorem erase_env (w : World) : w.erase.env = w.env := rfl

@[simp] theorem erase_partner (w : World) (i : Channel) :
    interlockPartnerBit w.erase.s.cfg i = interlockPartnerBit w.s.cfg i := rfl

@[simp] theorem erase_momentary (w : World) (i : Channel) :
    isMomentary w.erase.s.cfg i = isMomentary w.s.cfg i := rfl

@[simp] theorem erase_hold (w : World) : holdMask w.erase.s.cfg = holdMask w.s.cfg := rfl

def Blind (f : World → World) : Prop := ∀ w, f w.erase = (f w).erase

def BlindTo {α : Type} (f : World → α × World) : Prop := ∀ w, f w.erase = ((f w).1, (f w).2.erase)

theorem reportInterlockHealth_blind (conflict : Mask) : Blind (reportInterlockHealth conflict) := by
  intro w
  unfold reportInterlockHealth
  split_ifs
  · rfl
  · rfl

theorem commitLocked_blind (target : Mask) : BlindTo (commitLocked target) := by
  intro w
  unfold commitLocked
  by_cases h : target = w.s.mask
  · rw [if_pos h, if_pos (show target = w.erase.s.mask from h)]
  · rw [if_neg h, if_neg (show target ≠ w.erase.s.mask from h)]
    have henv : w.erase.env = w.env := rfl
    rw [henv]
    rcases hf : tca9554WriteOutputs (toReg target) w.env with ⟨e | _, env⟩
    · dsimp only
      rcases hl : tca9554WriteOutputs (toReg target) env with ⟨e' | _, env'⟩
      · rfl
      · rfl
    · rfl

theorem trackMaxOn_erase (now : Ms) (before restart : Mask) (i : Channel) (s : St) :
    (trackMaxOn now before restart i s).erase = trackMaxOn now before restart i s.erase := by
  have hlimit : maxOnMs s.erase.cfg i = maxOnMs s.cfg i := rfl
  have hmask : s.erase.mask = s.mask := rfl
  unfold trackMaxOn
  rw [hlimit, hmask]
  split_ifs
  · rfl
  · rfl
  · rfl

theorem trackMaxOnLocked_blind (before restart : Mask) :
    Blind (trackMaxOnLocked before restart) := by
  intro w
  have h := forEach_comm _ _ St.erase (trackMaxOn_erase (nowMs w.env) before restart) w.s
  unfold trackMaxOnLocked World.erase
  rw [h]

/-- The two ways a commit goes, with and without the flags. -/
theorem commitLocked_erase (target : Mask) (w : World) :
    (∃ w', commitLocked target w = (.ok (), w') ∧
      commitLocked target w.erase = (.ok (), w'.erase)) ∨
    (∃ e w', commitLocked target w = (.error e, w') ∧
      commitLocked target w.erase = (.error e, w'.erase)) := by
  have h := commitLocked_blind target w
  rcases hc : commitLocked target w with ⟨e | _, w'⟩ <;> rw [hc] at h
  · exact Or.inr ⟨e, w', rfl, h⟩
  · exact Or.inl ⟨w', rfl, h⟩

theorem coilOff_blind (i : Channel) : BlindTo (coilOff i) := by
  intro w
  unfold coilOff
  rcases commitLocked_erase (w.s.mask &&& ~~~single i)
    { w with s.pendingOn := w.s.pendingOn &&& ~~~single i } with ⟨w', h, he⟩ | ⟨e, w', h, he⟩
  · have he' : commitLocked (w.erase.s.mask &&& ~~~single i)
      { w.erase with s.pendingOn := w.erase.s.pendingOn &&& ~~~single i } = (.ok (), w'.erase) := he
    dsimp only
    rw [h, he']
    exact congrArg (Prod.mk _)
      (trackMaxOnLocked_blind w.s.mask 0#8 { w' with s.pulsing := w'.s.pulsing &&& ~~~single i })
  · have he' : commitLocked (w.erase.s.mask &&& ~~~single i)
      { w.erase with s.pendingOn := w.erase.s.pendingOn &&& ~~~single i } =
        (.error e, w'.erase) := he
    dsimp only
    rw [h, he']

theorem deferOn_blind (i : Channel) (partnerBit : Mask) (src : RelaySource) :
    BlindTo (deferOn i partnerBit src) := by
  intro w
  unfold deferOn
  rw [erase_mask]
  rcases commitLocked_erase (w.s.mask &&& ~~~partnerBit) w with ⟨w', h, he⟩ | ⟨e, w', h, he⟩
  · have ht := trackMaxOnLocked_blind w.s.mask 0#8 { w' with s := { w'.s with
      pulsing := w'.s.pulsing &&& ~~~partnerBit
      pendingOn := w'.s.pendingOn &&& ~~~partnerBit } }
    have ht' : trackMaxOnLocked w.s.mask 0#8 { w'.erase with s := { w'.erase.s with
      pulsing := w'.erase.s.pulsing &&& ~~~partnerBit
      pendingOn := w'.erase.s.pendingOn &&& ~~~partnerBit } } = _ := ht
    dsimp only
    rw [h, he]
    dsimp only
    rw [ht']
    rfl
  · dsimp only
    rw [h, he]

theorem directOn_blind (i : Channel) (partnerBit : Mask) : BlindTo (directOn i partnerBit) := by
  intro w
  unfold directOn
  rw [erase_mask]
  rcases commitLocked_erase (w.s.mask ||| single i) w with ⟨w', h, he⟩ | ⟨e, w', h, he⟩
  · dsimp only
    rw [h, he]
    dsimp only
    rw [erase_momentary]
    have hpulse : (if isMomentary w'.s.cfg i = true then
        { w'.erase with s := startPulse (nowMs w'.erase.env) i w'.erase.s } else w'.erase) =
        (if isMomentary w'.s.cfg i = true then
          { w' with s := startPulse (nowMs w'.env) i w'.s } else w').erase := by
      split_ifs
      · rfl
      · rfl
    rw [hpulse, trackMaxOnLocked_blind]
    generalize trackMaxOnLocked _ _ _ = v
    split_ifs
    · rfl
    · rfl
  · dsimp only
    rw [h, he]

theorem coilOn_blind (i : Channel) (src : RelaySource) : BlindTo (coilOn i src) := by
  intro w
  unfold coilOn
  dsimp only
  rw [erase_partner, erase_mask, erase_pending]
  split_ifs
  · exact deferOn_blind i _ src w
  · exact directOn_blind i _ w
  · rfl

theorem endPulses_blind : Blind endPulses := by
  intro w
  unfold endPulses
  dsimp only
  have hended : (collect fun i => w.erase.s.pulsing.has i &&
      deadlinePassed (nowMs w.erase.env) (w.erase.s.pulseEnd i)) =
    (collect fun i => w.s.pulsing.has i && deadlinePassed (nowMs w.env) (w.s.pulseEnd i)) := rfl
  rw [hended, erase_mask]
  generalize (collect fun i =>
    w.s.pulsing.has i && deadlinePassed (nowMs w.env) (w.s.pulseEnd i)) = ended
  split_ifs
  · rcases commitLocked_erase (w.s.mask &&& ~~~ended) w with ⟨w', h, he⟩ | ⟨e, w', h, he⟩
    · rw [h, he]
      rfl
    · rw [h, he]
  · rfl

theorem expireMaxOn_blind : Blind expireMaxOn := by
  intro w
  unfold expireMaxOn
  dsimp only
  have hexpired : (collect fun i => w.erase.s.limited.has i &&
      deadlinePassed (nowMs w.erase.env) (w.erase.s.maxOnEnd i)) =
    (collect fun i => w.s.limited.has i && deadlinePassed (nowMs w.env) (w.s.maxOnEnd i)) := rfl
  rw [hexpired, erase_mask]
  generalize (collect fun i =>
    w.s.limited.has i && deadlinePassed (nowMs w.env) (w.s.maxOnEnd i)) = expired
  split_ifs
  · rcases commitLocked_erase (w.s.mask &&& ~~~expired) w with ⟨w', h, he⟩ | ⟨e, w', h, he⟩
    · rw [h, he]
      rfl
    · rw [h, he]
  · rfl

theorem collectFired_erase (now : Ms) (i : Channel) (r : Mask × St) :
    ((collectFired now i r).1, (collectFired now i r).2.erase) =
      collectFired now i (r.1, r.2.erase) := by
  have hp : interlockPartnerBit r.2.erase.cfg i = interlockPartnerBit r.2.cfg i := rfl
  have hm : r.2.erase.mask = r.2.mask := rfl
  have hd : r.2.erase.pendingOn = r.2.pendingOn := rfl
  have he : r.2.erase.pendingOnEnd = r.2.pendingOnEnd := rfl
  unfold collectFired
  dsimp only
  rw [hp, hm, hd, he]
  split_ifs
  · rfl
  · rfl
  · rfl

theorem settleFired_erase (now : Ms) (fired : Mask) (i : Channel) (s : St) :
    (settleFired now fired i s).erase = settleFired now fired i s.erase := by
  have hm : isMomentary s.erase.cfg i = isMomentary s.cfg i := rfl
  unfold settleFired
  dsimp only
  rw [hm]
  split_ifs
  · rfl
  · rfl
  · rfl

theorem firePending_blind : BlindTo firePending := by
  intro w
  have hdue : forEach (collectFired (nowMs w.env)) (0#8, w.s.erase) =
      ((forEach (collectFired (nowMs w.env)) (0#8, w.s)).1,
        (forEach (collectFired (nowMs w.env)) (0#8, w.s)).2.erase) :=
    (forEach_comm _ _ (fun r : Mask × St => (r.1, r.2.erase))
      (collectFired_erase (nowMs w.env)) (0#8, w.s)).symm
  have hs : w.erase.s = w.s.erase := rfl
  unfold firePending
  dsimp only
  rw [erase_env, hs, hdue]
  dsimp only
  generalize forEach (collectFired (nowMs w.env)) (0#8, w.s) = due
  obtain ⟨fired, s⟩ := due
  dsimp only
  split_ifs
  · rcases commitLocked_erase (s.mask ||| fired) ⟨s, w.env⟩ with ⟨w', h, he⟩ | ⟨e, w', h, he⟩
    · have he' : commitLocked (s.erase.mask ||| fired) ⟨s.erase, w.env⟩ = (.ok (), w'.erase) := he
      have hset : forEach (settleFired (nowMs w.env) fired) w'.s.erase =
          (forEach (settleFired (nowMs w.env) fired) w'.s).erase :=
        (forEach_comm _ _ St.erase (settleFired_erase (nowMs w.env) fired) w'.s).symm
      have hs' : w'.erase.s = w'.s.erase := rfl
      simp only [h, he', hs', hset]
      exact congrArg (Prod.mk _) (trackMaxOnLocked_blind w.s.mask fired
        { w' with s := forEach (settleFired (nowMs w.env) fired) w'.s })
    · have he' : commitLocked (s.erase.mask ||| fired) ⟨s.erase, w.env⟩ =
        (.error e, w'.erase) := he
      simp only [h, he']
  · rfl

theorem saveHold_blind : Blind saveHold := by
  intro w
  have hdue : (w.erase.s.savePending && decide (relayCtrlSaveDelayMs ≤
      nowMs w.erase.env - w.erase.s.lastSaveMs)) =
    (w.s.savePending && decide (relayCtrlSaveDelayMs ≤ nowMs w.env - w.s.lastSaveMs)) := rfl
  unfold saveHold
  dsimp only
  rw [hdue, erase_mask, erase_hold, erase_env]
  split_ifs
  · rcases storeSave (w.s.mask &&& holdMask w.s.cfg) w.env with ⟨e | _, env⟩
    · rfl
    · rfl
  · rfl

theorem resolveConflict_blind : Blind resolveConflict := by
  intro w
  have hboth : clearInterlockConflicts w.erase.s.cfg w.s.mask =
      clearInterlockConflicts w.s.cfg w.s.mask := rfl
  unfold resolveConflict
  dsimp only
  rw [erase_mask, hboth]
  generalize (clearInterlockConflicts w.s.cfg w.s.mask).2 = conflict
  split_ifs
  · rcases commitLocked_erase (w.s.mask &&& ~~~conflict) w with ⟨w', h, he⟩ | ⟨e, w', h, he⟩
    · have ht := trackMaxOnLocked_blind w.s.mask 0#8 { w' with s := { w'.s with
        pulsing := w'.s.pulsing &&& ~~~conflict
        pendingOn := w'.s.pendingOn &&& ~~~conflict } }
      have ht' : trackMaxOnLocked w.s.mask 0#8 { w'.erase with s := { w'.erase.s with
        pulsing := w'.erase.s.pulsing &&& ~~~conflict
        pendingOn := w'.erase.s.pendingOn &&& ~~~conflict } } = _ := ht
      rw [h, he]
      dsimp only
      rw [ht', reportInterlockHealth_blind]
    · rw [h, he]
      exact reportInterlockHealth_blind 0#8 w'
  · exact reportInterlockHealth_blind 0#8 w

theorem remode_erase (now : Ms) (i : Channel) (s : St) :
    (remode now i s).erase = remode now i s.erase := by
  have hm : isMomentary s.erase.cfg i = isMomentary s.cfg i := rfl
  have hmask : s.erase.mask = s.mask := rfl
  have hpulsing : s.erase.pulsing = s.pulsing := rfl
  unfold remode
  rw [hm, hmask, hpulsing]
  split_ifs
  · rfl
  · rfl
  · rfl

theorem applyConfig_erase (cfg : DeviceConfig) (w : World) :
    applyConfig cfg.erase w.erase = (applyConfig cfg w).erase := by
  have hloop : forEach (remode (nowMs w.env)) { w.s.erase with cfg := cfg.erase } =
      (forEach (remode (nowMs w.env)) { w.s with cfg := cfg }).erase :=
    (forEach_comm _ _ St.erase (remode_erase (nowMs w.env)) { w.s with cfg := cfg }).symm
  have hs : w.erase.s = w.s.erase := rfl
  have hhold : holdMask cfg.erase = holdMask cfg := rfl
  have hold : holdMask w.s.erase.cfg = holdMask w.s.cfg := rfl
  have hlimit : maxOnMs cfg.erase = maxOnMs cfg := rfl
  have hlimit' : maxOnMs w.s.erase.cfg = maxOnMs w.s.cfg := rfl
  unfold applyConfig
  dsimp only
  rw [erase_env, hs, hloop, hhold, hold, hlimit, hlimit']
  generalize forEach (remode (nowMs w.env)) { w.s with cfg := cfg } = s
  exact trackMaxOnLocked_blind _ _
    ⟨{ s with savePending := s.savePending || holdMask cfg ≠ holdMask w.s.cfg }, w.env⟩

theorem updateConfig_erase (cfg : DeviceConfig) (w : World) :
    (relayCtrlUpdateConfig cfg.erase w.erase).1 = (relayCtrlUpdateConfig cfg w).1.erase := by
  rw [updateConfig_world, updateConfig_world, applyConfig_erase, resolveConflict_blind]

theorem skLost_blind (w : World) : (relayCtrlSkLost w.erase).1 = (relayCtrlSkLost w).1.erase := by
  unfold relayCtrlSkLost
  dsimp only
  rw [erase_mask, erase_hold]
  rcases commitLocked_erase (w.s.mask &&& ~~~~~~holdMask w.s.cfg) w with
    ⟨w', h, he⟩ | ⟨e, w', h, he⟩
  · have ht := trackMaxOnLocked_blind w.s.mask 0#8
      { w' with s.pulsing := w'.s.pulsing &&& ~~~~~~holdMask w.s.cfg }
    have ht' : trackMaxOnLocked w.s.mask 0#8
      { w'.erase with s.pulsing := w'.erase.s.pulsing &&& ~~~~~~holdMask w.s.cfg } = _ := ht
    rw [h, he]
    dsimp only
    rw [ht']
    rfl
  · rw [h, he]
    rfl

theorem tick_blind (w : World) : (relayCtrlTick w.erase).1 = (relayCtrlTick w).1.erase := by
  rw [tick_world, tick_world, endPulses_blind, expireMaxOn_blind, firePending_blind,
    saveHold_blind]

theorem booted_erase (cfg : DeviceConfig) (warm : Bool) (held : Mask) (s : St) (env : Env) :
    booted cfg.erase warm held s.erase env = (booted cfg warm held s env).erase := by
  have hboot : clearInterlockConflicts cfg.erase (held &&& holdMask cfg.erase) =
      clearInterlockConflicts cfg (held &&& holdMask cfg) := rfl
  unfold booted
  dsimp only
  rw [hboot]
  generalize clearInterlockConflicts cfg (held &&& holdMask cfg) = boot
  have ht := trackMaxOnLocked_blind 0#8 0#8 ⟨{ s with mask := boot.1 }, env⟩
  have ht' : trackMaxOnLocked 0#8 0#8 ⟨{ s.erase with mask := boot.1 }, env⟩ = _ := ht
  rw [ht']
  generalize trackMaxOnLocked 0#8 0#8 ⟨{ s with mask := boot.1 }, env⟩ = w
  exact reportInterlockHealth_blind boot.2 { w with s.savePending := warm || boot.2 ≠ 0#8 }

theorem init_erase (cfg : DeviceConfig) (w : World) :
    relayCtrlInit cfg.erase w.erase = ((relayCtrlInit cfg w).1, (relayCtrlInit cfg w).2.erase) := by
  have hboot : ∀ held, clearInterlockConflicts cfg.erase (held &&& holdMask cfg.erase) =
      clearInterlockConflicts cfg (held &&& holdMask cfg) := fun _ => rfl
  unfold relayCtrlInit
  dsimp only
  simp only [erase_env, hboot]
  rcases tca9554AllOutputs w.env with ⟨e | warm, env⟩
  · rfl
  · dsimp only
    rcases bootHeld warm env with ⟨e | held, env⟩
    · rfl
    · dsimp only
      rcases (if warm = true then
          tca9554WriteOutputs (toReg (clearInterlockConflicts cfg (held &&& holdMask cfg)).1) env
        else tca9554InitOutputs (toReg (clearInterlockConflicts cfg (held &&& holdMask cfg)).1) env)
        with ⟨e | _, env⟩
      · rfl
      · exact congrArg (Prod.mk _)
          (booted_erase cfg warm held (w.s.cleared cfg (nowMs w.env)) env)

/-- A notice as a listener hears it under other flags. -/
def Notice.rewire (d : Mask) (n : Notice) : Notice :=
  { n with on := n.on ^^ d.has n.relay, mask := n.mask ^^^ d }

theorem rewire_report (i : Channel) (after x y : Mask) (src : RelaySource) :
    (⟨i, (after ^^^ x).has i, src, after ^^^ x⟩ : Notice).rewire (x ^^^ y) =
      ⟨i, (after ^^^ y).has i, src, after ^^^ y⟩ := by
  have hmask : after ^^^ x ^^^ (x ^^^ y) = after ^^^ y := by
    rw [← BitVec.xor_assoc, BitVec.xor_assoc after, BitVec.xor_self, BitVec.xor_zero]
  unfold Notice.rewire
  dsimp only
  rw [hmask, ← has_xor, hmask]

theorem notify_rewire (before after x y : Mask) (src : RelaySource) :
    (notify (before ^^^ x) (after ^^^ x) src).map (Notice.rewire (x ^^^ y)) =
      notify (before ^^^ y) (after ^^^ y) src := by
  have hchanged : ∀ z : Mask, before ^^^ z ^^^ (after ^^^ z) = before ^^^ after := by
    intro z
    apply ext_has
    intro i
    simp only [has_xor]
    cases before.has i <;> cases after.has i <;> cases z.has i <;> rfl
  unfold notify notifyBits
  rw [hchanged, hchanged, List.map_map]
  refine List.map_congr_left (fun i _ => ?_)
  exact rewire_report i after x y src

theorem firedNotices_rewire (fired after x y : Mask) (src : Channel → RelaySource) :
    (firedNotices fired (after ^^^ x) src).map (Notice.rewire (x ^^^ y)) =
      firedNotices fired (after ^^^ y) src := by
  unfold firedNotices
  rw [List.map_map]
  refine List.map_congr_left (fun i _ => ?_)
  exact rewire_report i after x y (src i)

theorem tickBatches_rewire (before afterPulses afterMaxOn fired x y : Mask)
    (src : Channel → RelaySource) :
    (tickBatches before afterPulses afterMaxOn fired x src).map (Notice.rewire (x ^^^ y)) =
      tickBatches before afterPulses afterMaxOn fired y src := by
  unfold tickBatches
  rw [List.map_append, List.map_append, notify_rewire, notify_rewire, firedNotices_rewire]

def rewired (cfg cfg' : DeviceConfig) : Mask := wiredNcMask cfg ^^^ wiredNcMask cfg'

/-- Whether a value given for the channel means the other coil level. -/
def turned (cfg cfg' : DeviceConfig) (channel : ℕ) : Bool :=
  if h : 1 ≤ channel ∧ channel ≤ 8 then (rewired cfg cfg').has ⟨channel - 1, index_lt h⟩
  else false

/-- The same operation under settings that differ in the flags only: a set
value is turned around where they do. -/
inductive SameOp (cfg cfg' : DeviceConfig) : Op → Op → Prop
  | init (new new' : DeviceConfig) : new.erase = new'.erase →
      SameOp cfg cfg' (.init new) (.init new')
  | set (channel : ℕ) (on : Bool) (src : RelaySource) :
      SameOp cfg cfg' (.set channel on src) (.set channel (on ^^ turned cfg cfg' channel) src)
  | toggle (channel : ℕ) (src : RelaySource) :
      SameOp cfg cfg' (.toggle channel src) (.toggle channel src)
  | tick : SameOp cfg cfg' .tick .tick
  | skLost : SameOp cfg cfg' .skLost .skLost
  | updateConfig (new new' : DeviceConfig) : new.erase = new'.erase →
      SameOp cfg cfg' (.updateConfig new) (.updateConfig new')

/-- The same call, made in the states of two runs. -/
structure SameCall (w v : World) (c d : Call) : Prop where
  op : SameOp w.s.cfg v.s.cfg c.op d.op
  time : d.time = c.time
  faults : d.faults = c.faults
  saveErr : d.saveErr = c.saveErr

theorem command_erase (i : Channel) (onReq onReq' : Option Bool) (src : RelaySource) (w v : World)
    (h : w.erase = v.erase) (hreq : coilRequest i onReq w.s = coilRequest i onReq' v.s)
    (channel channel' : ℕ) :
    (command i ⟨channel, onReq, src⟩ w).1 = (command i ⟨channel', onReq', src⟩ v).1 ∧
      (command i ⟨channel, onReq, src⟩ w).2.erase =
        (command i ⟨channel', onReq', src⟩ v).2.erase := by
  have hon : ((coilOn i src w).1, (coilOn i src w).2.erase) =
      ((coilOn i src v).1, (coilOn i src v).2.erase) := by
    rw [← coilOn_blind, ← coilOn_blind, h]
  have hoff : ((coilOff i w).1, (coilOff i w).2.erase) =
      ((coilOff i v).1, (coilOff i v).2.erase) := by
    rw [← coilOff_blind, ← coilOff_blind, h]
  unfold command
  dsimp only
  rw [hreq]
  split_ifs
  · exact Prod.ext_iff.mp hon
  · exact Prod.ext_iff.mp hoff

/-- What does not show the flags is the same in worlds that differ in them. -/
theorem eq_of_erase {α : Type} (f : World → α) (hf : ∀ w, f w.erase = f w) {w v : World}
    (h : w.erase = v.erase) : f w = f v := by
  rw [← hf w, ← hf v, h]

theorem mask_of_erase {w v : World} (h : w.erase = v.erase) : w.s.mask = v.s.mask :=
  eq_of_erase (fun w => w.s.mask) (fun _ => rfl) h

theorem coilRequest_turned (i : Channel) (on : Bool) (w v : World) :
    coilRequest i (some on) w.s =
      coilRequest i (some (on ^^ turned w.s.cfg v.s.cfg (i.val + 1))) v.s := by
  have hi := i.isLt
  have hturned : turned w.s.cfg v.s.cfg (i.val + 1) =
      ((w.s.cfg.relays i).wiredNc ^^ (v.s.cfg.relays i).wiredNc) := by
    rw [turned, dif_pos (by omega), rewired, has_xor, wiredNcMask, wiredNcMask, has_collect,
      has_collect]
    rfl
  rw [hturned, coilRequest, coilRequest]
  cases on <;> cases (w.s.cfg.relays i).wiredNc <;> cases (v.s.cfg.relays i).wiredNc <;> rfl

theorem setOrToggle_erase (channel : ℕ) (onReq onReq' : Option Bool) (src : RelaySource)
    (w v : World) (h : w.erase = v.erase)
    (hreq : ∀ i : Channel, channel = i.val + 1 →
      coilRequest i onReq w.s = coilRequest i onReq' v.s) :
    (setOrToggle channel onReq src w).1 = (setOrToggle channel onReq' src v).1 ∧
      (setOrToggle channel onReq src w).2.1.erase =
        (setOrToggle channel onReq' src v).2.1.erase := by
  -- The values may differ, the coil levels they ask for may not.
  by_cases hc : channel < 1 ∨ 8 < channel
  · rw [setOrToggle, setOrToggle, dif_pos hc, dif_pos hc]
    exact ⟨rfl, h⟩
  · obtain ⟨i, rfl⟩ := exists_index hc
    rw [setOrToggle_channel, setOrToggle_channel]
    exact command_erase i onReq onReq' src w v h (hreq i rfl) _ _

/-- One operation does the same to the coils under both settings. -/
theorem perform_erase {op op' : Op} {w v : World} (hop : SameOp w.s.cfg v.s.cfg op op')
    (h : w.erase = v.erase) : (perform op w).err = (perform op' v).err ∧
      (perform op w).world.erase = (perform op' v).world.erase := by
  cases hop with
  | init new new' hnew =>
    have hi : ((relayCtrlInit new w).1, (relayCtrlInit new w).2.erase) =
        ((relayCtrlInit new' v).1, (relayCtrlInit new' v).2.erase) := by
      rw [← init_erase, ← init_erase, hnew, h]
    exact Prod.ext_iff.mp hi
  | set channel on src =>
    refine setOrToggle_erase channel _ _ src w v h (fun i hi => ?_)
    rw [hi]
    exact coilRequest_turned i on w v
  | toggle channel src =>
    refine setOrToggle_erase channel none none src w v h (fun i _ => ?_)
    rw [coilRequest, coilRequest, mask_of_erase h]
  | tick =>
    refine ⟨rfl, ?_⟩
    change (relayCtrlTick w).1.erase = (relayCtrlTick v).1.erase
    rw [← tick_blind, ← tick_blind, h]
  | skLost =>
    refine ⟨rfl, ?_⟩
    change (relayCtrlSkLost w).1.erase = (relayCtrlSkLost v).1.erase
    rw [← skLost_blind, ← skLost_blind, h]
  | updateConfig new new' hnew =>
    refine ⟨rfl, ?_⟩
    change (relayCtrlUpdateConfig new w).1.erase = (relayCtrlUpdateConfig new' v).1.erase
    rw [← updateConfig_erase, ← updateConfig_erase, hnew, h]

theorem tick_notices_erase (w v : World) (h : w.erase = v.erase) :
    (relayCtrlTick v).2 = (relayCtrlTick w).2.map (Notice.rewire (rewired w.s.cfg v.s.cfg)) := by
  have hpulses : (endPulses w).erase = (endPulses v).erase := by
    rw [← endPulses_blind, ← endPulses_blind, h]
  have htimed : (timedOut w).erase = (timedOut v).erase := by
    rw [timedOut, timedOut, ← expireMaxOn_blind, ← expireMaxOn_blind, hpulses]
  have hfired : fired w = fired v := by
    have hw : (firePending (timedOut w).erase).1 = fired w := by rw [firePending_blind]; rfl
    have hv : (firePending (timedOut v).erase).1 = fired v := by rw [firePending_blind]; rfl
    rw [← hw, ← hv, htimed]
  have hsrc : (timedOut w).s.pendingOnSrc = (timedOut v).s.pendingOnSrc :=
    eq_of_erase (fun w => w.s.pendingOnSrc) (fun _ => rfl) htimed
  rw [tick_notices, tick_notices, rewired, tickBatches_rewire, mask_of_erase h,
    mask_of_erase hpulses, mask_of_erase htimed, hfired, hsrc]

/-- What listeners hear differs by the flags in force after the call. -/
theorem perform_notices_erase {op op' : Op} {w v : World} (hop : SameOp w.s.cfg v.s.cfg op op')
    (h : w.erase = v.erase) : (perform op' v).notices = (perform op w).notices.map
      (Notice.rewire (rewired (perform op w).world.s.cfg (perform op' v).world.s.cfg)) := by
  have hw := (perform_erase hop h).2
  have hcompare : op.running = true → op.isTick = false → op'.running = true →
      op'.isTick = false → op'.src = op.src → (perform op' v).notices =
        (perform op w).notices.map (Notice.rewire
          (rewired (perform op w).world.s.cfg (perform op' v).world.s.cfg)) := by
    intro hrun htick hrun' htick' hsrc
    rw [perform_notices op hrun htick, perform_notices op' hrun' htick', rewired, notify_rewire,
      hsrc, mask_of_erase h, mask_of_erase hw]
  cases hop with
  | init new new' hnew => rfl
  | set channel on src => exact hcompare rfl rfl rfl rfl rfl
  | toggle channel src => exact hcompare rfl rfl rfl rfl rfl
  | skLost => exact hcompare rfl rfl rfl rfl rfl
  | updateConfig new new' hnew => exact hcompare rfl rfl rfl rfl rfl
  | tick =>
    change (relayCtrlTick v).2 = (relayCtrlTick w).2.map (Notice.rewire
      (rewired (relayCtrlTick w).1.s.cfg (relayCtrlTick v).1.s.cfg))
    rw [tick_cfg, tick_cfg]
    exact tick_notices_erase w v h

/-- Two worlds with the same coils, timers and devices, whose settings differ
in the flags only and whose reported masks differ by just these flags. -/
structure SameCoils (w v : World) : Prop where
  settings : w.s.cfg.erase = v.s.cfg.erase
  mask : w.s.mask = v.s.mask
  pulsing : w.s.pulsing = v.s.pulsing
  pulseEnd : w.s.pulseEnd = v.s.pulseEnd
  limited : w.s.limited = v.s.limited
  maxOnEnd : w.s.maxOnEnd = v.s.maxOnEnd
  pendingOn : w.s.pendingOn = v.s.pendingOn
  pendingOnEnd : w.s.pendingOnEnd = v.s.pendingOnEnd
  pendingOnSrc : w.s.pendingOnSrc = v.s.pendingOnSrc
  savePending : w.s.savePending = v.s.savePending
  chip : w.env.chip = v.env.chip
  stored : w.env.stored = v.env.stored
  writes : w.env.writes = v.env.writes
  saves : w.env.saves = v.env.saves
  reported : relayCtrlGetMask v.s = relayCtrlGetMask w.s ^^^ rewired w.s.cfg v.s.cfg

theorem sameCoils_of_erase {w v : World} (h : w.erase = v.erase) : SameCoils w v := by
  refine ⟨congrArg (fun w => w.s.cfg) h, mask_of_erase h,
    eq_of_erase (fun w => w.s.pulsing) (fun _ => rfl) h,
    eq_of_erase (fun w => w.s.pulseEnd) (fun _ => rfl) h,
    eq_of_erase (fun w => w.s.limited) (fun _ => rfl) h,
    eq_of_erase (fun w => w.s.maxOnEnd) (fun _ => rfl) h,
    eq_of_erase (fun w => w.s.pendingOn) (fun _ => rfl) h,
    eq_of_erase (fun w => w.s.pendingOnEnd) (fun _ => rfl) h,
    eq_of_erase (fun w => w.s.pendingOnSrc) (fun _ => rfl) h,
    eq_of_erase (fun w => w.s.savePending) (fun _ => rfl) h,
    eq_of_erase (fun w => w.env.chip) (fun _ => rfl) h,
    eq_of_erase (fun w => w.env.stored) (fun _ => rfl) h,
    eq_of_erase (fun w => w.env.writes) (fun _ => rfl) h,
    eq_of_erase (fun w => w.env.saves) (fun _ => rfl) h, ?_⟩
  apply ext_has
  intro i
  rw [relayCtrlGetMask, relayCtrlGetMask, rewired, mask_of_erase h]
  simp only [has_xor]
  cases v.s.mask.has i <;> cases (wiredNcMask w.s.cfg).has i <;> simp

theorem begin_erase {w v : World} {c d : Call} (h : SameCall w v c d) (hw : w.erase = v.erase) :
    (w.begin c).erase = (v.begin d).erase := by
  have hs : w.s.erase = v.s.erase := congrArg World.s hw
  have henv : w.env = v.env := eq_of_erase World.env (fun _ => rfl) hw
  have hbegin : w.env.begin c = v.env.begin d := by
    rw [Env.begin, Env.begin, henv, h.time, h.faults, h.saveErr]
  change World.mk w.s.erase (w.env.begin c) = World.mk v.s.erase (v.env.begin d)
  rw [hs, hbegin]

theorem step_erase {w v : World} {c d : Call} (hw : w.erase = v.erase) (h : SameCall w v c d) :
    (step w c).erase = (step v d).erase :=
  (perform_erase (w := w.begin c) (v := v.begin d) h.op (begin_erase h hw)).2

/-- The flags are a translation at the boundary. In two runs from one boot
which make the same calls under settings that differ in the flags only, the
coils, the timers, the expander, the store and the answers are the same at
every step, and all that is reported differs by the flags. -/
theorem run_same_coils (chip : Chip) (stored : Option Mask) (health : HealthKey → Health)
    (cs ds : List Call) (hruns : Lockstep step step SameCall (boot chip stored health)
      (boot chip stored health) cs ds) :
    SameCoils (run step (boot chip stored health) cs) (run step (boot chip stored health) ds) ∧
    ∀ c d, SameCall (run step (boot chip stored health) cs)
        (run step (boot chip stored health) ds) c d →
      (result (run step (boot chip stored health) cs) c).err =
        (result (run step (boot chip stored health) ds) d).err ∧
      SameCoils (step (run step (boot chip stored health) cs) c)
        (step (run step (boot chip stored health) ds) d) ∧
      (result (run step (boot chip stored health) ds) d).notices =
        (result (run step (boot chip stored health) cs) c).notices.map (Notice.rewire
          (rewired (step (run step (boot chip stored health) cs) c).s.cfg
            (step (run step (boot chip stored health) ds) d).s.cfg)) := by
  have hrun := lockstep_run (R := fun w v => w.erase = v.erase)
    (fun w v c d hw hc => step_erase hw hc) hruns rfl
  refine ⟨sameCoils_of_erase hrun, fun c d hc => ?_⟩
  have hop : SameOp ((run step (boot chip stored health) cs).begin c).s.cfg
    ((run step (boot chip stored health) ds).begin d).s.cfg c.op d.op := hc.op
  exact ⟨(perform_erase hop (begin_erase hc hrun)).1, sameCoils_of_erase (step_erase hrun hc),
    perform_notices_erase hop (begin_erase hc hrun)⟩

def ncConfig : DeviceConfig :=
  DeviceConfig.schemaDefault.modifyRelay 1 fun r => { r with wiredNc := true }

def noRun : List Call :=
  [.plain (.init .schemaDefault) 0, .plain (.set 1 true .sk) 10, .plain .skLost 20]

def ncRun : List Call :=
  [.plain (.init ncConfig) 0, .plain (.set 1 false .sk) 10, .plain .skLost 20]

theorem run_same_coils_sk_lost :
    SameCoils (run step coldBoot noRun) (run step coldBoot ncRun) := by
  have hturned : (true ^^ turned (step coldBoot (.plain (.init .schemaDefault) 0)).s.cfg
      (step coldBoot (.plain (.init ncConfig) 0)).s.cfg 1) = false := by
    decide +kernel
  have hrelays : DeviceConfig.schemaDefault.erase.relays = ncConfig.erase.relays :=
    funext (by decide +kernel)
  have herase : DeviceConfig.schemaDefault.erase = ncConfig.erase :=
    congrArg (fun relays => { DeviceConfig.schemaDefault with relays := relays }) hrelays
  refine (run_same_coils ⟨0x00#8, 0xff#8⟩ none (fun _ => .normal) noRun ncRun
    (.cons ⟨.init _ _ herase, rfl, rfl, rfl⟩
      (.cons ⟨?_, rfl, rfl, rfl⟩ (.cons ⟨.skLost, rfl, rfl, rfl⟩ (.nil _ _))))).1
  have hset : SameOp (step coldBoot (.plain (.init .schemaDefault) 0)).s.cfg
    (step coldBoot (.plain (.init ncConfig) 0)).s.cfg (.set 1 true .sk) _ := .set 1 true .sk
  rw [hturned] at hset
  exact hset

end RelayBoard
