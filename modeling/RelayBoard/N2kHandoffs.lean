import RelayBoard.Lib.Handoff
import RelayBoard.N2kBridge

/-!
# The hand-offs to the NMEA 2000 task

The relay mask, the input mask and the alert settings reach the NMEA 2000 task
by three flag hand-offs, two of them over one flag. Each step of the bridge is
a move of such a hand-off, or leaves it as it is.
-/

set_option autoImplicit false

namespace RelayBoard
open BitVec Lib Lib.Runs Lib.Journal

def N2kPc.sendsRelays : N2kPc → Bool
  | .readRelays => true
  | .sendRelays _ => true
  | _ => false

/-- Between the exchange and the end of `send_all`. -/
def N2kPc.sendsInputs : N2kPc → Bool
  | .readRelays => true
  | .sendRelays _ => true
  | .readReady => true
  | .readInputs => true
  | .sendInputs _ => true
  | _ => false

def statusPayload (inst : Byte) (mask : Mask) : List Byte :=
  switchBankEncodeStatus inst (mask.setWidth 32) boardChannels

def N2kPc.relayReader (relayBank : Byte) : N2kPc → Handoff.Reader (Option (List Byte))
  | .readRelays => .due
  | .sendRelays mask => .holding (some (statusPayload relayBank mask))
  | _ => .idle

def N2kPc.inputReader (inputBank : Byte) : N2kPc → Handoff.Reader (Option (List Byte))
  | .readRelays => .due
  | .sendRelays _ => .due
  | .readReady => .due
  | .readInputs => .due
  | .sendInputs mask => .holding (some (statusPayload inputBank mask))
  | _ => .idle

def N2kPc.cfgReader : N2kPc → Handoff.Reader AlertsCfg
  | .copyCfg => .due
  | _ => .idle

theorem N2kPc.relays_idle {pc : N2kPc} (h : pc.sendsRelays = false) (bank : Byte) :
    pc.relayReader bank = .idle := by
  cases pc <;> first | rfl | cases h

theorem N2kPc.inputs_idle {pc : N2kPc} (h : pc.sendsInputs = false) (bank : Byte) :
    pc.inputReader bank = .idle := by
  cases pc <;> first | rfl | cases h

theorem N2kPc.cfg_idle {pc : N2kPc} (h : pc ≠ .copyCfg) : pc.cfgReader = .idle := by
  cases pc <;> first | rfl | exact absurd rfl h

namespace N2kBridge

variable {τ : Type}

/-- The relay mask on its way to the bus. -/
def relayHandoff (s : N2kBridge τ) : Handoff.State τ (Option (List Byte)) where
  value := some (statusPayload s.relayBank s.relayMask)
  flag := s.changed
  owing := s.owes
  reader := N2kPc.relayReader s.relayBank s.pc
  shown := newest (statusOf s.relayBank) s.bus

def inputHandoff (s : N2kBridge τ) : Handoff.State τ (Option (List Byte)) where
  value := if s.inputsReady then some (statusPayload s.inputBank s.inputMask) else none
  flag := s.changed
  owing := s.owes
  reader := N2kPc.inputReader s.inputBank s.pc
  shown := newest (statusOf s.inputBank) s.bus

def cfgHandoff (s : N2kBridge τ) : Handoff.State τ AlertsCfg where
  value := s.latest
  flag := s.cfgChanged
  owing := s.owesCfg
  reader := N2kPc.cfgReader s.pc
  shown := s.alerts.cfg

theorem statusOf_payload (inst other : Byte) (mask : Mask) :
    statusOf inst (.status (statusPayload other mask)) =
      if other = inst then some (statusPayload other mask) else none := by
  simp [statusOf, statusPayload, switchBankEncodeStatus]

theorem newest_status_self (inst : Byte) (mask : Mask) (bus : List BusMsg) :
    newest (statusOf inst) (bus ++ [.status (statusPayload inst mask)]) =
      some (statusPayload inst mask) :=
  newest_snoc_some (by rw [statusOf_payload, if_pos rfl]) bus

theorem newest_status_other {inst other : Byte} (h : other ≠ inst) (mask : Mask)
    (bus : List BusMsg) : newest (statusOf inst) (bus ++ [.status (statusPayload other mask)]) =
      newest (statusOf inst) bus := by
  rw [newest_append, newest_singleton, statusOf_payload, if_neg h, Option.none_or]

theorem newest_alerts (inst : Byte) (ms : List AlertMsg) (bus : List BusMsg) :
    newest (statusOf inst) (bus ++ ms.map .alert) = newest (statusOf inst) bus := by
  have hnone : newest (statusOf inst) (ms.map BusMsg.alert) = none := by
    rw [newest_eq_none]
    intro w hw
    obtain ⟨m, -, rfl⟩ := List.mem_map.mp hw
    rfl
  rw [newest_append, hnone, Option.none_or]

/-- What holds in every state, besides the hand-offs: the two banks have
different instances if the inputs are sent; the task reads the inputs only when
they are ready; none is on the bus before; a configuration under way is the one
written last. -/
structure Sound (s : N2kBridge τ) : Prop where
  banks : s.inputsOn = true → s.relayBank ≠ s.inputBank
  reading : s.pc = .readInputs → s.inputsOn = true ∧ s.inputsReady = true
  sending : ∀ mask, s.pc = .sendInputs mask → s.inputsOn = true ∧ s.inputsReady = true
  quiet : s.inputsOn = true → s.inputsReady = false → newest (statusOf s.inputBank) s.bus = none
  pending : s.cfgChanged = true ∨ (∃ t, s.owesCfg t = true) ∨ s.pc = .copyCfg →
    s.pendingCfg = s.latest

structure UpToDate (s : N2kBridge τ) : Prop where
  sound : Sound s
  relays : s.relayHandoff.UpToDate
  inputs : s.inputsOn = true → s.inputHandoff.UpToDate
  cfg : s.cfgHandoff.UpToDate

theorem start_upToDate (bank : BankCfg) (sourceName : IsoName) (now : Ms) (relayMask : Mask)
    (inputsReady : Bool) (inputMask : Mask) (statusPeriod : BitVec 32) :
    UpToDate (n2kBridgeStart (τ := τ) bank sourceName now relayMask inputsReady inputMask
      statusPeriod) where
  sound :=
    ⟨fun hon => bne_iff_ne.mp hon, nofun, nofun, fun _ _ => rfl,
      fun hp => hp.elim nofun (fun h => h.elim (fun ⟨_, ht⟩ => nomatch ht) nofun)⟩
  relays := .inl rfl
  inputs _ := .inl rfl
  cfg := .inr (.inr rfl)

variable {s : N2kBridge τ}

/-- The exchange of `changed` serves both masks. -/
theorem exchange_relays (hpc : s.pc = .exchangeChanged) (isOpen : Bool) (now : BitVec 32) :
    (s.n2kStep isOpen now).relayHandoff =
      s.relayHandoff.exchange (decide (s.statusPeriod ≤ now - s.lastStatus)) := by
  unfold n2kStep Handoff.State.exchange
  rw [hpc]
  change (if (s.changed || _) = true then _ else _ : N2kBridge τ).relayHandoff =
    ⟨_, _, _, if (s.changed || _) = true then _ else _, _⟩
  split <;> rfl

theorem exchange_inputs (hpc : s.pc = .exchangeChanged) (isOpen : Bool) (now : BitVec 32) :
    (s.n2kStep isOpen now).inputHandoff =
      s.inputHandoff.exchange (decide (s.statusPeriod ≤ now - s.lastStatus)) := by
  unfold n2kStep Handoff.State.exchange
  rw [hpc]
  change (if (s.changed || _) = true then _ else _ : N2kBridge τ).inputHandoff =
    ⟨_, _, _, if (s.changed || _) = true then _ else _, _⟩
  split <;> rfl

theorem relay_n2kStep (h : s.relayHandoff.UpToDate) (hs : Sound s) (isOpen : Bool)
    (now : BitVec 32) : (s.n2kStep isOpen now).relayHandoff.UpToDate := by
  obtain ⟨relayBank, inputBank, inputsOn, relayMask, inputsReady, inputMask, owes, changed,
    alerts, pendingCfg, owesCfg, cfgChanged, latest, pc, statusPeriod, lastStatus, bus⟩ := s
  cases pc with
  | parseMessages => cases isOpen <;> exact h
  | exchangeChanged =>
    rw [exchange_relays rfl]
    exact h.exchange rfl _
  | readRelays => exact Handoff.State.UpToDate.read (s := ⟨_, _, _, .due, _⟩)
  | sendRelays mask =>
    have hnext := h.display rfl
    change Handoff.State.UpToDate
      ⟨_, _, _, _, newest (statusOf relayBank) (bus ++ [.status (statusPayload relayBank mask)])⟩
    rw [newest_status_self]
    exact hnext
  | readReady => cases inputsOn <;> cases inputsReady <;> exact h
  | readInputs => exact h
  | sendInputs mask =>
    change Handoff.State.UpToDate
      ⟨_, _, _, _, newest (statusOf relayBank) (bus ++ [.status (statusPayload inputBank mask)])⟩
    rw [newest_status_other (hs.banks (hs.sending mask rfl).1).symm]
    exact h
  | exchangeCfg => cases cfgChanged <;> exact h
  | copyCfg => exact h
  | tick => exact h
  | tickInputs ready =>
    change Handoff.State.UpToDate ⟨_, _, _, _, newest (statusOf relayBank) (bus ++ _)⟩
    rw [newest_alerts]
    exact h

theorem input_n2kStep (h : s.inputHandoff.UpToDate) (hs : Sound s) (hon : s.inputsOn = true)
    (isOpen : Bool) (now : BitVec 32) : (s.n2kStep isOpen now).inputHandoff.UpToDate := by
  obtain ⟨relayBank, inputBank, inputsOn, relayMask, inputsReady, inputMask, owes, changed,
    alerts, pendingCfg, owesCfg, cfgChanged, latest, pc, statusPeriod, lastStatus, bus⟩ := s
  obtain rfl : inputsOn = true := hon
  cases pc with
  | parseMessages => cases isOpen <;> exact h
  | exchangeChanged =>
    rw [exchange_inputs rfl]
    exact h.exchange rfl _
  | readRelays => exact h
  | sendRelays mask =>
    change Handoff.State.UpToDate
      ⟨_, _, _, _, newest (statusOf inputBank) (bus ++ [.status (statusPayload relayBank mask)])⟩
    rw [newest_status_other (hs.banks rfl)]
    exact h
  | readReady =>
    cases inputsReady with
    | true => exact h
    | false => exact Handoff.State.UpToDate.skip (s := ⟨_, _, _, .due, _⟩) (hs.quiet rfl rfl)
  | readInputs =>
    obtain rfl : inputsReady = true := (hs.reading rfl).2
    exact Handoff.State.UpToDate.read (s := ⟨_, _, _, .due, _⟩)
  | sendInputs mask =>
    have hnext := h.display rfl
    change Handoff.State.UpToDate
      ⟨_, _, _, _, newest (statusOf inputBank) (bus ++ [.status (statusPayload inputBank mask)])⟩
    rw [newest_status_self]
    exact hnext
  | exchangeCfg => cases cfgChanged <;> exact h
  | copyCfg => exact h
  | tick => exact h
  | tickInputs ready =>
    change Handoff.State.UpToDate ⟨_, _, _, _, newest (statusOf inputBank) (bus ++ _)⟩
    rw [newest_alerts]
    exact h

theorem cfg_n2kStep (h : s.cfgHandoff.UpToDate) (hs : Sound s) (isOpen : Bool)
    (now : BitVec 32) : (s.n2kStep isOpen now).cfgHandoff.UpToDate := by
  obtain ⟨relayBank, inputBank, inputsOn, relayMask, inputsReady, inputMask, owes, changed,
    alerts, pendingCfg, owesCfg, cfgChanged, latest, pc, statusPeriod, lastStatus, bus⟩ := s
  cases pc with
  | parseMessages => cases isOpen <;> exact h
  | exchangeChanged =>
    change ((if _ then _ else _ : N2kBridge τ)).cfgHandoff.UpToDate
    split <;> exact h
  | readRelays => exact h
  | sendRelays mask => exact h
  | readReady => cases inputsOn <;> cases inputsReady <;> exact h
  | readInputs => exact h
  | sendInputs mask => exact h
  | exchangeCfg =>
    have hnext := h.exchange rfl false
    cases cfgChanged <;> exact hnext
  | copyCfg =>
    obtain rfl : pendingCfg = latest := hs.pending (.inr (.inr rfl))
    exact (Handoff.State.UpToDate.read (s := ⟨_, _, _, .due, alerts.cfg⟩)).display rfl
  | tick => exact h
  | tickInputs ready =>
    have hcfg := (alerts.tick_frame ready inputMask now).1
    change Handoff.State.UpToDate ⟨_, _, _, _, (alerts.n2kAlertsTick ready inputMask now).1.cfg⟩
    rw [hcfg]
    exact h

theorem sound_n2kStep (h : Sound s) (isOpen : Bool) (now : BitVec 32) :
    Sound (s.n2kStep isOpen now) := by
  obtain ⟨hbanks, hreading, hsending, hquiet, hpending⟩ := h
  obtain ⟨relayBank, inputBank, inputsOn, relayMask, inputsReady, inputMask, owes, changed,
    alerts, pendingCfg, owesCfg, cfgChanged, latest, pc, statusPeriod, lastStatus, bus⟩ := s
  have hkeep : ∀ {pc' : N2kPc}, pc' ≠ .copyCfg →
      cfgChanged = true ∨ (∃ t, owesCfg t = true) ∨ pc' = .copyCfg → pendingCfg = latest :=
    fun hne hp => hpending (hp.imp_right (fun h => .inl (h.resolve_right hne)))
  cases pc with
  | parseMessages => cases isOpen <;> exact ⟨hbanks, nofun, nofun, hquiet, hkeep nofun⟩
  | exchangeChanged =>
    change Sound (if _ then _ else _ : N2kBridge τ)
    split <;> exact ⟨hbanks, nofun, nofun, hquiet, hkeep nofun⟩
  | readRelays => exact ⟨hbanks, nofun, nofun, hquiet, hkeep nofun⟩
  | sendRelays mask =>
    refine ⟨hbanks, nofun, nofun, fun hon hready => ?_, hkeep nofun⟩
    change newest (statusOf inputBank) (bus ++ [.status (statusPayload relayBank mask)]) = none
    rw [newest_status_other (hbanks hon)]
    exact hquiet hon hready
  | readReady =>
    cases inputsOn with
    | true =>
      cases inputsReady with
      | true => exact ⟨hbanks, fun _ => ⟨rfl, rfl⟩, nofun, hquiet, hkeep nofun⟩
      | false => exact ⟨hbanks, nofun, nofun, hquiet, hkeep nofun⟩
    | false => exact ⟨hbanks, nofun, nofun, hquiet, hkeep nofun⟩
  | readInputs => exact ⟨hbanks, nofun, fun _ _ => hreading rfl, hquiet, hkeep nofun⟩
  | sendInputs mask =>
    refine ⟨hbanks, nofun, nofun, fun _ hready => ?_, hkeep nofun⟩
    cases hready.symm.trans (hsending mask rfl).2
  | exchangeCfg =>
    cases cfgChanged with
    | true => exact ⟨hbanks, nofun, nofun, hquiet, fun _ => hpending (.inl rfl)⟩
    | false => exact ⟨hbanks, nofun, nofun, hquiet, hkeep nofun⟩
  | copyCfg => exact ⟨hbanks, nofun, nofun, hquiet, hkeep nofun⟩
  | tick => exact ⟨hbanks, nofun, nofun, hquiet, hkeep nofun⟩
  | tickInputs ready =>
    refine ⟨hbanks, nofun, nofun, fun hon hready => ?_, hkeep nofun⟩
    change newest (statusOf inputBank) (bus ++ _) = none
    rw [newest_alerts]
    exact hquiet hon hready

variable [DecidableEq τ]

theorem relay_step (h : s.relayHandoff.UpToDate) (hs : Sound s) (a : N2kAction τ) :
    (s.step a).relayHandoff.UpToDate := by
  cases a with
  | task t op =>
    cases op with
    | setRelays mask => exact Handoff.State.UpToDate.change (s := s.relayHandoff) t _
    | setInputs mask =>
      exact Handoff.State.UpToDate.change (s := s.relayHandoff) t s.relayHandoff.value
    | inputsBecomeReady =>
      exact Handoff.State.UpToDate.change (s := s.relayHandoff) t s.relayHandoff.value
    | stateChanged => exact Handoff.State.UpToDate.announce (s := s.relayHandoff) t
    | writeConfig bank => exact h
    | configChanged =>
      change ((if _ then _ else _ : N2kBridge τ)).relayHandoff.UpToDate
      split <;> exact h
  | response data =>
    change ((if _ then _ else _ : N2kBridge τ)).relayHandoff.UpToDate
    split <;> exact h
  | n2kTask isOpen now => exact relay_n2kStep h hs isOpen now

theorem input_step (h : s.inputHandoff.UpToDate) (hs : Sound s) (hon : s.inputsOn = true)
    (a : N2kAction τ) : (s.step a).inputHandoff.UpToDate := by
  cases a with
  | task t op =>
    cases op with
    | setRelays mask =>
      exact Handoff.State.UpToDate.change (s := s.inputHandoff) t s.inputHandoff.value
    | setInputs mask => exact Handoff.State.UpToDate.change (s := s.inputHandoff) t _
    | inputsBecomeReady => exact Handoff.State.UpToDate.change (s := s.inputHandoff) t _
    | stateChanged => exact Handoff.State.UpToDate.announce (s := s.inputHandoff) t
    | writeConfig bank => exact h
    | configChanged =>
      change ((if _ then _ else _ : N2kBridge τ)).inputHandoff.UpToDate
      split <;> exact h
  | response data =>
    change ((if _ then _ else _ : N2kBridge τ)).inputHandoff.UpToDate
    split <;> exact h
  | n2kTask isOpen now => exact input_n2kStep h hs hon isOpen now

theorem cfg_step (h : s.cfgHandoff.UpToDate) (hs : Sound s) (a : N2kAction τ) :
    (s.step a).cfgHandoff.UpToDate := by
  cases a with
  | task t op =>
    cases op with
    | writeConfig bank => exact Handoff.State.UpToDate.change (s := s.cfgHandoff) t _
    | configChanged =>
      change ((if _ then _ else _ : N2kBridge τ)).cfgHandoff.UpToDate
      split
      · exact Handoff.State.UpToDate.announce (s := s.cfgHandoff) t
      · exact h
    | _ => exact h
  | response data =>
    change ((if _ then _ else _ : N2kBridge τ)).cfgHandoff.UpToDate
    split
    · change Handoff.State.UpToDate ⟨_, _, _, _, (s.alerts.n2kAlertsOnResponse data).2.cfg⟩
      rw [s.alerts.response_cfg data]
      exact h
    · exact h
  | n2kTask isOpen now => exact cfg_n2kStep h hs isOpen now

theorem sound_step (h : Sound s) (a : N2kAction τ) : Sound (s.step a) := by
  obtain ⟨hbanks, hreading, hsending, hquiet, hpending⟩ := h
  cases a with
  | task t op =>
    cases op with
    | setRelays mask => exact ⟨hbanks, hreading, hsending, hquiet, hpending⟩
    | setInputs mask => exact ⟨hbanks, hreading, hsending, hquiet, hpending⟩
    | inputsBecomeReady =>
      exact ⟨hbanks, fun hpc => ⟨(hreading hpc).1, rfl⟩,
        fun mask hpc => ⟨(hsending mask hpc).1, rfl⟩, nofun, hpending⟩
    | stateChanged => exact ⟨hbanks, hreading, hsending, hquiet, hpending⟩
    | writeConfig bank => exact ⟨hbanks, hreading, hsending, hquiet, fun _ => rfl⟩
    | configChanged =>
      change Sound (if _ then _ else _ : N2kBridge τ)
      split
      · rename_i howes
        exact ⟨hbanks, hreading, hsending, hquiet, fun _ => hpending (.inr (.inl ⟨t, howes⟩))⟩
      · exact ⟨hbanks, hreading, hsending, hquiet, hpending⟩
  | response data =>
    change Sound (if _ then _ else _ : N2kBridge τ)
    split <;> exact ⟨hbanks, hreading, hsending, hquiet, hpending⟩
  | n2kTask isOpen now =>
    exact sound_n2kStep ⟨hbanks, hreading, hsending, hquiet, hpending⟩ isOpen now

theorem step_inputsOn (s : N2kBridge τ) (a : N2kAction τ) :
    (s.step a).inputsOn = s.inputsOn := by
  cases a with
  | task t op =>
    cases op with
    | configChanged =>
      change (if _ then _ else _ : N2kBridge τ).inputsOn = _
      split <;> rfl
    | _ => rfl
  | response data =>
    change (if _ then _ else _ : N2kBridge τ).inputsOn = _
    split <;> rfl
  | n2kTask isOpen now =>
    change (s.n2kStep isOpen now).inputsOn = _
    unfold n2kStep
    split
    case h_2 => split <;> rfl
    all_goals rfl

theorem upToDate_step (h : UpToDate s) (a : N2kAction τ) : UpToDate (s.step a) :=
  ⟨sound_step h.sound a, relay_step h.relays h.sound a,
    fun hon => by
      rw [step_inputsOn] at hon
      exact input_step (h.inputs hon) h.sound hon a,
    cfg_step h.cfg h.sound a⟩

/-- Whatever the order of the tasks' steps. With the flag down, no task between
a change and its store, and the NMEA 2000 task not on its way to send a bank,
the last 127501 of that bank carries its mask. With the other flag down, no
task between a write and its store, and no copy to be taken, the alerts run
with the configuration written last. -/
theorem run_handoffs_settle (bank : BankCfg) (sourceName : IsoName) (now : Ms) (relayMask : Mask)
    (inputsReady : Bool) (inputMask : Mask) (statusPeriod : BitVec 32) (as : List (N2kAction τ)) :
    let s := run step (n2kBridgeStart bank sourceName now relayMask inputsReady inputMask
      statusPeriod) as
    (s.changed = false → (∀ t, s.owes t = false) →
      (s.pc.sendsRelays = false →
        newest (statusOf s.relayBank) s.bus = some (statusPayload s.relayBank s.relayMask)) ∧
      (s.pc.sendsInputs = false → s.inputsOn = true → s.inputsReady = true →
        newest (statusOf s.inputBank) s.bus = some (statusPayload s.inputBank s.inputMask))) ∧
    (s.cfgChanged = false → (∀ t, s.owesCfg t = false) → s.pc ≠ .copyCfg →
      s.alerts.cfg = s.latest) := by
  intro s
  have hs : UpToDate s := run_invariant step (P := fun _ _ => True) _
    (start_upToDate bank sourceName now relayMask inputsReady inputMask statusPeriod)
    (fun _ a h _ => upToDate_step h a) as (fun _ _ => trivial)
  refine ⟨fun hflag howes => ⟨fun hidle => ?_, fun hidle hon hready => ?_⟩,
    fun hflag howes hpc => ?_⟩
  · exact hs.relays.settled hflag howes (N2kPc.relays_idle hidle _)
  · have hshown := (hs.inputs hon).settled hflag howes (N2kPc.inputs_idle hidle _)
    simpa only [inputHandoff, hready, if_true] using hshown
  · exact hs.cfg.settled hflag howes (N2kPc.cfg_idle hpc)

/-- Banks 3 and 4, of which the inputs' is not ready yet. -/
def switchedBoard : N2kBridge Bool :=
  n2kBridgeStart { BankCfg.zero with bankId := 3, inputBankId := 4 } 7#64 0#32 0x00#8 false 0x00#8
    15000#32

/-- One task sets relays 1 and 3 and stores the flag only after the exchange
that sends the mask of the start, another one saves the settings. -/
def switchedRun : List (N2kAction Bool) :=
  [.task true (.setRelays 0x05#8), .task false (.writeConfig .zero), .n2kTask true 0#32,
    .n2kTask true 1#32, .task true .stateChanged, .n2kTask true 2#32, .n2kTask true 3#32,
    .n2kTask true 4#32, .task false .configChanged] ++
  (List.range 10).map fun k => .n2kTask true (BitVec.ofNat 32 (k + 5))

theorem run_handoffs_settle_switchedRun :
    let s := run step switchedBoard switchedRun
    newest (statusOf s.relayBank) s.bus = some (statusPayload s.relayBank s.relayMask) ∧
      s.relayMask = 0x05#8 ∧ s.alerts.cfg = s.latest := by
  intro s
  obtain ⟨hbanks, hcfg⟩ := run_handoffs_settle { BankCfg.zero with bankId := 3, inputBankId := 4 }
    7#64 0#32 0x00#8 false 0x00#8 15000#32 switchedRun
  have hsent := hbanks (by decide +kernel) (by decide +kernel)
  exact ⟨hsent.1 (by decide +kernel), by decide +kernel,
    hcfg (by decide +kernel) (by decide +kernel) (by decide +kernel)⟩

end N2kBridge

end RelayBoard
