import RelayBoard.TurnOn

/-!
# Momentary relays

A momentary relay is on exactly while its pulse runs, and the pulse ends
`pulse_ms` after it last started: at a turn-on, or when a save of the settings
makes a relay momentary that is on. A tick that finds the pulse over leaves
the coil off, unless it is the tick in which a deferred turn-on of the same
relay is carried out and starts the next pulse.
-/

set_option autoImplicit false

namespace RelayBoard
open BitVec Lib.Runs Lib.Clock Relay

def becomesMomentary (w : World) (c : Call) (i : Channel) : Bool :=
  match c.op with
  | .updateConfig cfg => w.s.mask.has i && !isMomentary w.s.cfg i && isMomentary cfg i
  | _ => false

def startsPulse (w : World) (c : Call) (i : Channel) : Bool :=
  isMomentary (step w c).s.cfg i && turnsOn w c i || becomesMomentary w c i

/-- When relay `i`'s pulse last started or was restarted, and the `pulse_ms`
in force then. -/
def lastPulse (i : Channel) : List Entry → Option (ℕ × Ms)
  | [] => none
  | (w, c) :: past =>
    if startsPulse w c i then some (c.time, ((step w c).s.cfg.relays i).pulseMs)
    else lastPulse i past

theorem reading_add_ms (t : ℕ) (d : Ms) : reading 32 t + d = reading 32 (t + d.toNat) := by
  rw [reading_add, BitVec.ofNat_toNat, BitVec.setWidth_eq]

/-- The settings of a relay after a call are those it has been given. -/
theorem step_relayCfg (w : World) (c : Call) (h : w.s.Steady) (hop : c.op.running = true)
    (i : Channel) : (step w c).s.cfg.relays i = (reconfigured w c i).cfg := by
  obtain ⟨es, hcfg, -, hrel⟩ := step_relay_from w c h hop i
  exact (congrArg Relay.cfg hrel).trans (cfg_of_applyAll hcfg)

structure PulsesTimed (w : World) (past : List Entry) : Prop where
  steady : w.s.Steady
  timed : ∀ i, w.s.pulsing.has i = true → ∃ t p, lastPulse i past = some (t, p) ∧
    w.s.pulseEnd i = reading 32 (t + p.toNat)

theorem momentary_of_pulsing {s : St} (h : s.Steady) {i : Channel} (hi : s.pulsing.has i = true) :
    s.mask.has i = true ∧ isMomentary s.cfg i = true := by
  have hp : s.pulsing.has i = (s.mask.has i && isMomentary s.cfg i) := (h i).1
  rw [hi] at hp
  simpa using hp.symm

/-- New settings start the pulse of a relay that becomes momentary while on,
and leave a running one alone. -/
theorem reconfigured_pulse (w : World) (c : Call) (h : w.s.Steady) (i : Channel)
    (hp : (reconfigured w c i).pulsing = true) :
    (becomesMomentary w c i = true → (reconfigured w c i).pulseEnd =
      reading 32 c.time + (reconfigured w c i).cfg.pulseMs) ∧
    (becomesMomentary w c i = false → w.s.pulsing.has i = true ∧
      (reconfigured w c i).pulseEnd = w.s.pulseEnd i) := by
  have hpulsing : w.s.pulsing.has i = (w.s.mask.has i && isMomentary w.s.cfg i) := (h i).1
  obtain ⟨op, time, faults, saveErr⟩ := c
  cases op with
  | updateConfig cfg =>
    have hboth : (w.s.mask.has i && isMomentary cfg i) = true := hp
    rw [Bool.and_eq_true] at hboth
    have hold := isMomentary_eq w.s.cfg i
    simp only [becomesMomentary, reconfigured, reconfigure, St.relay_coil, St.relay_cfg,
      St.relay_pulseEnd, ← isMomentary_eq, hboth.1, hboth.2, Bool.true_and, Bool.and_true]
    constructor
    · intro hnew
      rw [if_pos hnew]
    · intro hkept
      rw [hkept]
      simp at hkept
      simp [hpulsing, hboth.1, hkept]
  | _ => exact ⟨fun hn => absurd hn Bool.false_ne_true, fun _ => ⟨hp, rfl⟩⟩

theorem step_pulses (w : World) (past : List Entry) (c : Call) (h : PulsesTimed w past)
    (hop : c.op.running = true) : PulsesTimed (step w c) ((w, c) :: past) := by
  have hs := step_steady w c hop h.steady
  refine ⟨hs, fun i hi => ?_⟩
  obtain ⟨hon, hkept⟩ := step_timer pulseTimer w c h.steady hop i hi
  have hmom := (momentary_of_pulsing hs hi).2
  unfold lastPulse startsPulse
  rw [hmom, Bool.true_and]
  -- Without a turn-on the pulse runs on from what the settings made of it.
  cases hturn : turnsOn w c i
  · obtain ⟨hrun, hend⟩ := hkept hturn
    obtain ⟨hnew, hold⟩ := reconfigured_pulse w c h.steady i hrun
    cases hbec : becomesMomentary w c i
    · obtain ⟨hp, he⟩ := hold hbec
      obtain ⟨t, p, hlast, htime⟩ := h.timed i hp
      exact ⟨t, p, hlast, hend.trans (he.trans htime)⟩
    · refine ⟨_, _, rfl, hend.trans ((hnew hbec).trans ?_)⟩
      rw [step_relayCfg w c h.steady hop, reading_add_ms]
  · exact ⟨_, _, rfl, (hon hturn).trans (reading_add_ms _ _)⟩

/-- A tick whose write succeeds ends a pulse that has run out. -/
theorem endPulses_off (w : World) (hr : w.env.Reliable) {i : Channel}
    (hp : w.s.pulsing.has i = true)
    (hd : deadlinePassed (nowMs w.env) (w.s.pulseEnd i) = true) :
    (endPulses w).s.mask.has i = false := by
  obtain ⟨ended, env, hended, -, ⟨fault, hc⟩ | ⟨hnr, -⟩⟩ := endPulses_spec w
  · have hi : ended.has i = true := by rw [hended, hp, hd, Bool.and_true]
    simp [hc, hi]
  · exact absurd hr hnr

/-- A coil that the timers have switched off stays off unless its pending-on
fires. -/
theorem tick_off (w : World) (h : w.s.Steady) {i : Channel}
    (hoff : (timedOut w).s.mask.has i = false) (hf : (fired w).has i = false) :
    (relayCtrlTick w).1.s.mask.has i = false := by
  rw [tick_world, saveHold_mask, ← Bool.not_eq_true]
  intro hc
  rcases (firePending_acts (timedOut w) ((timedOut_acts w h).steady h)).coil_of hc with hon | hon
  · rw [hoff] at hon
    cases hon
  · rw [show (firePending (timedOut w)).1 = fired w from rfl, hf] at hon
    simp at hon

theorem tick_pulse_off (w : World) (h : w.s.Steady) (hr : w.env.Reliable) {i : Channel}
    (hp : w.s.pulsing.has i = true)
    (hd : deadlinePassed (nowMs w.env) (w.s.pulseEnd i) = true)
    (hf : (fired w).has i = false) : (relayCtrlTick w).1.s.mask.has i = false := by
  refine tick_off w h ?_ hf
  rw [← Bool.not_eq_true]
  intro hc
  have he := expireMaxOn_acts (endPulses w) ((endPulses_acts w h).steady h)
  rcases he.coil_of hc with hon | hon
  · rw [endPulses_off w hr hp hd] at hon
    cases hon
  · simp at hon

theorem run_pulsesTimed (w : World) (c₀ : Call) (cfg : DeviceConfig) (h₀ : Starts w c₀ cfg)
    (cs : List Call) (hcs : ∀ c ∈ cs, c.op.running = true) :
    PulsesTimed (run step (step w c₀) cs) (history step (step w c₀) cs) := by
  refine run_induction step (I := PulsesTimed) (P := fun _ c => c.op.running = true) _
    ⟨h₀.steady, fun j hj => ?_⟩ (fun v past c hv hc => step_pulses v past c hv hc) cs
    (fun e he => hcs e.2 (input_of_history step _ cs e he))
  obtain ⟨warm, held, env, -, -, -, -, hs⟩ := h₀.booted
  rw [hs, booted_pulsing, has_zero] at hj
  cases hj

/-- Momentary relays are on exactly while their pulse runs; it ends `pulse_ms`
after its last start, and a tick that sees it over switches the coil off unless
it fires the relay's pending-on. The comparison is right for half a turn of
the clock, wherever that wraps. -/
theorem run_pulses (w : World) (c₀ : Call) (cfg : DeviceConfig) (h₀ : Starts w c₀ cfg)
    (cs : List Call) (hcs : ∀ c ∈ cs, c.op.running = true) (i : Channel) :
    let v := run step (step w c₀) cs
    v.s.pulsing.has i = (v.s.mask.has i && isMomentary v.s.cfg i) ∧
    (v.s.pulsing.has i = true →
      (∃ t p, lastPulse i (history step (step w c₀) cs) = some (t, p) ∧
        v.s.pulseEnd i = reading 32 (t + p.toNat) ∧
        ∀ t', t + p.toNat ≤ t' → t' < t + p.toNat + 2 ^ 31 →
          deadlinePassed (reading 32 t') (v.s.pulseEnd i) = true) ∧
      ∀ c, c.op = .tick → c.Reliable →
        deadlinePassed (reading 32 c.time) (v.s.pulseEnd i) = true →
        (fired (v.begin c)).has i = false → (step v c).s.mask.has i = false) := by
  intro v
  have hI : PulsesTimed v (history step (step w c₀) cs) := run_pulsesTimed w c₀ cfg h₀ cs hcs
  refine ⟨(hI.steady i).1, fun hp => ⟨?_, fun c hop hr hd hf => ?_⟩⟩
  · obtain ⟨t, p, hlast, hend⟩ := hI.timed i hp
    refine ⟨t, p, hlast, hend, fun t' hge hlt => ?_⟩
    rw [hend]
    exact passed_of_le 32 t' (t + p.toNat) hge (by omega)
  · have hoff := tick_pulse_off (v.begin c) hI.steady hr hp hd hf
    rw [step, result, hop]
    exact hoff

/-- Every tick at or past the end of a pulse whose accesses succeed leaves the
coil off, except where `spared` applies. -/
def PulseEndsAtTick (spared : World → Call → Channel → Bool) : Prop :=
  ∀ (w : World) (c₀ : Call) (cfg : DeviceConfig), Starts w c₀ cfg →
    ∀ cs : List Call, (∀ c ∈ cs, c.op.running = true) → (cs.map Call.time).Pairwise (· ≤ ·) →
    ∀ i t p, lastPulse i (history step (step w c₀) cs) = some (t, p) →
    (run step (step w c₀) cs).s.pulsing.has i = true →
    ∀ c, c.op = .tick → c.Reliable → t + p.toNat ≤ c.time → (∀ d ∈ cs, d.time ≤ c.time) →
      spared (run step (step w c₀) cs) c i = false →
      (step (run step (step w c₀) cs) c).s.mask.has i = false

def hornConfig : DeviceConfig :=
  DeviceConfig.schemaDefault.modifyRelay 1 fun r => { r with mode := .momentary }

/-- Relays 1 and 2 are on when they become a pair and both writes of the save
fail; the turn-on of relay 1 is then deferred to the end of its own pulse. -/
def refiredRun : List Call :=
  [.plain (.set 1 true .web) 0,
    .plain (.set 2 true .web) 10,
    ⟨.updateConfig (hornConfig.pair 1 2), 20, [.lost .timeout, .lost .timeout], none⟩,
    .plain (.set 1 true .web) 900]

/-- The tick in which a deferred turn-on fires leaves the coil on, and so does
one that comes half a turn of the clock after the end of the pulse. -/
theorem pulse_outlives_tick :
    ¬PulseEndsAtTick (fun _ _ _ => false) ∧
      ¬PulseEndsAtTick (fun w c i => (fired (w.begin c)).has i) := by
  have hstart : Starts coldBoot (.plain (.init hornConfig) 0) hornConfig := ⟨rfl, by decide +kernel⟩
  constructor
  · intro h
    have hoff := h _ _ _ hstart refiredRun (by decide +kernel) (by decide +kernel) 0 0 1000#32
      (by decide +kernel) (by decide +kernel) (.plain .tick 1000) rfl (by decide +kernel)
      (by decide +kernel) (by decide +kernel) rfl
    exact absurd hoff (by decide +kernel)
  · intro h
    have hoff := h _ _ _ hstart (refiredRun.take 1) (by decide +kernel) (by decide +kernel) 0 0
      1000#32 (by decide +kernel) (by decide +kernel) (.plain .tick (1000 + 2 ^ 31)) rfl
      (by decide +kernel) (by decide +kernel) (by decide +kernel) (by decide +kernel)
    exact absurd hoff (by decide +kernel)

/-- A pulse across the wrap of the clock. -/
theorem pulse_over_wrap :
    (step (run step (step coldBoot (.plain (.init hornConfig) 0))
      [.plain (.set 1 true .web) 4294967000]) (.plain .tick 4294968000)).s.mask.has 0 = false :=
  ((run_pulses coldBoot (.plain (.init hornConfig) 0) hornConfig ⟨rfl, by decide +kernel⟩
    [.plain (.set 1 true .web) 4294967000] (by decide +kernel) 0).2 (by decide +kernel)).2
    (.plain .tick 4294968000) rfl (by decide +kernel) (by decide +kernel) (by decide +kernel)

end RelayBoard
