import RelayBoard.Pulses

/-!
# Maximum on-times

The max on-time timer of a latching relay runs exactly while its coil is on
and a limit is set. Its deadline counts from the latest turn-on that was
carried out, or save that changed the relay's limit or mode, and from nothing
else. As with pulses, a tick that sees the deadline passed switches the coil
off, unless it fires the relay's pending-on.
-/

set_option autoImplicit false

namespace RelayBoard
open BitVec Lib.Runs Lib.Clock Relay

/-- The call saves settings with another limit or mode for relay `i`. -/
def changesLimit (w : World) (c : Call) (i : Channel) : Bool :=
  match c.op with
  | .updateConfig cfg => !decide ((cfg.relays i).maxOnS = (w.s.cfg.relays i).maxOnS ∧
      (cfg.relays i).mode = (w.s.cfg.relays i).mode)
  | _ => false

/-- When relay `i`'s on-time last began to count; `boot` if not since then. -/
def lastRestart (boot : ℕ) (i : Channel) : List Entry → ℕ
  | [] => boot
  | (w, c) :: past =>
    if turnsOn w c i || changesLimit w c i then c.time else lastRestart boot i past

/-- The same with every on command counted that returns `ESP_OK`, also one that
is deferred. -/
def lastCommandedOn (boot : ℕ) (i : Channel) : List Entry → ℕ
  | [] => boot
  | (w, c) :: past =>
    if !w.s.mask.has i && (step w c).s.mask.has i || changesLimit w c i ||
      commanded true w c i then c.time
    else lastCommandedOn boot i past

theorem limit_eq {cfg : RelayCfg} (h : cfg.momentary = false) :
    cfg.limit = cfg.maxOnS * 1000#32 := by
  rw [RelayCfg.limit, h]
  rfl

theorem toNat_limit {cfg : RelayCfg} (h : cfg.momentary = false) (hmax : cfg.maxOnS.toNat ≤ 86400) :
    cfg.limit.toNat = cfg.maxOnS.toNat * 1000 := by
  rw [limit_eq h, BitVec.toNat_mul]
  have h1000 : (1000#32).toNat = 1000 := rfl
  rw [h1000]
  exact Nat.mod_eq_of_lt (by omega)

theorem limit_eq_zero_iff {cfg : RelayCfg} (h : cfg.momentary = false)
    (hmax : cfg.maxOnS.toNat ≤ 86400) : cfg.limit = 0#32 ↔ cfg.maxOnS = 0#32 := by
  have hn := toNat_limit h hmax
  rw [← BitVec.toNat_inj, ← BitVec.toNat_inj, hn]
  have h0 : (0#32).toNat = 0 := rfl
  rw [h0]
  omega

theorem limit_changed {a b : RelayCfg} (ha : a.momentary = false) (hamax : a.maxOnS.toNat ≤ 86400)
    (hbmax : b.maxOnS.toNat ≤ 86400) (hne : a.limit ≠ 0#32) :
    a.limit = b.limit ↔ a.maxOnS = b.maxOnS ∧ a.mode = b.mode := by
  have hmode : a.mode = .latching := by
    cases hm : a.mode
    · rfl
    · simp [RelayCfg.momentary, hm] at ha
  cases hb : b.momentary
  · have hbmode : b.mode = .latching := by
      cases hm : b.mode
      · rfl
      · simp [RelayCfg.momentary, hm] at hb
    have h1 := toNat_limit ha hamax
    have h2 := toNat_limit hb hbmax
    rw [← BitVec.toNat_inj, ← BitVec.toNat_inj, h1, h2, hmode, hbmode]
    constructor
    · intro h
      exact ⟨by omega, rfl⟩
    · rintro ⟨h, -⟩
      rw [h]
  · rw [RelayCfg.limit_of_momentary hb, hmode]
    have hbmode : b.mode = .momentary := by simpa [RelayCfg.momentary] using hb
    rw [hbmode]
    simp [hne]

theorem deadline_eq {cfg : RelayCfg} (h : cfg.momentary = false) (hmax : cfg.maxOnS.toNat ≤ 86400)
    (t : ℕ) : reading 32 t + cfg.limit = reading 32 (t + cfg.maxOnS.toNat * 1000) := by
  rw [reading_add_ms, toNat_limit h hmax]

structure LimitsTimed (boot : ℕ) (w : World) (past : List Entry) : Prop where
  steady : w.s.Steady
  loaded : Loaded w.s.cfg
  timed : ∀ i, w.s.limited.has i = true → w.s.maxOnEnd i =
    reading 32 (lastRestart boot i past + (w.s.cfg.relays i).maxOnS.toNat * 1000)

theorem limited_iff {s : St} (h : s.Steady) (hl : Loaded s.cfg) (i : Channel) :
    s.limited.has i = (s.mask.has i && !isMomentary s.cfg i &&
      decide ((s.cfg.relays i).maxOnS ≠ 0#32)) := by
  have hs : s.limited.has i = (s.mask.has i && decide ((s.cfg.relays i).limit ≠ 0#32)) := (h i).2
  rw [hs, isMomentary_eq, Bool.and_assoc]
  cases hm : (s.cfg.relays i).momentary
  · have hz := limit_eq_zero_iff hm (hl.maxOn i)
    simp [hz]
  · simp [RelayCfg.limit_of_momentary hm]

theorem config_loaded {op : Op} {cfg : DeviceConfig} (h : Loaded cfg)
    (hop : op.Configures Loaded) : Loaded (op.config cfg) := by
  cases op with
  | updateConfig new => exact hop
  | _ => exact h

/-- New settings restart the on-time of a relay whose limit or mode they
change, and of no other. -/
theorem reconfigured_limit (w : World) (c : Call) (h : w.s.Steady) (hl : Loaded w.s.cfg)
    (hop : c.op.Configures Loaded) (i : Channel) (hp : (reconfigured w c i).limited = true) :
    (changesLimit w c i = true → (reconfigured w c i).maxOnEnd =
      reading 32 c.time + (reconfigured w c i).cfg.limit) ∧
    (changesLimit w c i = false → w.s.limited.has i = true ∧
      (reconfigured w c i).maxOnEnd = w.s.maxOnEnd i ∧
      (reconfigured w c i).cfg.maxOnS = (w.s.cfg.relays i).maxOnS) := by
  obtain ⟨op, time, faults, saveErr⟩ := c
  cases op with
  | updateConfig cfg =>
    have hcfg : Loaded cfg := hop
    have hlim : w.s.limited.has i = (w.s.mask.has i && decide ((w.s.cfg.relays i).limit ≠ 0#32)) :=
      (h i).2
    have hboth : (w.s.mask.has i && decide ((cfg.relays i).limit ≠ 0#32)) = true := hp
    rw [Bool.and_eq_true, decide_eq_true_iff] at hboth
    have hm : (cfg.relays i).momentary = false := by
      rw [← Bool.not_eq_true]
      exact fun hm => hboth.2 (RelayCfg.limit_of_momentary hm)
    have hsame := limit_changed hm (hcfg.maxOn i) (hl.maxOn i) hboth.2
    simp only [changesLimit, reconfigured, reconfigure, St.relay_coil, St.relay_cfg,
      St.relay_maxOnEnd, hboth.1, true_and, Bool.not_eq_true', Bool.not_eq_false',
      decide_eq_true_eq, decide_eq_false_iff_not, ← hsame]
    constructor
    · intro hnew
      rw [if_pos ⟨hboth.2, hnew⟩]
    · intro hkept
      rw [if_neg (fun hn => hn.2 hkept), hlim, hboth.1, ← hkept]
      exact ⟨by simpa using hboth.2, rfl, (hsame.mp hkept).1⟩
  | _ => exact ⟨fun hn => absurd hn Bool.false_ne_true, fun _ => ⟨hp, rfl, rfl⟩⟩

theorem step_limits (boot : ℕ) (w : World) (past : List Entry) (c : Call)
    (h : LimitsTimed boot w past) (hop : c.op.running = true) (hcfg : c.op.Configures Loaded) :
    LimitsTimed boot (step w c) ((w, c) :: past) := by
  have hs := step_steady w c hop h.steady
  have hl : Loaded (step w c).s.cfg := by
    rw [step_cfg w c hop]
    exact config_loaded h.loaded hcfg
  refine ⟨hs, hl, fun i hi => ?_⟩
  obtain ⟨hon, hkept⟩ := step_timer maxOnTimer w c h.steady hop i hi
  have hm : ((step w c).s.cfg.relays i).momentary = false := by
    rw [limited_iff hs hl] at hi
    simp only [Bool.and_eq_true, Bool.not_eq_true'] at hi
    exact hi.1.2
  have hdeadline := deadline_eq hm (hl.maxOn i) c.time
  unfold lastRestart
  cases hturn : turnsOn w c i
  · obtain ⟨hrun, hend⟩ := hkept hturn
    obtain ⟨hnew, hold⟩ := reconfigured_limit w c h.steady h.loaded hcfg i hrun
    have hrel := step_relayCfg w c h.steady hop i
    cases hchg : changesLimit w c i
    · obtain ⟨hp, he, hmax⟩ := hold hchg
      rw [hrel, hmax]
      exact hend.trans (he.trans (h.timed i hp))
    · rw [hrel] at hdeadline ⊢
      exact hend.trans ((hnew hchg).trans hdeadline)
  · exact (hon hturn).trans hdeadline

theorem expireMaxOn_off (w : World) (hr : w.env.Reliable) {i : Channel}
    (hp : w.s.limited.has i = true)
    (hd : deadlinePassed (nowMs w.env) (w.s.maxOnEnd i) = true) :
    (expireMaxOn w).s.mask.has i = false := by
  obtain ⟨expired, env, hexpired, -, ⟨fault, hc⟩ | ⟨hnr, -⟩⟩ := expireMaxOn_spec w
  · have hi : expired.has i = true := by rw [hexpired, hp, hd, Bool.and_true]
    simp [hc, hi]
  · exact absurd hr hnr

theorem tick_limit_off (w : World) (h : w.s.Steady) (hr : w.env.Reliable) {i : Channel}
    (hp : w.s.limited.has i = true)
    (hd : deadlinePassed (nowMs w.env) (w.s.maxOnEnd i) = true)
    (hf : (fired w).has i = false) : (relayCtrlTick w).1.s.mask.has i = false := by
  refine tick_off w h ?_ hf
  have hpulses := endPulses_acts w h
  have hwrote := endPulses_wrote w
  cases hon : (endPulses w).s.mask.has i
  · rw [← Bool.not_eq_true]
    intro hc
    rcases (expireMaxOn_acts _ (hpulses.steady h)).coil_of hc with hc' | hc'
    · rw [hon] at hc'
      cases hc'
    · simp at hc'
  · -- A relay that is still on has not been touched by the pulses.
    have hsame : (endPulses w).s.relay i = w.s.relay i := by
      rw [hpulses.relay i, dropped, hon, Bool.not_true, Bool.and_false]
      rfl
    have hlim : (endPulses w).s.limited.has i = w.s.limited.has i := congrArg limited hsame
    have hend : (endPulses w).s.maxOnEnd i = w.s.maxOnEnd i := congrArg maxOnEnd hsame
    refine expireMaxOn_off _ (hwrote.env.reliable hr) (hlim.trans hp) ?_
    rw [hend, hwrote.nowMs]
    exact hd

theorem run_limitsTimed (w : World) (c₀ : Call) (cfg : DeviceConfig) (h₀ : Starts w c₀ cfg)
    (hcfg : Loaded cfg) (cs : List Call)
    (hcs : ∀ c ∈ cs, c.op.running = true ∧ c.op.Configures Loaded) :
    LimitsTimed c₀.time (run step (step w c₀) cs) (history step (step w c₀) cs) := by
  refine run_induction step (I := LimitsTimed c₀.time)
    (P := fun _ c => c.op.running = true ∧ c.op.Configures Loaded) _ ?_
    (fun v past c hv hc => step_limits c₀.time v past c hv hc.1 hc.2) cs
    (fun e he => hcs e.2 (input_of_history step _ cs e he))
  obtain ⟨warm, held, env, hsame, -, -, -, hs⟩ := h₀.booted
  have hloaded : Loaded (step w c₀).s.cfg := by
    rw [hs, booted_cfg]
    exact hcfg
  refine ⟨h₀.steady, hloaded, fun i hi => ?_⟩
  have hm : ((step w c₀).s.cfg.relays i).momentary = false := by
    rw [limited_iff h₀.steady hloaded] at hi
    simp only [Bool.and_eq_true, Bool.not_eq_true'] at hi
    exact hi.1.2
  rw [lastRestart, ← deadline_eq hm (hloaded.maxOn i)]
  rw [hs] at hi ⊢
  rw [booted_cfg]
  have hrel := booted_relay cfg warm held (reading 32 c₀.time) w.s env i
  have hnow : nowMs env = reading 32 c₀.time := hsame.nowMs
  rw [hnow] at hrel
  have hrun : limited (((w.s.relay i).idle (cfg.relays i)).applyAll (reading 32 c₀.time)
      (if (clearInterlockConflicts cfg (held &&& holdMask cfg)).1.has i then [.on] else [])) =
      true := by
    rw [← hrel]
    exact hi
  obtain ⟨hon, hoff⟩ := timer_of_applyAll maxOnTimer (by split_ifs <;> simp) hrun
  refine (congrArg maxOnEnd hrel).trans (hon ?_)
  by_contra hnot
  cases (hoff hnot).1

/-- The max on-time of a latching relay with a limit runs exactly while its
coil is on and counts from its latest carried-out turn-on, the boot that
restored it, or a save that changed its limit or mode. A tick that sees it over
switches the coil off unless it fires the relay's pending-on. -/
theorem run_limits (w : World) (c₀ : Call) (cfg : DeviceConfig) (h₀ : Starts w c₀ cfg)
    (hcfg : Loaded cfg) (cs : List Call)
    (hcs : ∀ c ∈ cs, c.op.running = true ∧ c.op.Configures Loaded) (i : Channel) :
    let v := run step (step w c₀) cs
    v.s.limited.has i = (v.s.mask.has i && !isMomentary v.s.cfg i &&
      decide ((v.s.cfg.relays i).maxOnS ≠ 0#32)) ∧
    (v.s.limited.has i = true →
      v.s.maxOnEnd i = reading 32 (lastRestart c₀.time i (history step (step w c₀) cs) +
        (v.s.cfg.relays i).maxOnS.toNat * 1000) ∧
      (∀ t, lastRestart c₀.time i (history step (step w c₀) cs) +
          (v.s.cfg.relays i).maxOnS.toNat * 1000 ≤ t →
        t < lastRestart c₀.time i (history step (step w c₀) cs) +
          (v.s.cfg.relays i).maxOnS.toNat * 1000 + 2 ^ 31 →
        deadlinePassed (reading 32 t) (v.s.maxOnEnd i) = true) ∧
      ∀ c, c.op = .tick → c.Reliable →
        deadlinePassed (reading 32 c.time) (v.s.maxOnEnd i) = true →
        (fired (v.begin c)).has i = false → (step v c).s.mask.has i = false) := by
  intro v
  have hI : LimitsTimed c₀.time v (history step (step w c₀) cs) :=
    run_limitsTimed w c₀ cfg h₀ hcfg cs hcs
  refine ⟨limited_iff hI.steady hI.loaded i, fun hp => ⟨hI.timed i hp, fun t hge hlt => ?_,
    fun c hop hr hd hf => ?_⟩⟩
  · rw [hI.timed i hp]
    exact passed_of_le 32 t _ hge (by omega)
  · have hoff := tick_limit_off (v.begin c) hI.steady hr hp hd hf
    rw [step, result, hop]
    exact hoff

/-- The deadline of every limited relay counts from the latest time its coil
went on, it was commanded on with success, or its limit or mode was changed. -/
def LimitCounts : Prop :=
  ∀ (w : World) (c₀ : Call) (cfg : DeviceConfig), Starts w c₀ cfg → Loaded cfg →
    ∀ cs : List Call, (∀ c ∈ cs, c.op.running = true ∧ c.op.Configures Loaded) →
    (cs.map Call.time).Pairwise (· ≤ ·) → ∀ i,
    (run step (step w c₀) cs).s.limited.has i = true →
    (run step (step w c₀) cs).s.maxOnEnd i =
      reading 32 (lastCommandedOn c₀.time i (history step (step w c₀) cs) +
        ((run step (step w c₀) cs).s.cfg.relays i).maxOnS.toNat * 1000)

/-- Every tick at or past the deadline of a limited relay whose accesses
succeed leaves the coil off, except where `spared` applies. -/
def LimitEndsAtTick (spared : World → Call → Channel → Bool) : Prop :=
  ∀ (w : World) (c₀ : Call) (cfg : DeviceConfig), Starts w c₀ cfg → Loaded cfg →
    ∀ cs : List Call, (∀ c ∈ cs, c.op.running = true ∧ c.op.Configures Loaded) →
    (cs.map Call.time).Pairwise (· ≤ ·) → ∀ i,
    (run step (step w c₀) cs).s.limited.has i = true →
    ∀ c, c.op = .tick → c.Reliable → (∀ d ∈ cs, d.time ≤ c.time) →
      lastRestart c₀.time i (history step (step w c₀) cs) +
        ((run step (step w c₀) cs).s.cfg.relays i).maxOnS.toNat * 1000 ≤ c.time →
      spared (run step (step w c₀) cs) c i = false →
      (step (run step (step w c₀) cs) c).s.mask.has i = false

def pumpConfig : DeviceConfig :=
  DeviceConfig.schemaDefault.modifyRelay 1 fun r => { r with maxOnS := 60#32 }

/-- Relays 1 and 2 are on when they become a pair and both writes of the save
fail; half a minute later relay 1 is commanded on again, which is deferred. -/
def deferredRun : List Call :=
  [.plain (.set 1 true .web) 0,
    .plain (.set 2 true .web) 10,
    ⟨.updateConfig (pumpConfig.pair 1 2), 20, [.lost .timeout, .lost .timeout], none⟩,
    .plain (.set 1 true .web) 30000]

/-- A deferred on command does not move the deadline, and the tick in which it
is carried out, or one half a turn of the clock late, leaves the coil on. -/
theorem limit_not_moved_by_deferred_on :
    ¬LimitCounts ∧ ¬LimitEndsAtTick (fun _ _ _ => false) ∧
      ¬LimitEndsAtTick (fun w c i => (fired (w.begin c)).has i) := by
  have hstart : Starts coldBoot (.plain (.init pumpConfig) 0) pumpConfig := ⟨rfl, by decide +kernel⟩
  refine ⟨fun h => ?_, fun h => ?_, fun h => ?_⟩
  · have hend := h _ _ _ hstart (by decide +kernel) deferredRun (by decide +kernel)
      (by decide +kernel) 0 (by decide +kernel)
    exact absurd hend (by decide +kernel)
  · have hoff := h _ _ _ hstart (by decide +kernel) deferredRun (by decide +kernel)
      (by decide +kernel) 0 (by decide +kernel) (.plain .tick 60000) rfl (by decide +kernel)
      (by decide +kernel) (by decide +kernel) rfl
    exact absurd hoff (by decide +kernel)
  · have hoff := h _ _ _ hstart (by decide +kernel) (deferredRun.take 1) (by decide +kernel)
      (by decide +kernel) 0 (by decide +kernel) (.plain .tick (60000 + 2 ^ 31)) rfl
      (by decide +kernel) (by decide +kernel) (by decide +kernel) (by decide +kernel)
    exact absurd hoff (by decide +kernel)

/-- A minute's limit across the wrap of the clock. -/
theorem limit_over_wrap :
    (step (run step (step coldBoot (.plain (.init pumpConfig) 0))
      [.plain (.set 1 true .web) 4294967000]) (.plain .tick 4295027000)).s.mask.has 0 = false :=
  ((run_limits coldBoot (.plain (.init pumpConfig) 0) pumpConfig ⟨rfl, by decide +kernel⟩
    (by decide +kernel) [.plain (.set 1 true .web) 4294967000] (by decide +kernel) 0).2
    (by decide +kernel)).2.2 (.plain .tick 4295027000) rfl (by decide +kernel) (by decide +kernel)
    (by decide +kernel)

end RelayBoard
