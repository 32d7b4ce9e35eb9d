import RelayBoard.CommandEffects
import RelayBoard.Reports

/-!
# A conflict found while the bus fails

Settings that make a pair of two relays which are both on are to switch both
off. When that write fails, `relay_ctrl_update_config` takes the conflict for
resolved: it keeps the settings and the coils, reports no conflict, and no
later tick looks for one.
-/

set_option autoImplicit false

namespace RelayBoard
open BitVec Lib.Runs Lib.Clock Relay

def Together (i j : Channel) (w : World) : Prop := w.s.mask.has i = true ∧ w.s.mask.has j = true

/-- While both stay on, the warning stands. -/
def StaysWarned (i j : Channel) (w : World) : Prop :=
  ∀ cs : List Call, (∀ c ∈ cs, c.op.running = true) →
    (∀ js, js <+: cs → Together i j (run step w js)) →
    ∃ msg, (run step w cs).env.health .interlockBothOn = .warn msg

/-- A later tick on a reliable expander switches both off, if both are still
on. -/
def IsCorrected (i j : Channel) (w : World) : Prop :=
  ∀ (cs : List Call) (c : Call), (∀ d ∈ cs, d.op.running = true) →
    (∀ js, js <+: cs → Together i j (run step w js)) →
    ((cs ++ [c]).map Call.time).Pairwise (· ≤ ·) → (∀ d ∈ cs ++ [c], w.env.time ≤ d.time) →
    c.op = .tick → c.Reliable →
    (step (run step w cs) c).s.mask.has i = false ∧ (step (run step w cs) c).s.mask.has j = false

section Save

variable {w : World} {i j : Channel}

/-- The branch of a failed write: the coils and the settings stay, and the
report is that of no conflict. -/
theorem resolveConflict_failed (hi : w.s.mask.has i = true)
    (hp : PartnerOn w.s.cfg w.s.mask i) {e : EspErr}
    (hfail : commitResult w.env.faults = .error e) :
    (resolveConflict w).s = w.s.fault ∧ (resolveConflict w).env.time = w.env.time ∧
      (resolveConflict w).env.health .interlockBothOn = .normal := by
  have hconflict : (clearInterlockConflicts w.s.cfg w.s.mask).2.has i = true := by
    rw [(clearInterlockConflicts_has w.s.cfg w.s.mask i).2, hi]
    simpa using hp
  unfold resolveConflict
  extract_lets before conflict
  rw [if_pos ((ne_zero_iff conflict).mpr ⟨i, hconflict⟩)]
  have hne : w.s.mask &&& ~~~conflict ≠ w.s.mask := by
    intro heq
    have hbit := congrArg (fun m : Mask => m.has i) heq
    simp [conflict, hconflict, hi] at hbit
  rcases commitLocked_cases (w.s.mask &&& ~~~conflict) w with
    ⟨heq, -⟩ | ⟨-, hok, -⟩ | ⟨-, e', health, -, hc⟩
  · exact absurd heq hne
  · rw [hfail] at hok
    cases hok
  · have hsame := (attempts_same (toReg (w.s.mask &&& ~~~conflict)) w.env).time
    rw [hc]
    simp only [reportInterlockHealth, if_true, healthReport, Function.update_self, true_and,
      and_true]
    exact hsame

/-- After a save whose write failed, both relays of the new pair are on, and
nothing is reported. -/
theorem failed_save {c : Call} {cfg : DeviceConfig} (hop : c.op = .updateConfig cfg)
    (hij : Partner cfg i j) (hboth : Together i j w) {e : EspErr}
    (hfail : commitResult c.faults = .error e) :
    Together i j (step w c) ∧ (step w c).env.time = c.time ∧
      (step w c).env.health .interlockBothOn = .normal := by
  have hstep : step w c = resolveConflict (applyConfig cfg (w.begin c)) := by
    rw [step, result, hop]
    rfl
  have hmask : (applyConfig cfg (w.begin c)).s.mask = w.s.mask := applyConfig_mask cfg _
  obtain ⟨hs, htime, hhealth⟩ := resolveConflict_failed (w := applyConfig cfg (w.begin c)) (i := i)
    (by rw [hmask]; exact hboth.1)
    (by rw [hmask, applyConfig_cfg]; exact ⟨j, hij, hboth.2⟩)
    (by rw [applyConfig_env]; exact hfail)
  rw [hstep]
  refine ⟨?_, ?_, hhealth⟩
  · rw [Together, hs]
    simp only [St.fault_mask, hmask]
    exact hboth
  · rw [htime, applyConfig_env]
    rfl

end Save

section Tick

variable {w : World} {i : Channel}

theorem firePending_keeps (hon : w.s.mask.has i = true) :
    (firePending w).2.s.mask.has i = true := by
  rw [firePending_mask, has_or, hon]
  rfl

/-- A tick leaves a coil on of which no timer has run out. -/
theorem tick_keeps (hon : w.s.mask.has i = true)
    (hpulse : (w.s.pulsing.has i && deadlinePassed (nowMs w.env) (w.s.pulseEnd i)) = false)
    (hlimit : (w.s.limited.has i && deadlinePassed (nowMs w.env) (w.s.maxOnEnd i)) = false) :
    (relayCtrlTick w).1.s.mask.has i = true := by
  rw [tick_world, saveHold_mask]
  refine firePending_keeps (expireMaxOn_keeps (endPulses_keeps hon hpulse) ?_)
  rw [(endPulses_limits w).1, (endPulses_limits w).2, (endPulses_wrote w).env.nowMs]
  exact hlimit

theorem exists_not_passed (T : ℕ) (d : Ms) :
    ∃ t, T ≤ t ∧ deadlinePassed (reading 32 t) d = false := by
  refine ⟨2 ^ 32 * (T + 1) + (d - 1#32).toNat, by omega, ?_⟩
  have hreading : reading 32 (2 ^ 32 * (T + 1) + (d - 1#32).toNat) = d - 1#32 := by
    apply BitVec.eq_of_toNat_eq
    rw [reading, BitVec.toNat_ofNat, Nat.mul_add_mod]
    exact Nat.mod_eq_of_lt (d - 1#32).isLt
  have hminus : d - 1#32 - d = -1#32 := by
    rw [sub_right_comm, sub_self, zero_sub]
  rw [hreading, deadlinePassed, passed, hminus]
  decide

/-- In a state where a coil is on, some later tick leaves it on. -/
theorem exists_tick_keeps (h : w.s.Sound) (hon : w.s.mask.has i = true) (T : ℕ) :
    ∃ t, T ≤ t ∧ (step w (.plain .tick t)).s.mask.has i = true := by
  cases hp : w.s.pulsing.has i
  · obtain ⟨t, ht, hnot⟩ := exists_not_passed T (w.s.maxOnEnd i)
    refine ⟨t, ht, tick_keeps (w := w.begin (.plain .tick t)) hon ?_ ?_⟩
    · rw [begin_s, hp, Bool.false_and]
    · exact (congrArg _ hnot).trans (Bool.and_false _)
  · have hlimit : w.s.limited.has i = false := by
      rw [← Bool.not_eq_true]
      intro hl
      exact ((h i).1 hl).2 (RelayCfg.limit_of_momentary ((h i).2 hp))
    obtain ⟨t, ht, hnot⟩ := exists_not_passed T (w.s.pulseEnd i)
    refine ⟨t, ht, tick_keeps (w := w.begin (.plain .tick t)) hon ?_ ?_⟩
    · exact (congrArg _ hnot).trans (Bool.and_false _)
    · rw [begin_s, hlimit, Bool.false_and]

end Tick

/-- In every state calls lead to, a save that pairs two relays which are both on
and cannot write leaves no warning, and no later tick makes up for it. -/
theorem failed_save_forgets (chip : Chip) (stored : Option Mask) (health : HealthKey → Health)
    (cs : List Call) (c : Call) (cfg : DeviceConfig) (hop : c.op = .updateConfig cfg)
    (i j : Channel) (hij : Partner cfg i j)
    (hboth : Together i j (run step (boot chip stored health) cs)) (e : EspErr)
    (hfail : commitResult c.faults = .error e) :
    ¬StaysWarned i j (step (run step (boot chip stored health) cs) c) ∧
      ¬IsCorrected i j (step (run step (boot chip stored health) cs) c) := by
  obtain ⟨htogether, htime, hhealth⟩ := failed_save hop hij hboth hfail
  have hsound := step_sound _ c (run_sound chip stored health cs)
  generalize step (run step (boot chip stored health) cs) c = w at *
  constructor
  · intro hwarned
    obtain ⟨msg, hmsg⟩ := hwarned [] (fun d hd => absurd hd List.not_mem_nil)
      (fun js hjs => by rw [List.prefix_nil.mp hjs]; exact htogether)
    change w.env.health .interlockBothOn = .warn msg at hmsg
    rw [hhealth] at hmsg
    cases hmsg
  · intro hcorrected
    obtain ⟨t, ht, hkept⟩ := exists_tick_keeps hsound htogether.1 c.time
    obtain ⟨hoff, -⟩ := hcorrected [] (.plain .tick t) (fun d hd => absurd hd List.not_mem_nil)
      (fun js hjs => by rw [List.prefix_nil.mp hjs]; exact htogether)
      (List.pairwise_singleton _ _) (fun d hd => by
        rw [List.mem_singleton.mp hd, htime]
        exact ht) rfl (fun a ha => absurd ha List.not_mem_nil)
    change (step w (.plain .tick t)).s.mask.has i = false at hoff
    rw [hkept] at hoff
    cases hoff

/-- Relays 1 and 2 are on when they are made a pair and the bus fails. -/
def bothOnRun : List Call :=
  [.plain (.init .schemaDefault) 0, .plain (.set 1 true .web) 10, .plain (.set 2 true .web) 20]

def deafSave : Call :=
  ⟨.updateConfig (DeviceConfig.schemaDefault.pair 1 2), 30, [.lost .timeout, .lost .timeout], none⟩

theorem deafSave_forgets :
    ¬StaysWarned 0 1 (step (run step coldBoot bothOnRun) deafSave) ∧
      ¬IsCorrected 0 1 (step (run step coldBoot bothOnRun) deafSave) :=
  failed_save_forgets ⟨0x00#8, 0xff#8⟩ none (fun _ => .normal) bothOnRun deafSave
    (DeviceConfig.schemaDefault.pair 1 2) rfl 0 1 rfl (by unfold Together; decide +kernel)
    .timeout rfl

/-- A tick ten seconds later finds both still on and leaves them. -/
theorem deafSave_unnoticed :
    ¬(StaysWarned 0 1 (step (run step coldBoot bothOnRun) deafSave) ∧
      IsCorrected 0 1 (step (run step coldBoot bothOnRun) deafSave)) := by
  rintro ⟨-, hcorrected⟩
  have hoff := hcorrected [] (.plain .tick 10030) (fun d hd => absurd hd List.not_mem_nil)
    (fun js hjs => by
      rw [List.prefix_nil.mp hjs]
      unfold Together
      decide +kernel)
    (List.pairwise_singleton _ _) (by decide +kernel) rfl (by decide +kernel)
  exact absurd hoff (by decide +kernel)

end RelayBoard
