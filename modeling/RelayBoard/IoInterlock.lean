import RelayBoard.Commands
import RelayBoard.Interlock
import RelayBoard.IoTask

/-!
# Pairs that stay

While the settings keep the interlock pairs, two partners never wait out their
dead times together: a turn-on is deferred only while the partner's coil is on,
and a coil that is on is not waiting. So no tick can find both due, and the
interlock holds however the I/O task's inputs, schedules, timers and settings
saves fall between the commands of the other tasks.
-/

set_option autoImplicit false

namespace RelayBoard
open BitVec Lib.Runs Relay

def SamePairs (cfg cfg' : DeviceConfig) : Prop :=
  ∀ i, (cfg'.relays i).interlock = (cfg.relays i).interlock

instance (cfg : DeviceConfig) : DecidablePred (SamePairs cfg) :=
  fun _ => inferInstanceAs (Decidable (∀ _, _ = _))

def Apart (w : World) : Prop :=
  ∀ i j, Mutual w.s.cfg i j → ¬(w.s.pendingOn.has i = true ∧ w.s.pendingOn.has j = true)

/-- No two partners are energised, driven or written together. -/
def NeverTogether (cfg : DeviceConfig) (w : World) : Prop :=
  NeverBoth cfg w.s.mask ∧ NeverBoth cfg (fromReg w.env.chip.output) ∧
    ∀ e ∈ w.env.writes, e.1 = .output → NeverBoth cfg (fromReg e.2)

variable {cfg cfg' : DeviceConfig} {w : World} {c : Call}

theorem SamePairs.partner (h : SamePairs cfg cfg') (i j : Channel) :
    Partner cfg' i j ↔ Partner cfg i j := by
  unfold Partner
  rw [h i]

theorem SamePairs.mutual (h : SamePairs cfg cfg') (i j : Channel) :
    Mutual cfg' i j ↔ Mutual cfg i j := by
  unfold Mutual
  rw [h.partner, h.partner]

theorem SamePairs.paired (h : SamePairs cfg cfg') (hp : Paired cfg) : Paired cfg' :=
  ⟨fun i j hij => (h.partner j i).mpr (hp.symm i j ((h.partner i j).mp hij)),
    fun i hi => hp.irrefl i ((h.partner i i).mp hi)⟩

theorem SamePairs.neverBoth (h : SamePairs cfg cfg') (mask : Mask) :
    NeverBoth cfg' mask ↔ NeverBoth cfg mask := by
  simp only [NeverBoth, h.mutual]

theorem Apart.dueApart (h : Apart w) (now : Ms) : DueApart now w.s := by
  intro i j hm hdue
  simp only [St.due, Bool.and_eq_true] at hdue
  exact h i j hm ⟨hdue.1.1, hdue.2.1⟩

/-- Only a relay whose partner is on starts to wait. -/
theorem partnerOn_of_defers {i : Channel} (h : defers w c i = true) :
    PartnerOn w.s.cfg w.s.mask i := by
  unfold defers at h
  exact of_decide_eq_true (Bool.and_eq_true_iff.mp h).2

/-- What is kept over every call that leaves the pairs as they are. -/
structure Settled (cfg : DeviceConfig) (w : World) : Prop where
  guard : Guard w
  apart : Apart w
  pairs : SamePairs cfg w.s.cfg
  chip : NeverBoth cfg (fromReg w.env.chip.output)

theorem Settled.mutual (h : Settled cfg w) (i j : Channel) :
    Mutual w.s.cfg i j ↔ Mutual cfg i j := h.pairs.mutual i j

theorem Settled.neverTogether (h : Settled cfg w) : NeverTogether cfg w := by
  have hinter := h.guard.interlocked
  exact ⟨(h.pairs.neverBoth _).mp hinter.1, h.chip,
    fun e he hreg => (h.pairs.neverBoth _).mp (hinter.2 e he hreg)⟩

theorem samePairs_config {op : Op} (h : SamePairs cfg w.s.cfg)
    (hop : op.running = true) (hcfg : op.Configures (SamePairs cfg)) :
    SamePairs cfg (op.config w.s.cfg) := by
  cases op with
  | init cfg => cases hop
  | updateConfig cfg => exact hcfg
  | _ => exact h

/-- The partner of a relay that starts to wait is on, and so is not waiting. -/
theorem not_waiting_of_defers (h : Guard w) {i j : Channel} (hm : Mutual w.s.cfg i j)
    (hd : defers w c i = true) : w.s.mask.has j = true ∧ w.s.pendingOn.has j = false := by
  obtain ⟨k, hik, hon⟩ := partnerOn_of_defers hd
  obtain rfl := partner_unique hm.2.1 hik
  refine ⟨hon, ?_⟩
  rw [← Bool.not_eq_true]
  intro hp
  rw [h.waiting j hp] at hon
  cases hon

theorem step_apart (w : World) (c : Call) (h : Settled cfg w) (hop : c.op.running = true)
    (hcfg : c.op.Configures (SamePairs cfg)) : Apart (step w c) := by
  intro i j hm
  rw [step_cfg w c hop, (samePairs_config h.pairs hop hcfg).mutual, ← h.mutual] at hm
  have hm' : Mutual w.s.cfg j i := ⟨hm.1.symm, hm.2.2, hm.2.1⟩
  have hacts := step_acts w c hop h.guard.steady
  rintro ⟨hi, hj⟩
  rcases hacts.pending_of hi with hi | ⟨_, _, hi⟩ <;>
    rcases hacts.pending_of hj with hj | ⟨_, _, hj⟩
  · exact h.apart i j hm ⟨hi, hj⟩
  · have hnot := (not_waiting_of_defers h.guard hm' (defers_of_mem w c hop hj)).2
    exact absurd (hnot.symm.trans hi) Bool.false_ne_true
  · have hnot := (not_waiting_of_defers h.guard hm (defers_of_mem w c hop hi)).2
    exact absurd (hnot.symm.trans hj) Bool.false_ne_true
  · exact h.guard.interlocked.1 i j hm
      ⟨(not_waiting_of_defers h.guard hm' (defers_of_mem w c hop hj)).1,
        (not_waiting_of_defers h.guard hm (defers_of_mem w c hop hi)).1⟩

/-- A value is driven only if a call has aimed at it. -/
theorem Aims.drives {w w' : World} (h : Aims (NeverBoth cfg) w w')
    (hw : NeverBoth cfg (fromReg w.env.chip.output)) :
    NeverBoth cfg (fromReg w'.env.chip.output) := by
  rcases h.chip with hsame | ⟨m, hm, hnew⟩
  · rwa [hsame]
  · rw [hnew]
    exact hm

/-- Settings with the same pairs find no conflict that would have to be
written. -/
theorem updateConfig_settled (w : World) (c : Call) (h : Settled cfg w)
    (hop : c.op = .updateConfig cfg') (hpairs : SamePairs cfg cfg') : Settled cfg (step w c) := by
  have hcfg : SamePairs cfg (step w c).s.cfg := by
    rw [step_cfg w c (by rw [hop]; rfl), hop]
    exact hpairs
  have happart := step_apart w c h (by rw [hop]; rfl) (by rw [hop]; exact hpairs)
  obtain ⟨op, time, faults, saveErr⟩ := c
  obtain rfl : op = .updateConfig cfg' := hop
  have hb := h.guard.begin ⟨.updateConfig cfg', time, faults, saveErr⟩
  have hold : NeverBoth cfg' w.s.mask :=
    (hpairs.neverBoth _).mpr ((h.pairs.neverBoth _).mp h.guard.interlocked.1)
  have hpaired : Paired cfg' :=
    SamePairs.paired (fun i => (hpairs i).trans (h.pairs i).symm) h.guard.paired
  refine ⟨updateConfig_guard cfg' _ hb rfl hpaired ?_, happart, hcfg, ?_⟩
  · exact hold.mono fun i hi => updateConfig_off cfg' _ hb.steady hi
  · have haims := updateConfig_aims cfg' (w.begin ⟨.updateConfig cfg', time, faults, saveErr⟩)
    exact (haims.mono fun m hm => (hpairs.neverBoth m).mp hm).drives h.chip

theorem step_settled (w : World) (c : Call) (h : Settled cfg w) (hop : c.op.running = true)
    (hcfg : c.op.Configures (SamePairs cfg)) : Settled cfg (step w c) := by
  have hcall : c.op.Configures (fun _ => False) → Settled cfg (step w c) := by
    intro hno
    have hg := call_guarded w c h.guard hno fun _ => h.apart.dueApart _
    have hpairs := samePairs_config h.pairs hop hcfg
    refine ⟨hg.guard, step_apart w c h hop hcfg, by rwa [step_cfg w c hop], ?_⟩
    exact (hg.aims.mono fun m hm => (h.pairs.neverBoth m).mp hm).drives h.chip
  cases hc : c.op with
  | init cfg =>
    rw [hc] at hop
    cases hop
  | updateConfig cfg' =>
    rw [hc] at hcfg
    exact updateConfig_settled w c h hc hcfg
  | _ => exact hcall (by rw [hc]; trivial)

theorem boot_settled (w : World) (c : Call) (h : Starts w c cfg) (hp : Paired cfg) :
    Settled cfg (step w c) := by
  have hguard : Guard (step w c) := by
    have hok := h.ok
    rw [step]
    unfold result at hok ⊢
    rw [h.op] at hok ⊢
    exact init_guard cfg (w.begin c) hok rfl hp
  obtain ⟨warm, held, env, -, -, hchip, -, hstep⟩ := h.booted
  have hcfg : (step w c).s.cfg = cfg := by rw [hstep, booted_cfg]
  have hidle : (step w c).s.pendingOn = 0#8 := by rw [hstep, booted_pendingOn]
  refine ⟨hguard, fun i j _ hij => ?_, fun i => by rw [hcfg], ?_⟩
  · rw [hidle, has_zero] at hij
    cases hij.1
  · obtain ⟨health, henv⟩ := booted_env cfg warm held (Lib.Clock.reading 32 c.time) w.s env
    rw [hstep, henv]
    change NeverBoth cfg (fromReg env.chip.output)
    rw [hchip]
    exact neverBoth_cleared cfg _

theorem Settled.clearHoldState (h : Settled cfg w) (erases : Bool) :
    Settled cfg (w.clearHoldState erases) := by
  unfold World.clearHoldState
  split_ifs
  · exact ⟨⟨h.guard.paired, h.guard.steady, h.guard.interlocked, h.guard.waiting⟩, h.apart,
      h.pairs, h.chip⟩
  · exact h

namespace IoTask

variable {δ : Type} (sunTimes : ℤ → ℕ → ℕ → δ → δ → SunTimes) {s : IoTask}

/-- Settings that are loaded keep the pairs. -/
def Keeps (cfg : DeviceConfig) : IoAction δ → Prop
  | .io x => ∀ settings, x.loaded = some settings → SamePairs cfg settings.relays
  | _ => True

/-- A call the task can have to make. -/
def Owed (cfg : DeviceConfig) (op : Op) : Prop :=
  op.running = true ∧ op.Configures (SamePairs cfg)

structure Settled (cfg : DeviceConfig) (s : IoTask) : Prop where
  relays : RelayBoard.Settled cfg s.relays
  pending : ∀ op ∈ s.pending, Owed cfg op

theorem owed_override {call : SenseCall} {op : Op} (h : call.relayOp = some op) :
    Owed cfg op := by
  cases call with
  | notify i on mask => cases h
  | override r action =>
    obtain rfl := Option.some.inj h
    cases action <;> exact ⟨rfl, trivial⟩

theorem owed_schedule {out : ScheduleOut} {op : Op} (h : out.relayOp = some op) :
    Owed cfg op := by
  cases out with
  | setRelay entry relay on =>
    obtain rfl := Option.some.inj h
    exact ⟨rfl, trivial⟩
  | health h' => cases h

theorem buttonPoll_settled (h : s.Settled cfg) (x : IoReads δ) : (s.buttonPoll x).Settled cfg := by
  unfold buttonPoll
  dsimp only
  split_ifs
  · exact h
  · split
    · exact ⟨h.relays, h.pending⟩
    · exact ⟨h.relays, h.pending⟩
    · exact ⟨h.relays.clearHoldState x.erases, h.pending⟩

theorem scheduleTick_settled (h : s.Settled cfg) (x : IoReads δ) :
    (s.scheduleTick sunTimes x).1.Settled cfg := by
  unfold scheduleTick
  dsimp only
  split_ifs
  · exact h
  · refine ⟨h.relays, fun op hop => ?_⟩
    obtain ⟨out, -, hout⟩ := List.mem_filterMap.mp hop
    exact owed_schedule hout

theorem enter_settled (h : s.Settled cfg) (x : IoReads δ) (hx : Keeps cfg (.io x)) :
    (s.enter sunTimes x).Settled cfg := by
  unfold enter
  cases s.pc with
  | kick =>
    dsimp only
    split_ifs
    · exact h
    · exact ⟨h.relays, h.pending⟩
  | wake =>
    dsimp only
    split
    · rename_i settings _ hloaded
      refine ⟨h.relays, fun op hop => ?_⟩
      obtain rfl := List.mem_singleton.mp hop
      exact ⟨rfl, hx settings hloaded⟩
    · exact ⟨h.relays, h.pending⟩
  | updateInputs => exact ⟨h.relays, h.pending⟩
  | updateBridge => exact ⟨h.relays, h.pending⟩
  | tick =>
    refine ⟨h.relays, fun op hop => ?_⟩
    obtain rfl := List.mem_singleton.mp hop
    exact ⟨rfl, trivial⟩
  | poll =>
    refine ⟨h.relays, fun op hop => ?_⟩
    obtain ⟨call, -, hcall⟩ := List.mem_filterMap.mp hop
    exact owed_override hcall
  | button => exact ⟨(buttonPoll_settled h x).relays, (buttonPoll_settled h x).pending⟩
  | skTick =>
    refine ⟨h.relays, fun op hop => ?_⟩
    dsimp only at hop
    split_ifs at hop
    · obtain rfl := List.mem_singleton.mp hop
      exact ⟨rfl, trivial⟩
    · cases hop
  | schedule =>
    exact ⟨(scheduleTick_settled sunTimes h x).relays, (scheduleTick_settled sunTimes h x).pending⟩

theorem step_settled (h : s.Settled cfg) (a : IoAction δ) (ha : Keeps cfg a) :
    (s.step sunTimes a).Settled cfg := by
  cases a with
  | io x =>
    unfold step
    dsimp only
    split
    · rename_i op rest hpending
      have hop : Owed cfg op := h.pending op (by simp [hpending])
      refine ⟨RelayBoard.step_settled _ _ h.relays hop.1 hop.2, fun o ho => ?_⟩
      exact h.pending o (by simp [hpending, show o ∈ rest from ho])
    · exact enter_settled sunTimes h x ha
  | command who channel on x =>
    exact ⟨RelayBoard.step_settled _ _ h.relays rfl trivial, h.pending⟩
  | streamChanged connected time => exact ⟨h.relays, h.pending⟩
  | configChange => exact ⟨h.relays, h.pending⟩

/-- From a boot that went through on, whatever the inputs, the schedules, the
button, the SignalK-loss timer and saved settings that keep the pairs lead to,
wherever the commands of other tasks fall between and whichever accesses to the
expander fail, no two partners are ever energised or driven together. -/
theorem pairs_never_both (w : World) (c : Call) (hc : Starts w c cfg) (hp : Paired cfg)
    (s : IoTask) (hs : s.relays = RelayBoard.step w c) (hidle : s.pending = [])
    (as : List (IoAction δ)) (has : ∀ a ∈ as, Keeps cfg a) :
    NeverTogether cfg (run (step sunTimes) s as).relays := by
  have hstart : s.Settled cfg := ⟨hs ▸ boot_settled w c hc hp, by simp [hidle]⟩
  have hrun : (run (step sunTimes) s as).Settled cfg :=
    run_invariant (step sunTimes) s hstart (fun _ a h ha => step_settled sunTimes h a ha) as
      fun e he => has e.2 (input_of_history _ _ _ e he)
  exact hrun.relays.neverTogether

/-- Two partners commanded on by two tasks. The write that switches the first
off reaches the chip, both its acknowledgements are lost. -/
def twoTasks : List (IoAction ℕ) :=
  let io := fun t => .io (plainReads t)
  [io 5, io 6, io 7, .command .web 1 true (plainReads 8), io 9, io 10,
    .command .n2k 2 true { plainReads 11 with faults := [.taken .fail, .taken .fail] },
    io 12, io 13]

theorem pairs_never_both_twoTasks :
    NeverTogether (DeviceConfig.schemaDefault.pair 1 2) (run (step noSun) (idle (RelayBoard.step
      coldBoot (.plain (.init (DeviceConfig.schemaDefault.pair 1 2)) 0))) twoTasks).relays :=
  pairs_never_both noSun coldBoot (.plain (.init (DeviceConfig.schemaDefault.pair 1 2)) 0)
    ⟨rfl, by decide +kernel⟩ (by decide) (idle _) rfl rfl twoTasks
    (by simp [twoTasks, Keeps, plainReads])

end IoTask

end RelayBoard
