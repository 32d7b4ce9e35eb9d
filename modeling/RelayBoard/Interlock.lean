import RelayBoard.RelayInit
import RelayBoard.RelayTargets

/-!
# The interlock

Two relays that are each other's partner are never energised together, in any
state or in any value written to the expander. The invariant also says that a
relay waiting out its dead time is off. It carries over every call but one: a
tick in which the dead times of both partners have run out switches both on,
and re-pairing two relays which are both waiting leads there.
-/

set_option autoImplicit false

namespace RelayBoard
open BitVec Lib.Loops Lib.Runs Lib.Clock Relay

def Mutual (cfg : DeviceConfig) (i j : Channel) : Prop := i ≠ j ∧ Partner cfg i j ∧ Partner cfg j i

instance (cfg : DeviceConfig) (i j : Channel) : Decidable (Mutual cfg i j) :=
  inferInstanceAs (Decidable (_ ∧ _))

/-- No two relays that are each other's partner are in `mask` together. -/
def NeverBoth (cfg : DeviceConfig) (mask : Mask) : Prop :=
  ∀ i j, Mutual cfg i j → ¬(mask.has i = true ∧ mask.has j = true)

instance (cfg : DeviceConfig) (mask : Mask) : Decidable (NeverBoth cfg mask) :=
  inferInstanceAs (Decidable (∀ _ _, _ → _))

/-- The coils and everything the last call wrote to the output register. -/
def Interlocked (w : World) : Prop :=
  NeverBoth w.s.cfg w.s.mask ∧
    ∀ e ∈ w.env.writes, e.1 = .output → NeverBoth w.s.cfg (fromReg e.2)

instance (w : World) : Decidable (Interlocked w) := inferInstanceAs (Decidable (_ ∧ _))

structure Guard (w : World) : Prop where
  paired : Paired w.s.cfg
  steady : w.s.Steady
  interlocked : Interlocked w
  waiting : ∀ i, w.s.pendingOn.has i = true → w.s.mask.has i = false

theorem NeverBoth.mono {cfg : DeviceConfig} {a b : Mask} (h : NeverBoth cfg a)
    (hba : ∀ i, b.has i = true → a.has i = true) : NeverBoth cfg b :=
  fun i j hm hb => h i j hm ⟨hba i hb.1, hba j hb.2⟩

theorem neverBoth_cleared (cfg : DeviceConfig) (mask : Mask) :
    NeverBoth cfg (clearInterlockConflicts cfg mask).1 := by
  rintro i j ⟨-, hij, -⟩ ⟨hi, hj⟩
  rw [(clearInterlockConflicts_has cfg mask i).1] at hi
  rw [(clearInterlockConflicts_has cfg mask j).1, Bool.and_eq_true] at hj
  have hon : PartnerOn cfg mask i := ⟨j, hij, hj.1⟩
  simp [hon] at hi

/-- What one phase keeps. No value it aims at has two partners in it. -/
structure Guarded (w w' : World) : Prop where
  guard : Guard w'
  cfg : w'.s.cfg = w.s.cfg
  aims : Aims (NeverBoth w.s.cfg) w w'

theorem Guarded.refl {w : World} (h : Guard w) : Guarded w w := ⟨h, rfl, .refl _ w⟩

theorem Guarded.trans {a b c : World} (h : Guarded a b) (k : Guarded b c) : Guarded a c := by
  refine ⟨k.guard, k.cfg.trans h.cfg, h.aims.trans ?_⟩
  rw [← h.cfg]
  exact k.aims

theorem Guard.next {w w' : World} {e : Channel → List Event} (h : Guard w) (ha : Acts w w' e)
    (hcfg : w'.s.cfg = w.s.cfg) (haims : Aims (NeverBoth w.s.cfg) w w')
    (hapart : NeverBoth w.s.cfg w'.s.mask)
    (hwait : ∀ i, w'.s.pendingOn.has i = true → w'.s.mask.has i = false) : Guarded w w' := by
  refine ⟨⟨?_, ha.steady h.steady, ⟨?_, ?_⟩, hwait⟩, hcfg, haims⟩
  · rw [hcfg]
    exact h.paired
  · rw [hcfg]
    exact hapart
  · intro x hx hreg
    rw [hcfg]
    rcases haims.writes x hx with hold | ⟨m, hm, rfl⟩
    · exact h.interlocked.2 x hold hreg
    · exact hm

theorem Guard.neverBoth_on {w : World} (h : Guard w) {up : Channel → Prop} {m : Mask}
    (hm : Within w up m) (hoff : ∀ i, up i → ¬PartnerOn w.s.cfg w.s.mask i)
    (hup : ∀ i j, Mutual w.s.cfg i j → ¬(up i ∧ up j)) : NeverBoth w.s.cfg m := by
  rintro i j hij ⟨hi, hj⟩
  rcases hm i hi with hi' | hi' <;> rcases hm j hj with hj' | hj'
  · exact h.interlocked.1 i j hij ⟨hi', hj'⟩
  · exact hoff j hj' ⟨i, hij.2.2, hi'⟩
  · exact hoff i hi' ⟨j, hij.2.1, hj'⟩
  · exact hup i j hij ⟨hi', hj'⟩

theorem Guard.neverBoth_off {w : World} (h : Guard w) (m : Mask)
    (hm : Within w (fun _ => False) m) : NeverBoth w.s.cfg m :=
  h.neverBoth_on hm (fun _ hup => hup.elim) fun _ _ _ hup => hup.1

theorem Guard.shrink {w w' : World} {e : Channel → List Event} (h : Guard w) (ha : Acts w w' e)
    (hcfg : w'.s.cfg = w.s.cfg) (haims : Aims (NeverBoth w.s.cfg) w w')
    (hon : ∀ i, Event.on ∉ e i) (hdefer : ∀ i dead src, Event.defer dead src ∉ e i) :
    Guarded w w' := by
  have hcoil : ∀ i, w'.s.mask.has i = true → w.s.mask.has i = true :=
    fun i hi => (ha.coil_of hi).resolve_right (hon i)
  refine h.next ha hcfg haims (h.interlocked.1.mono hcoil) (fun i hp => ?_)
  rcases ha.pending_of hp with hold | ⟨dead, src, hd⟩
  · have hoff := h.waiting i hold
    rw [← Bool.not_eq_true] at hoff ⊢
    exact fun hc => hoff (hcoil i hc)
  · exact absurd hd (hdefer i dead src)

theorem Guard.off_of_partnerOn {w : World} (h : Guard w) {i : Channel}
    (hp : PartnerOn w.s.cfg w.s.mask i) : w.s.mask.has i = false := by
  obtain ⟨j, hij, hj⟩ := hp
  have hne : i ≠ j := by
    rintro rfl
    exact h.paired.irrefl i hij
  rw [← Bool.not_eq_true]
  exact fun hi => h.interlocked.1 i j ⟨hne, hij, h.paired.symm i j hij⟩ ⟨hi, hj⟩

theorem coilOn_guarded (i : Channel) (src : RelaySource) (w : World) (h : Guard w) :
    Guarded w (coilOn i src w).2 := by
  have ha := coilOn_acts i src w h.steady
  have hcfg := (coilOn_wrote i src w).cfg
  have hapart : ∀ m, Within w (fun j => j = i ∧ ¬PartnerOn w.s.cfg w.s.mask i) m →
      NeverBoth w.s.cfg m := by
    refine fun m hm => h.neverBoth_on hm ?_ ?_
    · rintro j ⟨rfl, hp⟩
      exact hp
    · rintro a b hab ⟨⟨rfl, -⟩, ⟨rfl, -⟩⟩
      exact hab.1 rfl
  have haims := (coilOn_aims w i src).mono hapart
  split_ifs at ha with hok hp hpend
  · exact h.shrink ha hcfg haims (by simp) (by simp)
  · have hcoil : ∀ j, (coilOn i src w).2.s.mask.has j = true → w.s.mask.has j = true := by
      intro j hj
      refine (ha.coil_of hj).resolve_right ?_
      split_ifs <;> simp
    refine h.next ha hcfg haims (h.interlocked.1.mono hcoil) (fun j hj => ?_)
    rw [← Bool.not_eq_true]
    intro hc
    have hoff : w.s.mask.has j = false := by
      rcases ha.pending_of hj with hold | ⟨dead, src', hd⟩
      · exact h.waiting j hold
      · have hji : j = i := by
          by_contra hne
          simp [hne] at hd
        rw [hji]
        exact h.off_of_partnerOn hp
    rw [hcoil j hc] at hoff
    cases hoff
  · exact h.shrink ha hcfg haims (by simp) (by simp)
  · have hcoil : ∀ j, (coilOn i src w).2.s.mask.has j = true →
        w.s.mask.has j = true ∨ j = i ∧ ¬PartnerOn w.s.cfg w.s.mask i := by
      intro j hj
      refine (ha.coil_of hj).imp_right (fun hon => ⟨?_, hp⟩)
      by_contra hne
      simp [hne] at hon
    refine h.next ha hcfg haims (hapart _ hcoil) (fun j hj => ?_)
    have hold : w.s.pendingOn.has j = true := by
      refine (ha.pending_of hj).resolve_right ?_
      rintro ⟨dead, src', hd⟩
      split_ifs at hd <;> simp at hd
    rw [← Bool.not_eq_true]
    intro hc
    rcases hcoil j hc with hon | ⟨rfl, -⟩
    · rw [h.waiting j hold] at hon
      cases hon
    · exact hpend hold

theorem command_guarded (i : Channel) (k : Command) (w : World) (h : Guard w) :
    Guarded w (command i k w).2 := by
  unfold command
  split_ifs
  · exact coilOn_guarded i k.src w h
  · exact h.shrink (coilOff_acts i w h.steady) (coilOff_wrote i w).cfg
      ((coilOff_aims w i _).mono h.neverBoth_off) (by simp) (by simp)

theorem setOrToggle_guarded (channel : ℕ) (onReq : Option Bool) (src : RelaySource) (w : World)
    (h : Guard w) : Guarded w (setOrToggle channel onReq src w).2.1 := by
  by_cases hc : channel < 1 ∨ 8 < channel
  · rw [setOrToggle, dif_pos hc]
    exact .refl h
  · obtain ⟨i, rfl⟩ := exists_index hc
    rw [setOrToggle_channel]
    exact command_guarded i _ w h

/-- No two partners have both waited out their dead time. -/
def DueApart (now : Ms) (s : St) : Prop :=
  ∀ i j, Mutual s.cfg i j → ¬(s.due now i = true ∧ s.due now j = true)

theorem firePending_guarded (w : World) (h : Guard w) (hdue : DueApart (nowMs w.env) w.s) :
    Guarded w (firePending w).2 := by
  have ha := firePending_acts w h.steady
  have hapart : ∀ m, Within w (fun j => w.s.due (nowMs w.env) j = true ∧
      ¬PartnerOn w.s.cfg w.s.mask j) m → NeverBoth w.s.cfg m := fun m hm =>
    h.neverBoth_on hm (fun i hi => hi.2) fun i j hij hup => hdue i j hij ⟨hup.1.1, hup.2.1⟩
  have hcoil : ∀ i, (firePending w).2.s.mask.has i = true →
      w.s.mask.has i = true ∨ (firePending w).1.has i = true := by
    intro i hi
    refine (ha.coil_of hi).imp_right (fun hon => ?_)
    split_ifs at hon with hf
    · exact hf
    · simp at hon
    · simp at hon
  refine h.next ha (firePending_wrote w).cfg ((firePending_aims w).mono hapart)
    (hapart _ fun i hi => (hcoil i hi).imp_right of_fired) (fun i hi => ?_)
  have hold : w.s.pendingOn.has i = true := by
    refine (ha.pending_of hi).resolve_right ?_
    rintro ⟨dead, src, hd⟩
    split_ifs at hd <;> simp at hd
  rw [← Bool.not_eq_true]
  intro hc
  rcases hcoil i hc with hon | hf
  · rw [h.waiting i hold] at hon
    cases hon
  · have hp : ((firePending w).2.s.relay i).pending = true := hi
    rw [ha.relay i, if_pos hf] at hp
    simp [applyAll, apply, on, cancel] at hp

theorem saveHold_guarded (w : World) (h : Guard w) : Guarded w (saveHold w) := by
  refine ⟨⟨?_, (saveHold_acts w).steady h.steady, ⟨?_, ?_⟩, ?_⟩, saveHold_cfg w, saveHold_aims w _⟩
  · rw [saveHold_cfg]
    exact h.paired
  · rw [saveHold_cfg, saveHold_mask]
    exact h.interlocked.1
  · rw [saveHold_cfg, saveHold_writes]
    exact h.interlocked.2
  · rw [saveHold_mask, saveHold_pendingOn]
    exact h.waiting

theorem timedOut_guarded (w : World) (h : Guard w) : Guarded w (timedOut w) := by
  have hp : Guarded w (endPulses w) :=
    h.shrink (endPulses_acts w h.steady) (endPulses_wrote w).cfg
      ((endPulses_aims w _).mono h.neverBoth_off) (by simp) (by simp)
  exact hp.trans (hp.guard.shrink (expireMaxOn_acts _ hp.guard.steady) (expireMaxOn_wrote _).cfg
    ((expireMaxOn_aims _ _).mono hp.guard.neverBoth_off) (by simp) (by simp))

theorem tick_guarded (w : World) (h : Guard w) (hdue : DueApart (nowMs w.env) w.s) :
    Guarded w (relayCtrlTick w).1 := by
  have hm := timedOut_moved w
  have ht := timedOut_guarded w h
  have hdue' : DueApart (nowMs (timedOut w).env) (timedOut w).s := by
    intro i j hij
    rw [hm.cfg] at hij
    rw [hm.nowMs, timedOut_due, timedOut_due]
    exact hdue i j hij
  have hf := firePending_guarded _ ht.guard hdue'
  exact (ht.trans hf).trans (saveHold_guarded _ hf.guard)

theorem updateConfig_aims (cfg : DeviceConfig) (w : World) :
    Aims (NeverBoth cfg) w (relayCtrlUpdateConfig cfg w).1 := by
  have h := resolveConflict_aims (applyConfig cfg w)
  rw [applyConfig_cfg] at h
  have haims := h.mono (Q := NeverBoth cfg) fun m hm => hm ▸ neverBoth_cleared cfg _
  exact ⟨haims.writes, haims.chip⟩

/-- New settings leave the coils as they were or switch some off. -/
theorem updateConfig_off (cfg : DeviceConfig) (w : World) (h : w.s.Steady) {i : Channel}
    (hi : (relayCtrlUpdateConfig cfg w).1.s.mask.has i = true) : w.s.mask.has i = true := by
  refine ((updateConfig_acts cfg w h).coil_of hi).resolve_right ?_
  unfold updateEvents
  split_ifs <;> simp

/-- The settings of a save are in force whether or not the coils of a new pair
could be switched off. -/
theorem updateConfig_guard (cfg : DeviceConfig) (w : World) (h : Guard w)
    (hfresh : w.env.writes = []) (hp : Paired cfg)
    (hapart : NeverBoth cfg (relayCtrlUpdateConfig cfg w).1.s.mask) :
    Guard (relayCtrlUpdateConfig cfg w).1 := by
  have ha := updateConfig_acts cfg w h.steady
  have hcfg : (relayCtrlUpdateConfig cfg w).1.s.cfg = cfg :=
    (resolveConflict_wrote (applyConfig cfg w)).cfg.trans (applyConfig_cfg cfg w)
  refine ⟨by rwa [hcfg], ha.steady h.steady, ⟨by rwa [hcfg], fun e he hreg => ?_⟩, fun i hi => ?_⟩
  · rcases (updateConfig_aims cfg w).writes e he with hold | ⟨m, hm, rfl⟩
    · rw [hfresh] at hold
      cases hold
    · rw [hcfg]
      exact hm
  · have hold : w.s.pendingOn.has i = true := by
      refine (ha.pending_of hi).resolve_right ?_
      rintro ⟨dead, src, hd⟩
      unfold updateEvents at hd
      split_ifs at hd <;> simp at hd
    rw [← Bool.not_eq_true]
    intro hc
    have hon := updateConfig_off cfg w h.steady hc
    rw [h.waiting i hold] at hon
    cases hon

theorem updateConfig_neverBoth (cfg : DeviceConfig) (w : World) (hr : w.env.Reliable) :
    NeverBoth cfg (relayCtrlUpdateConfig cfg w).1.s.mask := by
  rw [updateConfig_world, resolveConflict_mask (applyConfig cfg w) hr, applyConfig_cfg]
  exact neverBoth_cleared _ _

theorem init_guard (cfg : DeviceConfig) (w : World) (hok : (relayCtrlInit cfg w).1 = .ok ())
    (hfresh : w.env.writes = []) (hp : Paired cfg) : Guard (relayCtrlInit cfg w).2 := by
  rcases relayCtrlInit_cases cfg w with
    ⟨e, env, -, -, hi⟩ | ⟨warm, held, env, wrote, hacc, hwrote, -, -, -, hi⟩
  · rw [hi] at hok
    cases hok
  · rw [hi]
    have hapart := neverBoth_cleared cfg (held &&& holdMask cfg)
    refine ⟨by simpa using hp, booted_steady cfg warm held _ _ env,
      ⟨by simpa using hapart, fun e he hreg => ?_⟩, ?_⟩
    · rw [booted_writes, hacc.writes, hfresh, List.nil_append] at he
      rcases hwrote e he with hc | rfl
      · rw [hc] at hreg
        cases hreg
      · rw [booted_cfg]
        exact hapart
    · simp

/-- What a call must meet: a tick finds no two partners both due. -/
def InterlockSafe (w : World) (c : Call) : Prop :=
  c.op.isTick = true → DueApart (reading 32 c.time) w.s

instance (now : Ms) (s : St) : Decidable (DueApart now s) :=
  inferInstanceAs (Decidable (∀ _ _, _ → _))

instance (w : World) (c : Call) : Decidable (InterlockSafe w c) :=
  inferInstanceAs (Decidable (_ → _))

theorem Guard.begin {w : World} (h : Guard w) (c : Call) : Guard (w.begin c) :=
  ⟨h.paired, h.steady, ⟨h.interlocked.1, by simp [World.begin, Env.begin]⟩, h.waiting⟩

theorem call_guarded (w : World) (c : Call) (h : Guard w)
    (hop : c.op.Configures fun _ => False) (hsafe : InterlockSafe w c) :
    Guarded (w.begin c) (step w c) := by
  obtain ⟨op, time, faults, saveErr⟩ := c
  have hb := h.begin ⟨op, time, faults, saveErr⟩
  cases op with
  | init cfg => exact hop.elim
  | set channel on src => exact setOrToggle_guarded channel (some on) src _ hb
  | toggle channel src => exact setOrToggle_guarded channel none src _ hb
  | tick => exact tick_guarded _ hb (hsafe rfl)
  | skLost =>
    exact hb.shrink (skLost_acts _ hb.steady) (skLost_wrote _).cfg
      ((skLost_aims _ _).mono hb.neverBoth_off) (by simp) (by simp)
  | updateConfig cfg => exact hop.elim

theorem step_guard (w : World) (c : Call) (h : Guard w) (hr : c.Reliable)
    (hcfg : c.op.Configures Paired) (hsafe : InterlockSafe w c) : Guard (step w c) := by
  obtain ⟨op, time, faults, saveErr⟩ := c
  have hb := h.begin ⟨op, time, faults, saveErr⟩
  have hcall : op.Configures (fun _ => False) → Guard (step w ⟨op, time, faults, saveErr⟩) :=
    fun hop => (call_guarded w _ h hop hsafe).guard
  cases op with
  | init cfg => exact init_guard cfg _ (relayCtrlInit_ok cfg _ hr) rfl hcfg
  | updateConfig cfg =>
    exact updateConfig_guard cfg _ hb rfl hcfg (updateConfig_neverBoth cfg _ hr)
  | _ => exact hcall trivial

theorem boot_guard (chip : Chip) (stored : Option Mask) (health : HealthKey → Health) :
    Guard (boot chip stored health) := by
  have hnone : ∀ i j, ¬Partner DeviceConfig.zero i j := by
    intro i j h
    simp [Partner, DeviceConfig.zero, RelayCfg.zero] at h
  refine ⟨⟨fun i j h => absurd h (hnone i j), fun i => hnone i i⟩, fun i => ?_,
    ⟨fun i j h => absurd h.2.1 (hnone i j), by simp [boot]⟩, ?_⟩
  · simp [boot, St.zero, Steady]
  · simp [boot, St.zero]

theorem firePending_on (w : World) (h : w.s.Steady) {i : Channel}
    (hf : (firePending w).1.has i = true) : (firePending w).2.s.mask.has i = true := by
  have hc : ((firePending w).2.s.relay i).coil = true := by
    rw [(firePending_acts w h).relay i, if_pos hf]
    rfl
  exact hc

/-- A tick that finds two partners both due switches both on. -/
theorem tick_not_interlocked (w : World) (h : Guard w) (hr : w.env.Reliable) {i j : Channel}
    (hm : Mutual w.s.cfg i j) (hi : w.s.due (nowMs w.env) i = true)
    (hj : w.s.due (nowMs w.env) j = true) : ¬Interlocked (relayCtrlTick w).1 := by
  have hg := (timedOut_guarded w h).guard
  have hmoved := timedOut_moved w
  -- Both are off when the loop looks, so neither holds the other back.
  rw [← timedOut_due w, ← hmoved.nowMs] at hi hj
  rw [← hmoved.cfg] at hm
  have hoff : ∀ k, (timedOut w).s.due (nowMs (timedOut w).env) k = true →
      (timedOut w).s.mask.has k = false := by
    intro k hk
    rw [St.due, Bool.and_eq_true] at hk
    exact hg.waiting k hk.1
  have hon : ∀ a b, Mutual (timedOut w).s.cfg a b →
      (timedOut w).s.due (nowMs (timedOut w).env) a = true →
      (timedOut w).s.due (nowMs (timedOut w).env) b = true →
      (relayCtrlTick w).1.s.mask.has a = true := by
    intro a b hab ha hb
    rw [tick_world, saveHold_mask]
    refine firePending_on _ hg.steady (fired_of_reliable (hmoved.env.reliable hr) ha ?_)
    rintro ⟨k, hak, hk⟩
    obtain rfl := partner_unique hab.2.1 hak
    rw [hoff b hb] at hk
    cases hk
  have hcfg : (relayCtrlTick w).1.s.cfg = (timedOut w).s.cfg := by
    rw [tick_world, saveHold_cfg]
    exact (firePending_wrote _).cfg
  intro hint
  have happly := hint.1 i j
  rw [hcfg] at happly
  exact happly hm ⟨hon i j hm hi hj, hon j i ⟨hm.1.symm, hm.2.2, hm.2.1⟩ hj hi⟩

theorem interlockSafe_of_step (w : World) (c : Call) (h : Guard w) (hr : c.Reliable)
    (hint : Interlocked (step w c)) : InterlockSafe w c := by
  obtain ⟨op, time, faults, saveErr⟩ := c
  intro ht i j hm hdue
  cases op with
  | tick =>
    exact tick_not_interlocked _ (h.begin ⟨.tick, time, faults, saveErr⟩) hr hm hdue.1 hdue.2 hint
  | init cfg => cases ht
  | set channel on src => cases ht
  | toggle channel src => cases ht
  | skLost => cases ht
  | updateConfig cfg => cases ht

/-- In a run on a reliable expander no two partners are ever on together
exactly if no tick finds two partners both due. -/
theorem run_interlocked_iff (chip : Chip) (stored : Option Mask) (health : HealthKey → Health)
    (cs : List Call) (hr : ∀ c ∈ cs, c.Reliable) (hcfg : ∀ c ∈ cs, c.op.Configures Paired) :
    (∀ js, js <+: cs → Interlocked (run step (boot chip stored health) js)) ↔
      ∀ e ∈ history step (boot chip stored health) cs, InterlockSafe e.1 e.2 := by
  refine prefixes_iff_history step (A := fun c => c.Reliable ∧ c.op.Configures Paired) (I := Guard)
    _ (boot_guard chip stored health) (fun w h => h.interlocked)
    (fun w c hc h hsafe => step_guard w c h hc.1 hc.2 hsafe)
    (fun w c hc h hint => interlockSafe_of_step w c h hc.1 hint) cs (fun c hc => ?_)
  exact ⟨hr c hc, hcfg c hc⟩

/-- The pairs 1-2 and 3-4; relays 1 and 3 wait out their dead times when 1 and
3 are made a pair. -/
def repairRun : List Call :=
  [.plain (.init ((DeviceConfig.schemaDefault.pair 1 2).pair 3 4)) 0,
    .plain (.set 2 true .web) 10,
    .plain (.set 1 true .web) 20,
    .plain (.set 4 true .web) 30,
    .plain (.set 3 true .web) 40,
    .plain (.updateConfig (DeviceConfig.schemaDefault.pair 1 3)) 50,
    .plain .tick 200]

theorem repaired_relays_on_together :
    ¬∀ (chip : Chip) (stored : Option Mask) (health : HealthKey → Health) (cs : List Call),
      (∀ c ∈ cs, c.Reliable) → (∀ c ∈ cs, c.op.Configures Paired) →
      (cs.map Call.time).Pairwise (· ≤ ·) →
      Interlocked (run step (boot chip stored health) cs) := by
  intro h
  have hrun := h ⟨0x00#8, 0xff#8⟩ none (fun _ => .normal) repairRun (by decide +kernel)
    (by decide +kernel) (by decide +kernel)
  exact absurd hrun (by decide +kernel)

/-- Two partners commanded on in turn. -/
theorem run_interlocked_iff_pair :
    (∀ js, js <+: repairRun.take 3 ++ [.plain .tick 200] → Interlocked (run step coldBoot js)) ↔
      ∀ e ∈ history step coldBoot (repairRun.take 3 ++ [.plain .tick 200]), InterlockSafe e.1 e.2 :=
  run_interlocked_iff ⟨0x00#8, 0xff#8⟩ none (fun _ => .normal)
    (repairRun.take 3 ++ [.plain .tick 200]) (by decide +kernel) (by decide +kernel)

end RelayBoard
