import RelayBoard.Pulses
import RelayBoard.Reports

/-!
# Do listeners learn of every change?

A call tells the truth if its notices, taken over one by one into the reported
mask before it, give the reported mask after it, if each of them is news, and
if it speaks of a value the call has written. All calls do so but a save that
flips `wired_nc`, and a tick that carries out the turn-on of a coil which is on
already and which no timer switches off first.
-/

set_option autoImplicit false

namespace RelayBoard
open BitVec Lib.Loops Lib.Runs Lib.Clock

/-- The call that led to `w` wrote the reported value to the expander. -/
def Shown (w : World) (n : Notice) : Prop :=
  ∃ e ∈ w.env.writes, e.1 = .output ∧ (fromReg e.2 ^^^ wiredNcMask w.s.cfg).has n.relay = n.on

structure Told (w : World) (c : Call) : Prop where
  complete : applyNotices (relayCtrlGetMask w.s) (result w c).notices =
    relayCtrlGetMask (step w c).s
  news : Changing (relayCtrlGetMask w.s) (result w c).notices
  /-- A call that writes nothing makes none. -/
  quiet : ∀ n ∈ (result w c).notices, Shown (step w c) n

/-- One of the relay's timers, its pulse or its maximum on-time, has run out. -/
def St.timeUp (now : Ms) (s : St) (i : Channel) : Bool :=
  s.pulsing.has i && deadlinePassed now (s.pulseEnd i) ||
    s.limited.has i && deadlinePassed now (s.maxOnEnd i)

/-- The coils that are on and that no timer switches off. -/
def St.keptOn (now : Ms) (s : St) : Mask := collect fun i => s.mask.has i && !s.timeUp now i

/-- What a call has to meet for its notices to tell the truth: a save leaves
`wired_nc` alone, and at a tick a pending-on that is due for a coil which is on
either meets a partner that stays on, or comes with the end of the coil's own
pulse or maximum on-time, in a tick whose writes go through. -/
def Telling (w : World) (c : Call) : Prop :=
  match c.op with
  | .updateConfig cfg => wiredNcMask cfg = wiredNcMask w.s.cfg
  | .tick => ∀ i, w.s.due (reading 32 c.time) i = true → w.s.mask.has i = true →
    PartnerOn w.s.cfg (w.s.keptOn (reading 32 c.time)) i ∨
      (w.s.timeUp (reading 32 c.time) i = true ∧ noFailure c.faults = true)
  | _ => True

instance (w : World) (c : Call) : Decidable (Telling w c) :=
  match c with
  | ⟨.updateConfig _, _, _, _⟩ => inferInstanceAs (Decidable (_ = _))
  | ⟨.tick, _, _, _⟩ => inferInstanceAs (Decidable (∀ _, _))
  | ⟨.init _, _, _, _⟩ => inferInstanceAs (Decidable True)
  | ⟨.set _ _ _, _, _, _⟩ => inferInstanceAs (Decidable True)
  | ⟨.toggle _ _, _, _, _⟩ => inferInstanceAs (Decidable True)
  | ⟨.skLost, _, _, _⟩ => inferInstanceAs (Decidable True)

theorem endPulses_le {w : World} {i : Channel} (h : (endPulses w).s.mask.has i = true) :
    w.s.mask.has i = true := by
  obtain ⟨ended, env, -, -, ⟨fault, hc⟩ | ⟨-, hc⟩⟩ := endPulses_spec w <;> rw [hc] at h
  · change (w.s.mask &&& ~~~ended).has i = true at h
    rw [has_and, Bool.and_eq_true] at h
    exact h.1
  · exact h

theorem expireMaxOn_le {w : World} {i : Channel} (h : (expireMaxOn w).s.mask.has i = true) :
    w.s.mask.has i = true := by
  obtain ⟨expired, env, -, -, ⟨fault, hc⟩ | ⟨-, hc⟩⟩ := expireMaxOn_spec w <;> rw [hc] at h
  · change (w.s.mask &&& ~~~expired).has i = true at h
    rw [has_and, Bool.and_eq_true] at h
    exact h.1
  · exact h

section Through

variable {w : World} (h : noFailure w.env.faults = true)
include h

theorem commitLocked_through (target : Mask) : ∃ env fault, SameStore w.env env ∧
    commitLocked target w = (.ok (), ⟨w.s.commit target fault, env⟩) ∧
    noFailure env.faults = true := by
  obtain ⟨hrest, hok⟩ := noFailure_commit w.env.faults h
  rcases commitLocked_cases target w with ⟨ht, hc⟩ | ⟨-, -, health, hc⟩ | ⟨-, e, health, hr, -⟩
  · refine ⟨w.env, w.s.i2cFault, .refl _, ?_, h⟩
    rw [hc, ht, commit_same]
  · have hs := attempts_same (toReg target) w.env
    refine ⟨(w.env.attempts (toReg target)).showing health, false,
      ⟨hs.time, hs.stored, hs.saveErr, hs.saves, hs.reliable⟩, hc, ?_⟩
    change noFailure (w.env.attempts (toReg target)).faults = true
    rw [attempts_faults]
    exact hrest
  · rw [hok] at hr
    cases hr

theorem endPulses_through : noFailure (endPulses w).env.faults = true ∧
    ∀ i, (endPulses w).s.mask.has i = (w.s.mask.has i &&
      !(w.s.pulsing.has i && deadlinePassed (nowMs w.env) (w.s.pulseEnd i))) := by
  unfold endPulses
  extract_lets now ended
  have hended : ∀ i, ended.has i = (w.s.pulsing.has i && deadlinePassed now (w.s.pulseEnd i)) :=
    fun i => has_collect _ i
  obtain ⟨env, fault, -, hc, hf⟩ := commitLocked_through h (w.s.mask &&& ~~~ended)
  split_ifs with hz
  · rw [hc]
    refine ⟨hf, fun i => ?_⟩
    simp only [St.commit_mask, has_and, has_not, hended]
    rfl
  · rw [ne_eq, Decidable.not_not] at hz
    refine ⟨h, fun i => ?_⟩
    rw [← hended, hz, has_zero, Bool.not_false, Bool.and_true]

theorem expireMaxOn_through : noFailure (expireMaxOn w).env.faults = true ∧
    ∀ i, (expireMaxOn w).s.mask.has i = (w.s.mask.has i &&
      !(w.s.limited.has i && deadlinePassed (nowMs w.env) (w.s.maxOnEnd i))) := by
  unfold expireMaxOn
  extract_lets now expired
  have hexpired : ∀ i, expired.has i =
      (w.s.limited.has i && deadlinePassed now (w.s.maxOnEnd i)) := fun i => has_collect _ i
  obtain ⟨env, fault, -, hc, hf⟩ := commitLocked_through h (w.s.mask &&& ~~~expired)
  split_ifs with hz
  · rw [hc]
    refine ⟨hf, fun i => ?_⟩
    simp only [St.commit_mask, has_and, has_not, hexpired]
    rfl
  · rw [ne_eq, Decidable.not_not] at hz
    refine ⟨h, fun i => ?_⟩
    rw [← hexpired, hz, has_zero, Bool.not_false, Bool.and_true]

/-- Where the writes go through, the timers leave on what none of them ends. -/
theorem timedOut_through : noFailure (timedOut w).env.faults = true ∧
    (timedOut w).s.mask = w.s.keptOn (nowMs w.env) := by
  obtain ⟨hf, hpulses⟩ := endPulses_through h
  obtain ⟨hf', hlimits⟩ := expireMaxOn_through hf
  refine ⟨hf', ext_has (fun i => ?_)⟩
  rw [timedOut, hlimits, hpulses, (endPulses_limits w).1, (endPulses_limits w).2,
    (endPulses_wrote w).env.nowMs, St.keptOn, has_collect, St.timeUp, Bool.not_or, Bool.and_assoc]

/-- Every dead time that has run out beside a partner that is off fires. -/
theorem firePending_through (i : Channel) : (firePending w).1.has i =
    (w.s.due (nowMs w.env) i && !PartnerOn w.s.cfg w.s.mask i) := by
  have hcollect := (collectFired_relay (nowMs w.env) w.s i).1
  unfold firePending
  extract_lets now afterMaxOn due fired w'
  have hfired : fired.has i = (w.s.due now i && !PartnerOn w.s.cfg w.s.mask i) := hcollect
  rw [← hfired]
  obtain ⟨env, fault, -, hc, -⟩ := commitLocked_through (w := w') h (w'.s.mask ||| fired)
  split_ifs with hz
  · rw [hc]
  · rw [ne_eq, Decidable.not_not] at hz
    rw [hz]

end Through

/-- A coil that no timer ends stays on, whether the timers' writes go through
or not. -/
theorem timedOut_keeps {w : World} {i : Channel}
    (h : (w.s.keptOn (nowMs w.env)).has i = true) : (timedOut w).s.mask.has i = true := by
  rw [St.keptOn, has_collect, St.timeUp, Bool.not_or, Bool.and_eq_true, Bool.and_eq_true,
    Bool.not_eq_true', Bool.not_eq_true'] at h
  refine expireMaxOn_keeps (endPulses_keeps h.1 h.2.1) ?_
  rw [(endPulses_limits w).1, (endPulses_limits w).2, (endPulses_wrote w).env.nowMs]
  exact h.2.2

theorem partnerOn_mono {cfg : DeviceConfig} {a b : Mask} {i : Channel}
    (hab : ∀ j, a.has j = true → b.has j = true) (h : PartnerOn cfg a i) : PartnerOn cfg b i := by
  obtain ⟨j, hij, hj⟩ := h
  exact ⟨j, hij, hab j hj⟩

/-- The turn-ons of a tick are news if the tick's condition is met, and only
then if all its writes go through. -/
theorem fired_off {w : World} {c : Call} (hop : c.op = .tick) (h : Telling w c) (i : Channel)
    (hi : (fired (w.begin c)).has i = true) : (timedOut (w.begin c)).s.mask.has i = false := by
  obtain ⟨hdue, hpartner⟩ := of_fired hi
  have hmoved := timedOut_moved (w.begin c)
  rw [hmoved.nowMs, timedOut_due] at hdue
  rw [hmoved.cfg] at hpartner
  rw [Telling, hop] at h
  rw [← Bool.not_eq_true]
  intro hon
  have hbefore : (w.begin c).s.mask.has i = true := endPulses_le (expireMaxOn_le hon)
  rcases h i hdue hbefore with hp | ⟨hup, hf⟩
  · exact hpartner (partnerOn_mono (fun j hj => timedOut_keeps hj) hp)
  · rw [(timedOut_through (w := w.begin c) hf).2, St.keptOn, has_collect, Bool.and_eq_true,
      Bool.not_eq_true'] at hon
    have hdown : w.s.timeUp (reading 32 c.time) i = false := hon.2
    rw [hup] at hdown
    cases hdown

theorem telling_of_fired {w : World} {c : Call} (hop : c.op = .tick)
    (hf : noFailure c.faults = true) (h : ∀ i, (fired (w.begin c)).has i = true →
      (timedOut (w.begin c)).s.mask.has i = false) : Telling w c := by
  obtain ⟨hrest, hmask⟩ := timedOut_through (w := w.begin c) hf
  have hmoved := timedOut_moved (w.begin c)
  rw [Telling, hop]
  intro i hdue hon
  by_cases hp : PartnerOn w.s.cfg (w.s.keptOn (reading 32 c.time)) i
  · exact Or.inl hp
  · right
    have hfired : (fired (w.begin c)).has i = true := by
      rw [fired, firePending_through hrest, hmoved.nowMs, timedOut_due, hmoved.cfg, hmask,
        Bool.and_eq_true]
      refine ⟨hdue, ?_⟩
      rw [Bool.not_eq_true', decide_eq_false_iff_not]
      exact hp
    have hoff := h i hfired
    rw [hmask, St.keptOn, has_collect] at hoff
    have hup : (w.s.mask.has i && !w.s.timeUp (reading 32 c.time) i) = false := hoff
    rw [hon, Bool.true_and, Bool.not_eq_false'] at hup
    exact ⟨hup, hf⟩

/-- A comparison notices only what a phase has written. -/
theorem shown_of_wrote {a b w : World} (hw : Wrote a b) (hgrows : b.env.writes ⊆ w.env.writes)
    (src : RelaySource) (n : Notice) (hn : n ∈ notify (a.s.mask ^^^ wiredNcMask w.s.cfg)
      (b.s.mask ^^^ wiredNcMask w.s.cfg) src) : Shown w n := by
  obtain ⟨i, hi, rfl⟩ := List.mem_map.mp hn
  rcases hw.written with hsame | hmem
  · rw [hsame, BitVec.xor_self, List.mem_filter, has_zero] at hi
    cases hi.2
  · exact ⟨_, hgrows hmem, rfl, rfl⟩

theorem perform_shown (op : Op) (hop : op.running = true) (htick : op.isTick = false)
    (w : World) (n : Notice) (hn : n ∈ (perform op w).notices) : Shown (perform op w).world n := by
  rw [perform_notices op hop htick] at hn
  cases op with
  | init cfg => cases hop
  | set channel on src =>
    exact shown_of_wrote (setOrToggle_wrote channel (some on) src w) (List.Subset.refl _) _ n hn
  | toggle channel src =>
    exact shown_of_wrote (setOrToggle_wrote channel none src w) (List.Subset.refl _) _ n hn
  | tick => cases htick
  | skLost => exact shown_of_wrote (skLost_wrote w) (List.Subset.refl _) _ n hn
  | updateConfig cfg =>
    exact shown_of_wrote (resolveConflict_wrote (applyConfig cfg w)) (List.Subset.refl _) _ n
      (by rw [applyConfig_mask]; exact hn)

theorem tick_shown (w : World)
    (hoff : ∀ i, (fired w).has i = true → (timedOut w).s.mask.has i = false) (n : Notice)
    (hn : n ∈ (relayCtrlTick w).2) : Shown (relayCtrlTick w).1 n := by
  have hcfg := tick_cfg w
  have hwrites : (relayCtrlTick w).1.env.writes = (firePending (timedOut w)).2.env.writes := by
    rw [tick_world, saveHold_writes]
    rfl
  have hfire := firePending_wrote (timedOut w)
  have hlimits := expireMaxOn_wrote (endPulses w)
  rw [tick_notices, tickBatches, ← hcfg, List.mem_append, List.mem_append] at hn
  rcases hn with (hn | hn) | hn
  · refine shown_of_wrote (endPulses_wrote w) ?_ _ n hn
    rw [hwrites]
    exact fun e he => hfire.grows (hlimits.grows he)
  · refine shown_of_wrote hlimits ?_ _ n hn
    rw [hwrites]
    exact hfire.grows
  · obtain ⟨i, hi, rfl⟩ := List.mem_map.mp hn
    have hfired : (fired w).has i = true := by simpa using (List.mem_filter.mp hi).2
    have hmask := firePending_mask (timedOut w)
    have hchanged : (firePending (timedOut w)).2.s.mask ≠ (timedOut w).s.mask := by
      intro hsame
      have hbit := congrArg (fun m => m.has i) (hmask.symm.trans hsame)
      simp only [has_or, hoff i hfired, Bool.false_or] at hbit
      rw [show (firePending (timedOut w)).1 = fired w from rfl, hfired] at hbit
      cases hbit
    refine ⟨_, hwrites ▸ hfire.written.resolve_left hchanged, rfl, ?_⟩
    rw [hmask]
    rfl

theorem tickBatches_changing (before afterPulses afterMaxOn fired wnc : Mask)
    (src : Channel → RelaySource) :
    Changing (before ^^^ wnc) (tickBatches before afterPulses afterMaxOn fired wnc src) ↔
      ∀ i, fired.has i = true → afterMaxOn.has i = false := by
  rw [tickBatches, changing_append, changing_append, applyNotices_append, applyNotices_notify,
    applyNotices_notify, firedNotices_changing]
  simp only [changing_notify, true_and, has_xor, has_or]
  refine forall_congr' (fun i => ?_)
  cases fired.has i <;> cases afterMaxOn.has i <;> cases wnc.has i <;> decide

/-- A comparison made with one set of flags, held against a report made with
another, tells the truth only if the flags are the same. -/
theorem flags_of_complete (before after x y : Mask) (src : RelaySource)
    (hcomplete : applyNotices (before ^^^ x) (notify (before ^^^ y) (after ^^^ y) src) =
      after ^^^ y)
    (hnews : Changing (before ^^^ x) (notify (before ^^^ y) (after ^^^ y) src)) : y = x := by
  apply ext_has
  intro i
  have hi := congrArg (fun m => m.has i) hcomplete
  have hchanged := (changing_notifyBits _ _ _ _).mp hnews i
  simp only [notify, applyNotices_notifyBits] at hi
  simp only [has_xor] at hi hchanged
  cases hb : before.has i <;> cases ha : after.has i <;> cases hx : x.has i <;>
    cases hy : y.has i <;> simp_all

/-- The notices of a call tell the truth if its condition is met; where no
write fails for good, only then. -/
theorem told_of_telling (w : World) (c : Call) (hop : c.op.running = true) (h : Telling w c) :
    Told w c := by
  have hcfg := step_cfg w c hop
  cases htick : c.op.isTick
  · have hkept : wiredNcMask (c.op.config w.s.cfg) = wiredNcMask w.s.cfg := by
      obtain ⟨op, time, faults, saveErr⟩ := c
      cases op <;> first | rfl | exact h
    have hns : (result w c).notices =
        notify (w.s.mask ^^^ wiredNcMask (step w c).s.cfg)
          ((step w c).s.mask ^^^ wiredNcMask (step w c).s.cfg) c.op.src :=
      perform_notices c.op hop htick (w.begin c)
    rw [hcfg, hkept] at hns
    refine ⟨?_, ?_, perform_shown c.op hop htick (w.begin c)⟩
    · rw [hns, relayCtrlGetMask, relayCtrlGetMask, hcfg, hkept]
      exact applyNotices_notify _ _ _
    · rw [hns, relayCtrlGetMask]
      exact changing_notify _ _ _
  · have heq := eq_tick_of_isTick htick
    have hoff := fired_off heq h
    refine ⟨notices_complete w c hop (by rw [heq]; rfl), ?_, ?_⟩
    · rw [result, heq]
      change Changing _ (relayCtrlTick (w.begin c)).2
      rw [tick_notices]
      exact (tickBatches_changing _ _ _ _ _ _).mpr hoff
    · rw [step, result, heq]
      exact tick_shown (w.begin c) hoff

theorem telling_of_told (w : World) (c : Call) (hop : c.op.running = true)
    (hf : noFailure c.faults = true) (h : Told w c) : Telling w c := by
  have hcfg := step_cfg w c hop
  obtain ⟨op, time, faults, saveErr⟩ := c
  cases op with
  | init cfg => cases hop
  | set channel on src => trivial
  | toggle channel src => trivial
  | skLost => trivial
  | updateConfig cfg =>
    have hns : (result w ⟨.updateConfig cfg, time, faults, saveErr⟩).notices = _ :=
      perform_notices (.updateConfig cfg) rfl rfl
        (w.begin ⟨.updateConfig cfg, time, faults, saveErr⟩)
    have hafter : (perform (.updateConfig cfg)
      (w.begin ⟨.updateConfig cfg, time, faults, saveErr⟩)).world.s.cfg = cfg := hcfg
    obtain ⟨hcomplete, hnews, -⟩ := h
    rw [hns, hafter, relayCtrlGetMask] at hcomplete hnews
    rw [relayCtrlGetMask, hcfg] at hcomplete
    exact flags_of_complete _ _ _ _ _ hcomplete hnews
  | tick =>
    refine telling_of_fired rfl hf ?_
    have hnews : Changing _ (relayCtrlTick (w.begin ⟨.tick, time, faults, saveErr⟩)).2 := h.news
    rw [tick_notices] at hnews
    exact (tickBatches_changing _ _ _ _ _ _).mp hnews

def runNotices (w : World) (cs : List Call) : List Notice :=
  (history step w cs).reverse.flatMap fun e => (result e.1 e.2).notices

/-- In every run, whatever state it starts in, the calls that meet the condition
tell the truth, and of those whose writes go through no others do. If all calls
meet it, a listener that takes over every notice holds the reported mask at the
end. -/
theorem run_notices_told (w : World) (cs : List Call) (hcs : ∀ c ∈ cs, c.op.running = true) :
    (∀ e ∈ history step w cs, (Telling e.1 e.2 → Told e.1 e.2) ∧
      (noFailure e.2.faults = true → Told e.1 e.2 → Telling e.1 e.2)) ∧
    ((∀ e ∈ history step w cs, Telling e.1 e.2) →
      applyNotices (relayCtrlGetMask w.s) (runNotices w cs) =
        relayCtrlGetMask (run step w cs).s) := by
  have hrunning : ∀ e ∈ history step w cs, e.2.op.running = true :=
    fun e he => hcs e.2 (input_of_history step w cs e he)
  refine ⟨fun e he => ⟨told_of_telling e.1 e.2 (hrunning e he),
    telling_of_told e.1 e.2 (hrunning e he)⟩, fun htelling => ?_⟩
  refine run_induction step (I := fun v past => applyNotices (relayCtrlGetMask w.s)
      (past.reverse.flatMap fun e => (result e.1 e.2).notices) = relayCtrlGetMask v.s)
    (P := fun v c => c.op.running = true ∧ Telling v c) w rfl (fun v past c hv hc => ?_) cs
    (fun e he => ⟨hrunning e he, htelling e he⟩)
  rw [List.reverse_cons, List.flatMap_append, List.flatMap_singleton, applyNotices_append, hv]
  exact (told_of_telling v c hc.1 hc.2).complete

/-- Every call of every run tells the truth. -/
def ListenersHear : Prop :=
  ∀ (chip : Chip) (stored : Option Mask) (health : HealthKey → Health) (cs : List Call) (c : Call),
    c.op.running = true → Told (run step (boot chip stored health) cs) c

/-- A save that wires a load to the NC terminal changes its report without a
word. -/
theorem wired_nc_flip_untold : ¬ListenersHear := by
  intro h
  have hflip := h ⟨0x00#8, 0xff#8⟩ none (fun _ => .normal)
    [.plain (.init .schemaDefault) 0]
    (.plain (.updateConfig (DeviceConfig.schemaDefault.modifyRelay 1
      fun r => { r with wiredNc := true })) 10) rfl
  exact absurd hflip.complete (by decide +kernel)

/-- The tick in which the pulse of relay 1 ends and its deferred turn-on fires
reports the coil off and on again. -/
theorem run_notices_told_refired :
    Told (run step (step coldBoot (.plain (.init hornConfig) 0)) refiredRun) (.plain .tick 1000) ∧
    applyNotices 0x00#8
        (runNotices (step coldBoot (.plain (.init hornConfig) 0))
          (refiredRun ++ [.plain .tick 1000])) = 0x01#8 := by
  have hrun := run_notices_told (step coldBoot (.plain (.init hornConfig) 0))
    (refiredRun ++ [.plain .tick 1000]) (by decide +kernel)
  have hlast : (run step (step coldBoot (.plain (.init hornConfig) 0)) refiredRun,
      Call.plain .tick 1000) ∈ history step (step coldBoot (.plain (.init hornConfig) 0))
        (refiredRun ++ [.plain .tick 1000]) := by
    rw [history_snoc]
    exact List.mem_cons_self ..
  have htelling : Telling (run step (step coldBoot (.plain (.init hornConfig) 0)) refiredRun)
      (.plain .tick 1000) := by decide +kernel
  have htold := hrun.1 _ hlast
  dsimp only at htold
  refine ⟨htold.1 htelling, ?_⟩
  exact (hrun.2 (by decide +kernel)).trans (by decide +kernel)

end RelayBoard
