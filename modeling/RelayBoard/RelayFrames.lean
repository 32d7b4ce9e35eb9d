import RelayBoard.RelayPhases

/-!
# What the phases leave alone

Settings, clock and store are untouched by every phase but two, and the save
flag is raised whenever a coil that will be restored at boot changes. A phase
that changes the coils has written what they end as.
-/

set_option autoImplicit false

namespace RelayBoard
open BitVec Lib.Loops

/-- The expander drives exactly the coils of `s.mask`, and commits that are
going to fail will leave it alone. -/
def World.InSync (w : World) : Prop :=
  noStray w.env.faults = true ∧ w.env.chip = ⟨toReg w.s.mask, 0x00#8⟩

/-- What a piece of a call leaves alone, and how it keeps the save flag. -/
structure Moved (w w' : World) : Prop where
  cfg : w'.s.cfg = w.s.cfg
  lastSaveMs : w'.s.lastSaveMs = w.s.lastSaveMs
  env : SameStore w.env w'.env
  save : w'.s.savePending = false → w.s.savePending = false ∧
    w'.s.mask &&& holdMask w.s.cfg = w.s.mask &&& holdMask w.s.cfg
  sync : w.InSync → w'.InSync
  grows : w.env.writes ⊆ w'.env.writes

theorem Moved.refl (w : World) : Moved w w :=
  ⟨rfl, rfl, .refl _, fun h => ⟨h, rfl⟩, id, List.Subset.refl _⟩

theorem Moved.trans {a b c : World} (h : Moved a b) (k : Moved b c) : Moved a c := by
  refine ⟨k.cfg.trans h.cfg, k.lastSaveMs.trans h.lastSaveMs, h.env.trans k.env, ?_,
    fun hs => k.sync (h.sync hs), fun _ he => k.grows (h.grows he)⟩
  intro hc
  obtain ⟨hb, hbc⟩ := k.save hc
  obtain ⟨ha, hab⟩ := h.save hb
  rw [h.cfg] at hbc
  exact ⟨ha, hbc.trans hab⟩

theorem Moved.nowMs {a b : World} (h : Moved a b) : nowMs b.env = nowMs a.env := h.env.nowMs

theorem showing_same (health : HealthKey → Health) (env : Env) :
    SameStore env (env.showing health) := ⟨rfl, rfl, rfl, rfl, id⟩

theorem and_eq_of_xor_and_eq_zero {a b c : Mask} (h : (a ^^^ b) &&& c = 0#8) :
    a &&& c = b &&& c := by
  apply ext_has
  intro i
  have hi : ((a ^^^ b) &&& c).has i = false := by rw [h]; exact has_zero i
  simp only [has_and, has_xor] at hi ⊢
  cases hc : c.has i <;> simp_all

theorem attempts_chip (v : Mask) (env : Env) (h : commitResult env.faults = .ok ()) :
    (env.attempts v).chip = ⟨v, env.chip.config⟩ := by
  calc (env.attempts v).chip
      = ⟨(env.attempts v).chip.output, (env.attempts v).chip.config⟩ := rfl
    _ = ⟨v, env.chip.config⟩ := by rw [attempts_output v env h, attempts_config]

/-- A commit whose attempts both missed the chip leaves it as it was. -/
theorem attempts_missed (v : Mask) (env : Env) (h : writeReaches env.faults = false)
    (h' : writeReaches (writeRest env.faults) = false) : (env.attempts v).chip = env.chip := by
  have hfirst : (env.written v).chip = env.chip := by
    rw [Env.written, h]
    rfl
  have hsecond : ((env.written v).written v).chip = (env.written v).chip := by
    change (if writeReaches (writeRest env.faults) then _ else (env.written v).chip) = _
    rw [h']
    rfl
  unfold Env.attempts
  split
  · exact hfirst
  · exact hsecond.trans hfirst

theorem attempts_faults (v : Mask) (env : Env) :
    (env.attempts v).faults = commitRest env.faults := by
  unfold Env.attempts commitRest
  split <;> rfl

theorem commitLocked_sync (target : Mask) (w : World) (h : w.InSync) :
    (commitLocked target w).2.InSync := by
  obtain ⟨hstray, hchip⟩ := h
  obtain ⟨hrest, hmissed⟩ := noStray_commit w.env.faults hstray
  rcases commitLocked_cases target w with ⟨ht, h⟩ | ⟨ht, hr, health, h⟩ | ⟨ht, e, health, hr, h⟩
  · rw [h]
    exact ⟨hstray, hchip⟩
  · rw [h]
    change noStray (w.env.attempts (toReg target)).faults = true ∧
      (w.env.attempts (toReg target)).chip = ⟨toReg target, 0x00#8⟩
    rw [attempts_faults, attempts_chip _ _ hr, hchip]
    exact ⟨hrest, rfl⟩
  · rw [h]
    change noStray (w.env.attempts (toReg target)).faults = true ∧
      (w.env.attempts (toReg target)).chip = ⟨toReg w.s.mask, 0x00#8⟩
    obtain ⟨hfirst, hsecond⟩ := hmissed e hr
    rw [attempts_faults, attempts_missed _ _ hfirst hsecond]
    exact ⟨hrest, hchip⟩

theorem commitLocked_save (target : Mask) (w : World)
    (h : (commitLocked target w).2.s.savePending = false) : w.s.savePending = false ∧
      (commitLocked target w).2.s.mask &&& holdMask w.s.cfg = w.s.mask &&& holdMask w.s.cfg := by
  obtain ⟨env, -, ⟨fault, hc⟩ | ⟨e, -, hc⟩⟩ := commitLocked_spec target w <;> rw [hc] at h ⊢
  · simp only [St.commit_savePending, Bool.or_eq_false_iff, decide_eq_false_iff_not, ne_eq,
      Decidable.not_not] at h
    exact ⟨h.1, and_eq_of_xor_and_eq_zero h.2⟩
  · exact ⟨h, rfl⟩

theorem commitLocked_written (target : Mask) (w : World) :
    w.env.writes ⊆ (commitLocked target w).2.env.writes ∧
    ((commitLocked target w).2.s.mask = w.s.mask ∨
      (.output, toReg (commitLocked target w).2.s.mask) ∈
        (commitLocked target w).2.env.writes) := by
  obtain ⟨hgrows, hmem⟩ := attempts_written (toReg target) w.env
  rcases commitLocked_cases target w with ⟨-, h⟩ | ⟨-, -, health, h⟩ | ⟨-, e, health, -, h⟩ <;>
    rw [h]
  · exact ⟨List.Subset.refl _, Or.inl rfl⟩
  · exact ⟨hgrows, Or.inr hmem⟩
  · exact ⟨hgrows, Or.inl rfl⟩

/-- One phase: what the coils end as has been written, unless they are as before. -/
structure Wrote (w w' : World) : Prop extends Moved w w' where
  written : w'.s.mask = w.s.mask ∨ (.output, toReg w'.s.mask) ∈ w'.env.writes

theorem Wrote.refl (w : World) : Wrote w w := ⟨.refl w, Or.inl rfl⟩

theorem commitLocked_wrote (target : Mask) (w : World) : Wrote w (commitLocked target w).2 := by
  have hsync := commitLocked_sync target w
  have hsave := commitLocked_save target w
  obtain ⟨hgrows, hwritten⟩ := commitLocked_written target w
  obtain ⟨env, hsame, ⟨fault, hc⟩ | ⟨e, hr, hc⟩⟩ := commitLocked_spec target w <;>
    rw [hc] at hsync hsave hgrows hwritten ⊢
  · exact ⟨⟨rfl, rfl, hsame, hsave, hsync, hgrows⟩, hwritten⟩
  · exact ⟨⟨rfl, rfl, hsame, hsave, hsync, hgrows⟩, hwritten⟩

/-- What the timers, the pending-ons and the health board are set to does not
matter here. -/
theorem Wrote.of_eq {a b c : World} (h : Wrote a b) (hcfg : c.s.cfg = b.s.cfg)
    (hmask : c.s.mask = b.s.mask) (hsave : c.s.savePending = b.s.savePending)
    (hlast : c.s.lastSaveMs = b.s.lastSaveMs) (henv : ∃ health, c.env = b.env.showing health) :
    Wrote a c := by
  obtain ⟨health, henv⟩ := henv
  refine ⟨⟨hcfg.trans h.cfg, hlast.trans h.lastSaveMs, ?_, ?_, ?_, ?_⟩, ?_⟩
  · rw [henv]
    exact h.env.trans (showing_same health _)
  · rw [hsave, hmask]
    exact h.save
  · unfold World.InSync
    rw [henv, hmask]
    exact h.sync
  · rw [henv]
    exact h.grows
  · rw [henv, hmask]
    exact h.written

theorem coilOff_wrote (i : Channel) (w : World) : Wrote w (coilOff i w).2 := by
  have h := commitLocked_wrote (w.s.mask &&& ~~~single i)
    { w with s.pendingOn := w.s.pendingOn &&& ~~~single i }
  have hw : Wrote w (commitLocked (w.s.mask &&& ~~~single i)
    { w with s.pendingOn := w.s.pendingOn &&& ~~~single i }).2 :=
    ⟨⟨h.cfg, h.lastSaveMs, h.env, h.save, h.sync, h.grows⟩, h.written⟩
  unfold coilOff
  dsimp only
  split <;> rename_i hc <;> rw [hc] at hw
  · exact hw.of_eq (by simp) (by simp) (by simp) (by simp) ⟨_, rfl⟩
  · exact hw

theorem deferOn_wrote (i : Channel) (partnerBit : Mask) (src : RelaySource) (w : World) :
    Wrote w (deferOn i partnerBit src w).2 := by
  have h := commitLocked_wrote (w.s.mask &&& ~~~partnerBit) w
  unfold deferOn
  dsimp only
  split <;> rename_i hc <;> rw [hc] at h
  · exact h.of_eq (by simp) (by simp) (by simp) (by simp) ⟨_, rfl⟩
  · exact h

theorem directOn_wrote (i : Channel) (partnerBit : Mask) (w : World) :
    Wrote w (directOn i partnerBit w).2 := by
  have h := commitLocked_wrote (w.s.mask ||| single i) w
  unfold directOn
  dsimp only
  split <;> rename_i hc <;> rw [hc] at h
  · split_ifs <;>
      exact h.of_eq (by simp [startPulse]) (by simp [startPulse]) (by simp [startPulse])
        (by simp [startPulse]) ⟨_, rfl⟩
  · exact h

theorem coilOn_wrote (i : Channel) (src : RelaySource) (w : World) :
    Wrote w (coilOn i src w).2 := by
  unfold coilOn
  dsimp only
  split_ifs
  · exact deferOn_wrote i _ src w
  · exact directOn_wrote i _ w
  · exact .refl w

theorem skLost_wrote (w : World) : Wrote w (relayCtrlSkLost w).1 := by
  have h := commitLocked_wrote (w.s.mask &&& ~~~(~~~holdMask w.s.cfg)) w
  unfold relayCtrlSkLost
  dsimp only
  split <;> rename_i hc <;> rw [hc] at h
  · exact h.of_eq (by simp) (by simp) (by simp) (by simp) ⟨_, rfl⟩
  · exact h.of_eq rfl rfl rfl rfl ⟨_, rfl⟩

theorem endPulses_wrote (w : World) : Wrote w (endPulses w) := by
  unfold endPulses
  extract_lets now ended
  have h := commitLocked_wrote (w.s.mask &&& ~~~ended) w
  split_ifs
  · split <;> rename_i hc <;> rw [hc] at h
    · exact h.of_eq rfl rfl rfl rfl ⟨_, rfl⟩
    · exact h
  · exact .refl w

theorem expireMaxOn_wrote (w : World) : Wrote w (expireMaxOn w) := by
  unfold expireMaxOn
  extract_lets now expired
  have h := commitLocked_wrote (w.s.mask &&& ~~~expired) w
  split_ifs
  · split <;> rename_i hc <;> rw [hc] at h
    · exact h.of_eq rfl rfl rfl rfl ⟨_, rfl⟩
    · exact h
  · exact .refl w

theorem firePending_wrote (w : World) : Wrote w (firePending w).2 := by
  unfold firePending
  extract_lets now afterMaxOn due fired w'
  have hcfg : w'.s.cfg = w.s.cfg := collectFired_loop_frame St.cfg (fun _ _ => rfl) _ _
  have hmask : w'.s.mask = w.s.mask := collectFired_loop_frame St.mask (fun _ _ => rfl) _ _
  have hsave : w'.s.savePending = w.s.savePending :=
    collectFired_loop_frame St.savePending (fun _ _ => rfl) _ _
  have hlast : w'.s.lastSaveMs = w.s.lastSaveMs :=
    collectFired_loop_frame St.lastSaveMs (fun _ _ => rfl) _ _
  have hdrop : Wrote w w' := (Wrote.refl w).of_eq hcfg hmask hsave hlast ⟨_, rfl⟩
  have h := commitLocked_wrote (w'.s.mask ||| fired) w'
  have hw : Wrote w (commitLocked (w'.s.mask ||| fired) w').2 :=
    ⟨hdrop.toMoved.trans h.toMoved, hmask ▸ h.written⟩
  split_ifs
  · split <;> rename_i hc <;> rw [hc] at hw
    · refine hw.of_eq ?_ ?_ ?_ ?_ ⟨_, rfl⟩
      · rw [trackMaxOnLocked_cfg]
        exact settleFired_loop_frame St.cfg (fun _ _ _ _ => rfl) _ _ _
      · rw [trackMaxOnLocked_mask]
        exact settleFired_loop_frame St.mask (fun _ _ _ _ => rfl) _ _ _
      · rw [trackMaxOnLocked_savePending]
        exact settleFired_loop_frame St.savePending (fun _ _ _ _ => rfl) _ _ _
      · rw [trackMaxOnLocked_lastSaveMs]
        exact settleFired_loop_frame St.lastSaveMs (fun _ _ _ _ => rfl) _ _ _
    · exact hw
  · exact hdrop

theorem reportInterlockHealth_env (conflict : Mask) (w : World) :
    ∃ health, (reportInterlockHealth conflict w).env = w.env.showing health := by
  unfold reportInterlockHealth
  split_ifs <;> exact ⟨_, rfl⟩

theorem Wrote.reported {a b : World} (conflict : Mask) (h : Wrote a b) :
    Wrote a (reportInterlockHealth conflict b) :=
  h.of_eq (by simp) (by simp) (by simp) (by simp) (reportInterlockHealth_env conflict b)

theorem resolveConflict_wrote (w : World) : Wrote w (resolveConflict w) := by
  unfold resolveConflict
  extract_lets before conflict
  have h := commitLocked_wrote (w.s.mask &&& ~~~conflict) w
  split_ifs
  · split <;> rename_i hc <;> rw [hc] at h
    · exact .reported conflict (h.of_eq (by simp) (by simp) (by simp) (by simp) ⟨_, rfl⟩)
    · exact h.reported 0#8
  · exact (Wrote.refl w).reported 0#8

theorem clearInterlockConflicts_fst (cfg : DeviceConfig) (mask : Mask) :
    (clearInterlockConflicts cfg mask).1 = mask &&& ~~~(clearInterlockConflicts cfg mask).2 := by
  apply ext_has
  intro i
  obtain ⟨hfirst, hsecond⟩ := clearInterlockConflicts_has cfg mask i
  rw [hfirst, has_and, has_not, hsecond]

theorem resolveConflict_mask (w : World) (hr : w.env.Reliable) :
    (resolveConflict w).s.mask = (clearInterlockConflicts w.s.cfg w.s.mask).1 := by
  rw [clearInterlockConflicts_fst]
  unfold resolveConflict
  extract_lets before conflict
  split_ifs with hz
  · obtain ⟨env, -, ⟨fault, hc⟩ | ⟨e, hnr, -⟩⟩ :=
      commitLocked_spec (w.s.mask &&& ~~~conflict) w
    · simp [hc, conflict]
    · exact absurd hr hnr
  · rw [ne_eq, Decidable.not_not] at hz
    rw [reportInterlockHealth_s]
    change w.s.mask = w.s.mask &&& ~~~conflict
    rw [hz]
    exact ext_has (fun i => by rw [has_and, has_not, has_zero, Bool.not_false, Bool.and_true])

theorem storeSave_eq (mask : Mask) (env : Env) : ∃ r, storeSave mask env =
    (r, { env with
      saves := env.saves ++ [mask]
      stored := if r.isOk then some mask else env.stored }) ∧
    (r.isOk = true ↔ env.saveErr = none) := by
  unfold storeSave
  split
  · rename_i e he
    exact ⟨.error e, rfl, by simp [Except.isOk, Except.toBool, he]⟩
  · rename_i he
    exact ⟨.ok (), rfl, by simp [Except.isOk, Except.toBool, he]⟩

section SaveHold

variable (w : World)

theorem saveHold_keeps {β : Type} (f : World → β)
    (hf : ∀ v b l st sv, f ⟨{ v.s with savePending := b, lastSaveMs := l },
      { v.env with stored := st, saves := sv }⟩ = f v) : f (saveHold w) = f w := by
  unfold saveHold
  dsimp only
  split_ifs
  · obtain ⟨r, hr, -⟩ := storeSave_eq (w.s.mask &&& holdMask w.s.cfg) w.env
    rw [hr]
    cases r
    · exact hf w w.s.savePending _ _ _
    · exact hf w _ _ _ _
  · rfl

@[simp] theorem saveHold_cfg : (saveHold w).s.cfg = w.s.cfg :=
  saveHold_keeps w (fun w => w.s.cfg) (fun _ _ _ _ _ => rfl)

@[simp] theorem saveHold_mask : (saveHold w).s.mask = w.s.mask :=
  saveHold_keeps w (fun w => w.s.mask) (fun _ _ _ _ _ => rfl)

@[simp] theorem saveHold_pendingOn : (saveHold w).s.pendingOn = w.s.pendingOn :=
  saveHold_keeps w (fun w => w.s.pendingOn) (fun _ _ _ _ _ => rfl)

@[simp] theorem saveHold_writes : (saveHold w).env.writes = w.env.writes :=
  saveHold_keeps w (fun w => w.env.writes) (fun _ _ _ _ _ => rfl)

end SaveHold

@[simp] theorem applyConfig_env (cfg : DeviceConfig) (w : World) :
    (applyConfig cfg w).env = w.env := rfl

@[simp] theorem applyConfig_mask (cfg : DeviceConfig) (w : World) :
    (applyConfig cfg w).s.mask = w.s.mask := by
  simp only [applyConfig, trackMaxOnLocked_mask]
  exact remode_loop_frame St.mask (fun _ _ _ => rfl) _ _

@[simp] theorem applyConfig_cfg (cfg : DeviceConfig) (w : World) :
    (applyConfig cfg w).s.cfg = cfg := by
  simp only [applyConfig, trackMaxOnLocked_cfg]
  exact remode_loop_frame St.cfg (fun _ _ _ => rfl) _ _

@[simp] theorem applyConfig_lastSaveMs (cfg : DeviceConfig) (w : World) :
    (applyConfig cfg w).s.lastSaveMs = w.s.lastSaveMs := by
  simp only [applyConfig, trackMaxOnLocked_lastSaveMs]
  exact remode_loop_frame St.lastSaveMs (fun _ _ _ => rfl) _ _

@[simp] theorem applyConfig_savePending (cfg : DeviceConfig) (w : World) :
    (applyConfig cfg w).s.savePending =
      (w.s.savePending || holdMask cfg ≠ holdMask w.s.cfg) := by
  simp only [applyConfig, trackMaxOnLocked_savePending]
  rw [remode_loop_frame St.savePending (fun _ _ _ => rfl)]

theorem updateConfig_world (cfg : DeviceConfig) (w : World) :
    (relayCtrlUpdateConfig cfg w).1 = resolveConflict (applyConfig cfg w) := rfl

theorem tick_world (w : World) :
    (relayCtrlTick w).1 = saveHold (firePending (expireMaxOn (endPulses w))).2 := rfl

end RelayBoard
