import RelayBoard.RelaySteps

/-!
# What a call aims at

Every value a phase writes is one mask, whether the write goes through or not,
and what the expander drives afterwards is that mask or what it drove before.
The coils of the mask are on already, or are those the phase switches on.
-/

set_option autoImplicit false

namespace RelayBoard
open BitVec Lib.Loops

/-- The coils of a mask that a phase starting in `w` may write: those that are
on, and those which `up` names. -/
def Within (w : World) (up : Channel → Prop) (m : Mask) : Prop :=
  ∀ i, m.has i = true → w.s.mask.has i = true ∨ up i

/-- What a piece of a call writes to the outputs has `P`, and so has what the
expander drives after it, or it is as before. -/
structure Aims (P : Mask → Prop) (w w' : World) : Prop where
  writes : ∀ e ∈ w'.env.writes, e ∈ w.env.writes ∨ ∃ m, P m ∧ e = (.output, toReg m)
  chip : w'.env.chip.output = w.env.chip.output ∨ ∃ m, P m ∧ w'.env.chip.output = toReg m

variable {P Q : Mask → Prop} {a b c : World}

theorem Aims.refl (P : Mask → Prop) (w : World) : Aims P w w :=
  ⟨fun _ he => Or.inl he, Or.inl rfl⟩

theorem Aims.mono (h : Aims P a b) (hPQ : ∀ m, P m → Q m) : Aims Q a b :=
  ⟨fun e he => (h.writes e he).imp_right fun ⟨m, hm, hw⟩ => ⟨m, hPQ m hm, hw⟩,
    h.chip.imp_right fun ⟨m, hm, hw⟩ => ⟨m, hPQ m hm, hw⟩⟩

theorem Aims.trans (h : Aims P a b) (k : Aims P b c) : Aims P a c := by
  refine ⟨fun e he => (k.writes e he).elim (h.writes e) Or.inr, ?_⟩
  rcases k.chip with hsame | hnew
  · rw [hsame]
    exact h.chip
  · exact Or.inr hnew

theorem Aims.of_env (h : Aims P a b) (henv : ∃ health, c.env = b.env.showing health) :
    Aims P a c := by
  obtain ⟨health, henv⟩ := henv
  refine ⟨?_, ?_⟩ <;> rw [henv]
  · exact h.writes
  · exact h.chip

theorem attempts_chip_output (v : Mask) (env : Env) :
    (env.attempts v).chip.output = env.chip.output ∨ (env.attempts v).chip.output = v := by
  have hwritten : ∀ env : Env,
      (env.written v).chip.output = env.chip.output ∨ (env.written v).chip.output = v := by
    intro env
    unfold Env.written
    split_ifs
    · exact Or.inr rfl
    · exact Or.inl rfl
  unfold Env.attempts
  split
  · exact hwritten env
  · rcases hwritten (env.written v) with hsame | hnew
    · rw [hsame]
      exact hwritten env
    · exact Or.inr hnew

theorem commitLocked_aims (target : Mask) (w : World) :
    Aims (· = target) w (commitLocked target w).2 := by
  have hattempts : ∀ s health,
      Aims (· = target) w ⟨s, (w.env.attempts (toReg target)).showing health⟩ := by
    intro s health
    refine ⟨fun e he => ?_, ?_⟩
    · exact (attempts_writes _ _ e he).imp_right fun h => ⟨target, rfl, h⟩
    · exact (attempts_chip_output (toReg target) w.env).imp_right fun h => ⟨target, rfl, h⟩
  rcases commitLocked_cases target w with ⟨-, h⟩ | ⟨-, -, health, h⟩ | ⟨-, e, health, -, h⟩ <;>
    rw [h]
  · exact .refl _ _
  · exact hattempts _ _
  · exact hattempts _ _

section Phases

variable (w : World) (i : Channel)

theorem within_cleared (up : Channel → Prop) (m : Mask) : Within w up (w.s.mask &&& ~~~m) := by
  intro j hj
  rw [has_and, Bool.and_eq_true] at hj
  exact Or.inl hj.1

theorem off_aims (up : Channel → Prop) (m : Mask) :
    Aims (Within w up) w (commitLocked (w.s.mask &&& ~~~m) w).2 :=
  (commitLocked_aims _ w).mono fun _ hm => hm ▸ within_cleared w up m

theorem coilOff_aims (up : Channel → Prop) : Aims (Within w up) w (coilOff i w).2 := by
  have h := off_aims { w with s.pendingOn := w.s.pendingOn &&& ~~~single i } up (single i)
  have hw : Aims (Within w up) w (commitLocked (w.s.mask &&& ~~~single i)
      { w with s.pendingOn := w.s.pendingOn &&& ~~~single i }).2 := ⟨h.writes, h.chip⟩
  unfold coilOff
  dsimp only
  split <;> rename_i hc <;> rw [hc] at hw
  · exact hw.of_env ⟨_, rfl⟩
  · exact hw

theorem coilOn_aims (src : RelaySource) :
    Aims (Within w fun j => j = i ∧ ¬PartnerOn w.s.cfg w.s.mask i) w (coilOn i src w).2 := by
  unfold coilOn
  dsimp only
  split_ifs with hp hpend
  · have h := off_aims w (fun j => j = i ∧ ¬PartnerOn w.s.cfg w.s.mask i)
      (interlockPartnerBit w.s.cfg i)
    unfold deferOn
    dsimp only
    split <;> rename_i hc <;> rw [hc] at h
    · exact h.of_env ⟨_, rfl⟩
    · exact h
  · have hoff : ¬PartnerOn w.s.cfg w.s.mask i := fun hon =>
      hp ⟨partnerBit_ne_zero hon, (partnerOn_iff _ _ _).mpr hon⟩
    have h := (commitLocked_aims (w.s.mask ||| single i) w).mono
      (Q := Within w fun j => j = i ∧ ¬PartnerOn w.s.cfg w.s.mask i) fun m hm j hj => by
        rw [hm, has_or, Bool.or_eq_true] at hj
        exact hj.imp_right fun hself => ⟨by simpa using hself, hoff⟩
    unfold directOn
    dsimp only
    split <;> rename_i hc <;> rw [hc] at h
    · split_ifs <;> exact h.of_env ⟨_, rfl⟩
    · exact h
  · exact .refl _ w

theorem skLost_aims (up : Channel → Prop) : Aims (Within w up) w (relayCtrlSkLost w).1 := by
  have h := off_aims w up (~~~holdMask w.s.cfg)
  unfold relayCtrlSkLost
  dsimp only
  split <;> rename_i hc <;> rw [hc] at h
  · exact h.of_env ⟨_, rfl⟩
  · exact h.of_env ⟨_, rfl⟩

theorem endPulses_aims (up : Channel → Prop) : Aims (Within w up) w (endPulses w) := by
  unfold endPulses
  extract_lets now ended
  have h := off_aims w up ended
  split_ifs
  · split <;> rename_i hc <;> rw [hc] at h
    · exact h.of_env ⟨_, rfl⟩
    · exact h
  · exact .refl _ w

theorem expireMaxOn_aims (up : Channel → Prop) : Aims (Within w up) w (expireMaxOn w) := by
  unfold expireMaxOn
  extract_lets now expired
  have h := off_aims w up expired
  split_ifs
  · split <;> rename_i hc <;> rw [hc] at h
    · exact h.of_env ⟨_, rfl⟩
    · exact h
  · exact .refl _ w

theorem firePending_aims : Aims (Within w fun j => w.s.due (nowMs w.env) j = true ∧
    ¬PartnerOn w.s.cfg w.s.mask j) w (firePending w).2 := by
  have hcollect := collectFired_relay (nowMs w.env) w.s
  have hloop := collectFired_loop_frame St.mask (fun _ _ => rfl) (nowMs w.env) (0#8, w.s)
  unfold firePending
  extract_lets now afterMaxOn due fired w'
  have hmask : w'.s.mask = w.s.mask := hloop
  have hfired : ∀ i, fired.has i = (w.s.due now i && !PartnerOn w.s.cfg w.s.mask i) :=
    fun i => (hcollect i).1
  have hraised : Within w (fun j => w.s.due now j = true ∧ ¬PartnerOn w.s.cfg w.s.mask j)
      (w'.s.mask ||| fired) := by
    intro j hj
    rw [has_or, Bool.or_eq_true, hfired, hmask] at hj
    exact hj.imp_right fun hup => by simpa using hup
  have h := (commitLocked_aims (w'.s.mask ||| fired) w').mono fun m hm => hm ▸ hraised
  have hw : Aims (Within w fun j => w.s.due now j = true ∧ ¬PartnerOn w.s.cfg w.s.mask j) w
      (commitLocked (w'.s.mask ||| fired) w').2 := ⟨h.writes, h.chip⟩
  split_ifs
  · split <;> rename_i hc <;> rw [hc] at hw
    · exact hw.of_env ⟨_, rfl⟩
    · exact hw
  · exact ⟨fun _ he => Or.inl he, Or.inl rfl⟩

theorem resolveConflict_aims : Aims (· = (clearInterlockConflicts w.s.cfg w.s.mask).1) w
    (resolveConflict w) := by
  have hcleared := clearInterlockConflicts_fst w.s.cfg w.s.mask
  unfold resolveConflict
  extract_lets before conflict
  have h := (commitLocked_aims (w.s.mask &&& ~~~conflict) w).mono fun m hm =>
    (hm.trans hcleared.symm : m = (clearInterlockConflicts w.s.cfg w.s.mask).1)
  have hreport : ∀ mask w', ∃ health,
      (reportInterlockHealth mask w').env = w'.env.showing health := reportInterlockHealth_env
  split_ifs
  · split <;> rename_i hc <;> rw [hc] at h
    · exact h.of_env (hreport _ _)
    · exact h.of_env (hreport _ _)
  · exact (Aims.refl _ w).of_env (hreport _ _)

theorem saveHold_aims (P : Mask → Prop) : Aims P w (saveHold w) := by
  have hwrites := saveHold_writes w
  have hchip := saveHold_keeps w (fun w => w.env.chip.output) (fun _ _ _ _ _ => rfl)
  exact ⟨fun e he => Or.inl (hwrites ▸ he), Or.inl hchip⟩

end Phases

end RelayBoard
