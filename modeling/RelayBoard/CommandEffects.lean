import RelayBoard.TurnOn

/-!
# What a command may touch

A command that fails leaves the relays as they are, and one that succeeds
touches its own relay and the partner. All of it holds in every state that
calls lead to, also after an init that failed and left coils on with their
timers gone; such a state is not steady, but its timers still belong to coils
that can have them.
-/

set_option autoImplicit false

namespace RelayBoard
open BitVec Lib.Loops Lib.Runs Relay

namespace Relay

/-- A limit runs only for a coil that is on and has one, a pulse only for a
momentary relay. -/
def Sound (r : Relay) : Prop :=
  (r.limited = true → r.coil = true ∧ r.cfg.limit ≠ 0#32) ∧
    (r.pulsing = true → r.cfg.momentary = true)

theorem limits_of_not {r : Relay} (h : ¬(!r.coil || decide (r.cfg.limit = 0#32)) = true) :
    r.coil = true ∧ r.cfg.limit ≠ 0#32 := by
  simpa using h

theorem track_sound (now : Ms) (before restart : Bool) (r : Relay)
    (h : r.pulsing = true → r.cfg.momentary = true) : (r.track now before restart).Sound := by
  unfold track
  split_ifs with hoff hnew
  · exact ⟨(by intro hl; cases hl), h⟩
  · exact ⟨fun _ => limits_of_not hoff, h⟩
  · exact ⟨fun _ => limits_of_not hoff, h⟩

theorem track_kept (now : Ms) (before : Bool) (r : Relay) (h : r.Sound)
    (hb : r.coil = true → before = true) : r.track now before false = r := by
  unfold track
  split_ifs with hoff hnew
  · have hl : r.limited = false := by
      rw [← Bool.not_eq_true]
      intro hl
      obtain ⟨hcoil, hlimit⟩ := h.1 hl
      simp [hcoil, hlimit] at hoff
    apply Relay.ext <;> simp [hl]
  · rw [hb (limits_of_not hoff).1] at hnew
    cases hnew
  · rfl

end Relay

def St.Sound (s : St) : Prop := ∀ i, (s.relay i).Sound

section Calls

variable {w : World}

theorem tracked_sound {before restart : Mask}
    (h : ∀ i, w.s.pulsing.has i = true → (w.s.cfg.relays i).momentary = true) :
    (trackMaxOnLocked before restart w).s.Sound := by
  intro i
  rw [trackMaxOnLocked_relay]
  exact track_sound _ _ _ _ (h i)

theorem coilOff_sound (i : Channel) (h : w.s.Sound) : (coilOff i w).2.s.Sound := by
  obtain ⟨env, -, ⟨fault, hc⟩ | ⟨e, -, hc⟩⟩ := coilOff_spec i w <;> rw [hc]
  · refine tracked_sound (fun j hj => (h j).2 ?_)
    simp only [has_and, Bool.and_eq_true] at hj
    exact hj.1
  · exact h

theorem deferOn_sound (i : Channel) (partnerBit : Mask) (src : RelaySource) (h : w.s.Sound) :
    (deferOn i partnerBit src w).2.s.Sound := by
  obtain ⟨env, -, ⟨fault, v, hv, hc⟩ | ⟨e, -, hc⟩⟩ := deferOn_spec i partnerBit src w <;> rw [hc]
  · have hs : v.s.Sound := by
      rw [hv]
      refine tracked_sound (fun j hj => (h j).2 ?_)
      simp only [has_and, Bool.and_eq_true] at hj
      exact hj.1
    exact hs
  · exact h

theorem startPulse_pulsing (now : Ms) {i : Channel} {s : St}
    (hi : (s.cfg.relays i).momentary = true)
    (h : ∀ j, s.pulsing.has j = true → (s.cfg.relays j).momentary = true) (j : Channel)
    (hj : (startPulse now i s).pulsing.has j = true) : (s.cfg.relays j).momentary = true := by
  simp only [startPulse, has_or, has_single, Bool.or_eq_true, decide_eq_true_eq] at hj
  rcases hj with hj | rfl
  · exact h j hj
  · exact hi

theorem directOn_sound (i : Channel) (partnerBit : Mask) (h : w.s.Sound) :
    (directOn i partnerBit w).2.s.Sound := by
  obtain ⟨env, -, ⟨fault, s, v, hs, hv, hc⟩ | ⟨e, -, hc⟩⟩ := directOn_spec i partnerBit w <;>
    rw [hc]
  · have hsound : v.s.Sound := by
      rw [hv]
      refine tracked_sound (fun j hj => ?_)
      dsimp only at hj ⊢
      rw [hs] at hj ⊢
      split_ifs at hj ⊢ with hm
      · exact startPulse_pulsing (nowMs w.env) hm (fun j => (h j).2) j hj
      · exact (h j).2 hj
    split_ifs
    · exact hsound
    · exact hsound
  · exact h

theorem command_sound (i : Channel) (k : Command) (h : w.s.Sound) :
    (command i k w).2.s.Sound := by
  unfold command coilOn
  dsimp only
  split_ifs
  · exact deferOn_sound i _ k.src h
  · exact directOn_sound i _ h
  · exact h
  · exact coilOff_sound i h

theorem skLost_sound (h : w.s.Sound) : (relayCtrlSkLost w).1.s.Sound := by
  unfold relayCtrlSkLost
  dsimp only
  generalize ~~~holdMask w.s.cfg = off
  obtain ⟨env, -, ⟨fault, hc⟩ | ⟨e, -, hc⟩⟩ := commitLocked_spec (w.s.mask &&& ~~~off) w
  · simp only [hc]
    have hs : (trackMaxOnLocked w.s.mask 0#8 ⟨{ w.s.commit (w.s.mask &&& ~~~off) fault with
        pulsing := w.s.pulsing &&& ~~~off }, env⟩).s.Sound := by
      refine tracked_sound (fun j hj => (h j).2 ?_)
      simp only [has_and, Bool.and_eq_true] at hj
      exact hj.1
    exact hs
  · simp only [hc]
    exact h

/-- The end of a pulse leaves a limit behind only where there is none. -/
theorem endPulses_sound (h : w.s.Sound) : (endPulses w).s.Sound := by
  obtain ⟨ended, env, hended, -, ⟨fault, hc⟩ | ⟨-, hc⟩⟩ := endPulses_spec w <;> rw [hc]
  · intro i
    constructor
    · intro hl
      obtain ⟨hcoil, hlimit⟩ := (h i).1 hl
      refine ⟨?_, hlimit⟩
      cases hi : ended.has i
      · simpa [hi] using hcoil
      · rw [hended, Bool.and_eq_true] at hi
        exact absurd (RelayCfg.limit_of_momentary ((h i).2 hi.1)) hlimit
    · intro hp
      simp only [St.relay_pulsing, has_and, Bool.and_eq_true] at hp
      exact (h i).2 hp.1
  · exact h

theorem expireMaxOn_sound (h : w.s.Sound) : (expireMaxOn w).s.Sound := by
  obtain ⟨expired, env, -, -, ⟨fault, hc⟩ | ⟨-, hc⟩⟩ := expireMaxOn_spec w <;> rw [hc]
  · intro i
    refine ⟨fun hl => ?_, (h i).2⟩
    simp only [St.relay_limited, has_and, Bool.and_eq_true] at hl
    obtain ⟨hcoil, hlimit⟩ := (h i).1 hl.1
    have hkept : (w.s.mask &&& ~~~expired).has i = true := by
      rw [has_and, Bool.and_eq_true]
      exact ⟨hcoil, hl.2⟩
    exact ⟨hkept, hlimit⟩
  · exact h

theorem firePending_sound (h : w.s.Sound) : (firePending w).2.s.Sound := by
  have hcollect := collectFired_relay (nowMs w.env) w.s
  unfold firePending
  extract_lets now afterMaxOn due fired w'
  have hs : w'.s.Sound := by
    intro i
    have hrelay : w'.s.relay i = _ := (hcollect i).2
    rw [hrelay]
    exact h i
  split_ifs with hf
  · obtain ⟨env, -, ⟨fault, hc⟩ | ⟨e, -, hc⟩⟩ := commitLocked_spec (w'.s.mask ||| fired) w'
    · simp only [hc]
      refine tracked_sound (fun i hi => ?_)
      have hrelay := settleFired_relay now fired (w'.s.commit (w'.s.mask ||| fired) fault) i
      have hcfg := congrArg Relay.cfg hrelay
      have hpulse := congrArg Relay.pulsing hrelay
      rw [settleFired_self] at hcfg hpulse
      simp only [St.relay_cfg, St.relay_pulsing] at hcfg hpulse
      rw [hcfg]
      rw [hpulse] at hi
      cases hfired : fired.has i
      · rw [hfired] at hi
        exact (hs i).2 hi
      · rw [hfired, if_pos rfl] at hi
        by_cases hm : (w'.s.cfg.relays i).momentary = true
        · exact hm
        · rw [St.commit_cfg, if_neg hm] at hi
          exact (hs i).2 hi
    · simp only [hc]
      exact hs
  · exact hs

theorem saveHold_sound (h : w.s.Sound) : (saveHold w).s.Sound := by
  intro i
  have hrelay : (saveHold w).s.relay i = _ := (saveHold_acts w).relay i
  rw [hrelay]
  exact h i

theorem applyConfig_sound (cfg : DeviceConfig) (w : World) : (applyConfig cfg w).s.Sound := by
  have hrelay := fun i => (remode_relay (nowMs w.env) { w.s with cfg := cfg } i).trans
    (remode_self (nowMs w.env) i { w.s with cfg := cfg })
  unfold applyConfig
  dsimp only
  generalize forEach (remode (nowMs w.env)) { w.s with cfg := cfg } = s at hrelay ⊢
  refine tracked_sound (fun i hi => ?_)
  have hcfg : s.cfg.relays i = _ := congrArg Relay.cfg (hrelay i)
  have hpulse : s.pulsing.has i = _ := congrArg Relay.pulsing (hrelay i)
  change s.pulsing.has i = true at hi
  rw [hpulse, Bool.and_eq_true] at hi
  change (s.cfg.relays i).momentary = true
  rw [hcfg]
  exact hi.1

theorem resolveConflict_sound (h : w.s.Sound) : (resolveConflict w).s.Sound := by
  unfold resolveConflict
  extract_lets before conflict
  split_ifs with hz
  · obtain ⟨env, -, ⟨fault, hc⟩ | ⟨e, -, hc⟩⟩ := commitLocked_spec (w.s.mask &&& ~~~conflict) w
    · simp only [hc, reportInterlockHealth_s]
      refine tracked_sound (fun j hj => (h j).2 ?_)
      simp only [has_and, Bool.and_eq_true] at hj
      exact hj.1
    · simp only [hc, reportInterlockHealth_s]
      exact h
  · rw [reportInterlockHealth_s]
    exact h

theorem setOrToggle_sound (channel : ℕ) (onReq : Option Bool) (src : RelaySource)
    (h : w.s.Sound) : (setOrToggle channel onReq src w).2.1.s.Sound := by
  by_cases hc : channel < 1 ∨ 8 < channel
  · rw [setOrToggle, dif_pos hc]
    exact h
  · obtain ⟨i, rfl⟩ := exists_index hc
    rw [setOrToggle_channel]
    exact command_sound i _ h

theorem init_sound (cfg : DeviceConfig) (w : World) : (relayCtrlInit cfg w).2.s.Sound := by
  rcases relayCtrlInit_cases cfg w with
    ⟨e, env, -, -, hi⟩ | ⟨warm, held, env, wrote, -, -, -, -, -, hi⟩
  · rw [hi]
    intro i
    simp [reportFault, Relay.Sound]
  · rw [hi]
    intro i
    have hsteady := booted_steady cfg warm held (nowMs w.env) w.s env i
    refine ⟨fun hl => ⟨hsteady.coil_of_limited hl, ?_⟩, fun hp => ?_⟩
    · rw [hsteady.2, Bool.and_eq_true, decide_eq_true_iff] at hl
      exact hl.2
    · rw [hsteady.1, Bool.and_eq_true] at hp
      exact hp.2

end Calls

theorem step_sound (w : World) (c : Call) (h : w.s.Sound) : (step w c).s.Sound := by
  obtain ⟨op, time, faults, saveErr⟩ := c
  cases op with
  | init cfg => exact init_sound cfg _
  | set channel on src => exact setOrToggle_sound channel (some on) src h
  | toggle channel src => exact setOrToggle_sound channel none src h
  | tick =>
    exact saveHold_sound (firePending_sound (expireMaxOn_sound (endPulses_sound h)))
  | skLost => exact skLost_sound h
  | updateConfig cfg => exact resolveConflict_sound (applyConfig_sound cfg _)

theorem run_sound (chip : Chip) (stored : Option Mask) (health : HealthKey → Health)
    (cs : List Call) : (run step (boot chip stored health) cs).s.Sound := by
  refine run_invariant step (I := fun w => w.s.Sound) (P := fun _ _ => True) _ (fun i => ?_)
    (fun w c h _ => step_sound w c h) cs (fun _ _ => trivial)
  simp [boot, St.zero, Relay.Sound]

section Effects

variable {w : World} {i j : Channel}

theorem coilOff_failed {e : EspErr} (h : (coilOff i w).1 = .error e) : (coilOff i w).2.s =
    { w.s with pendingOn := w.s.pendingOn &&& ~~~single i, i2cFault := true } := by
  obtain ⟨env, -, ⟨fault, hc⟩ | ⟨e', -, hc⟩⟩ := coilOff_spec i w <;> rw [hc] at h ⊢
  · cases h
  · rfl

theorem deferOn_failed {partnerBit : Mask} {src : RelaySource} {e : EspErr}
    (h : (deferOn i partnerBit src w).1 = .error e) :
    (deferOn i partnerBit src w).2.s = w.s.fault := by
  obtain ⟨env, -, ⟨fault, v, -, hc⟩ | ⟨e', -, hc⟩⟩ := deferOn_spec i partnerBit src w <;>
    rw [hc] at h ⊢
  cases h

theorem directOn_failed {partnerBit : Mask} {e : EspErr}
    (h : (directOn i partnerBit w).1 = .error e) : (directOn i partnerBit w).2.s = w.s.fault := by
  obtain ⟨env, -, ⟨fault, s, v, -, -, hc⟩ | ⟨e', -, hc⟩⟩ := directOn_spec i partnerBit w <;>
    rw [hc] at h ⊢
  cases h

theorem coilOn_failed {src : RelaySource} {e : EspErr} (h : (coilOn i src w).1 = .error e) :
    (coilOn i src w).2.s = w.s.fault := by
  unfold coilOn at h ⊢
  dsimp only at h ⊢
  split_ifs at h ⊢
  · exact deferOn_failed h
  · exact directOn_failed h

theorem coilOff_mask (h : (coilOff i w).1 = .ok ()) :
    (coilOff i w).2.s.mask = w.s.mask &&& ~~~single i := by
  obtain ⟨env, -, ⟨fault, hc⟩ | ⟨e, -, hc⟩⟩ := coilOff_spec i w <;> rw [hc] at h ⊢
  · exact trackMaxOnLocked_mask _ _ _
  · cases h

theorem deferOn_mask {partnerBit : Mask} {src : RelaySource}
    (h : (deferOn i partnerBit src w).1 = .ok ()) :
    (deferOn i partnerBit src w).2.s.mask = w.s.mask &&& ~~~partnerBit := by
  obtain ⟨env, -, ⟨fault, v, hv, hc⟩ | ⟨e, -, hc⟩⟩ := deferOn_spec i partnerBit src w <;>
    rw [hc] at h ⊢
  · change v.s.mask = _
    rw [hv, trackMaxOnLocked_mask]
    rfl
  · cases h

theorem directOn_mask {partnerBit : Mask} (h : (directOn i partnerBit w).1 = .ok ()) :
    (directOn i partnerBit w).2.s.mask = w.s.mask ||| single i := by
  obtain ⟨env, -, ⟨fault, s, v, hs, hv, hc⟩ | ⟨e, -, hc⟩⟩ := directOn_spec i partnerBit w <;>
    rw [hc] at h ⊢
  · have hmask : v.s.mask = w.s.mask ||| single i := by
      rw [hv, trackMaxOnLocked_mask]
      dsimp only
      rw [hs]
      split_ifs
      · rfl
      · rfl
    split_ifs
    · exact hmask
    · exact hmask
  · cases h

theorem coilOff_other (hs : w.s.Sound) (hj : j ≠ i) :
    (coilOff i w).2.s.relay j = w.s.relay j := by
  obtain ⟨env, -, ⟨fault, hc⟩ | ⟨e, -, hc⟩⟩ := coilOff_spec i w <;> rw [hc]
  · rw [trackMaxOnLocked_relay, has_zero]
    refine Eq.trans (congrArg (fun r => Relay.track _ _ _ r) ?_)
      (track_kept _ _ (w.s.relay j) (hs j) (fun h => h))
    apply Relay.ext <;> simp [hj]
  · apply Relay.ext <;> simp [hj]

theorem deferOn_other {partnerBit : Mask} {src : RelaySource} (hs : w.s.Sound) (hj : j ≠ i)
    (hbit : partnerBit.has j = false) :
    (deferOn i partnerBit src w).2.s.relay j = w.s.relay j := by
  obtain ⟨env, -, ⟨fault, v, hv, hc⟩ | ⟨e, -, hc⟩⟩ := deferOn_spec i partnerBit src w <;> rw [hc]
  · refine ((pendingOn_acts i _ src v rfl).relay j).trans ?_
    rw [if_neg hj, hv, trackMaxOnLocked_relay, has_zero]
    refine Eq.trans (congrArg (fun r => Relay.track _ _ _ r) ?_)
      (track_kept _ _ (w.s.relay j) (hs j) (fun h => h))
    apply Relay.ext <;> simp [hbit]
  · rfl

theorem directOn_other {partnerBit : Mask} (hs : w.s.Sound) (hj : j ≠ i)
    (hbit : partnerBit.has j = false) : (directOn i partnerBit w).2.s.relay j = w.s.relay j := by
  obtain ⟨env, -, ⟨fault, s, v, hstart, hv, hc⟩ | ⟨e, -, hc⟩⟩ := directOn_spec i partnerBit w <;>
    rw [hc]
  · have hrelay : s.relay j = w.s.relay j := by
      rw [hstart]
      split_ifs <;> apply Relay.ext <;> simp [startPulse, hj]
    have htracked : v.s.relay j = w.s.relay j := by
      rw [hv, trackMaxOnLocked_relay, hrelay, has_single, decide_eq_false hj]
      exact track_kept _ _ (w.s.relay j) (hs j) (fun h => h)
    split_ifs
    · rw [← htracked]
      apply Relay.ext <;> simp [hbit]
    · exact htracked
  · rfl

theorem partnerBit_other (h : ¬Partner w.s.cfg i j) :
    (interlockPartnerBit w.s.cfg i).has j = false := by
  rw [has_partnerBit, decide_eq_false h]

theorem command_other (k : Command) (hs : w.s.Sound) (hj : j ≠ i) (h : ¬Partner w.s.cfg i j) :
    (command i k w).2.s.relay j = w.s.relay j := by
  unfold command coilOn
  dsimp only
  split_ifs
  · exact deferOn_other hs hj (partnerBit_other h)
  · exact directOn_other hs hj (partnerBit_other h)
  · rfl
  · exact coilOff_other hs hj

theorem command_mask (k : Command) (h : (command i k w).1 = .ok ()) :
    (command i k w).2.s.mask =
      if coilRequest i k.onReq w.s = false then w.s.mask &&& ~~~single i
      else if PartnerOn w.s.cfg w.s.mask i then w.s.mask &&& ~~~interlockPartnerBit w.s.cfg i
      else if w.s.pendingOn.has i then w.s.mask
      else w.s.mask ||| single i := by
  unfold command coilOn at h ⊢
  dsimp only at h ⊢
  cases hreq : coilRequest i k.onReq w.s
  · rw [hreq] at h
    exact coilOff_mask h
  · rw [hreq] at h
    simp only [if_true, Bool.true_eq_false, if_false] at h ⊢
    by_cases hp : PartnerOn w.s.cfg w.s.mask i
    · have hbits := And.intro (partnerBit_ne_zero hp) ((partnerOn_iff _ _ i).mpr hp)
      rw [if_pos hbits] at h ⊢
      rw [if_pos hp]
      exact deferOn_mask h
    · have hbits : ¬(interlockPartnerBit w.s.cfg i ≠ 0#8 ∧
          w.s.mask &&& interlockPartnerBit w.s.cfg i ≠ 0#8) :=
        fun hb => hp ((partnerOn_iff _ _ i).mp hb.2)
      rw [if_neg hbits] at h ⊢
      rw [if_neg hp]
      cases hq : w.s.pendingOn.has i
      · rw [hq] at h
        exact directOn_mask h
      · rfl

/-- A command that leaves nothing pending for its relay has brought the coil to
the level it asked for. -/
theorem command_coil (k : Command) (h : (command i k w).1 = .ok ())
    (hpend : (command i k w).2.s.pendingOn.has i = false) :
    (command i k w).2.s.mask.has i = coilRequest i k.onReq w.s := by
  cases hreq : coilRequest i k.onReq w.s
  · rw [command_mask k h, if_pos hreq]
    simp
  · have hon : command i k w = coilOn i k.src w := by rw [command, hreq]; rfl
    rw [hon] at h hpend ⊢
    have hdirect := coilOn_direct i k.src w h hpend
    rw [hdirect] at h ⊢
    rw [directOn_mask h]
    simp

end Effects

/-- What a command that failed leaves: the fault flag is set, and if coil-off
was asked for, nothing is pending for the relay any more. -/
structure CommandFailed (i : Channel) (k : Command) (s : St) (r : Result) : Prop where
  state : r.world.s = { s with
    pendingOn := if coilRequest i k.onReq s then s.pendingOn else s.pendingOn &&& ~~~single i
    i2cFault := true }
  silent : r.notices = []

structure CommandDone (i : Channel) (k : Command) (s : St) (r : Result) : Prop where
  coils : ∀ j, j ≠ i → r.world.s.mask.has j ≠ s.mask.has j →
    Partner s.cfg i j ∧ s.mask.has j = true ∧ coilRequest i k.onReq s = true
  others : ∀ j, j ≠ i → ¬Partner s.cfg i j → r.world.s.relay j = s.relay j
  set : ∀ on, k.onReq = some on → r.world.s.pendingOn.has i = false →
    relayCtrlGet k.channel r.world.s = on
  toggle : k.onReq = none → s.pendingOn.has i = false → r.world.s.pendingOn.has i = false →
    relayCtrlGet k.channel r.world.s = !relayCtrlGet k.channel s

theorem relayCtrlGet_coil (i : Channel) (s : St) :
    relayCtrlGet (i.val + 1) s = (s.mask.has i ^^ (s.cfg.relays i).wiredNc) := by
  rw [relayCtrlGet_channel, relayCtrlGetMask, has_xor, wiredNcMask, has_collect]

theorem command_failed (i : Channel) (k : Command) (w : World) {e : EspErr}
    (h : (command i k w).1 = .error e) : (command i k w).2.s = { w.s with
      pendingOn := if coilRequest i k.onReq w.s then w.s.pendingOn
        else w.s.pendingOn &&& ~~~single i
      i2cFault := true } := by
  unfold command at h ⊢
  split_ifs at h ⊢ with hreq
  · exact coilOn_failed h
  · exact coilOff_failed h

theorem command_coils (i j : Channel) (k : Command) (w : World) (h : (command i k w).1 = .ok ())
    (hj : j ≠ i) (hne : (command i k w).2.s.mask.has j ≠ w.s.mask.has j) :
    Partner w.s.cfg i j ∧ w.s.mask.has j = true ∧ coilRequest i k.onReq w.s = true := by
  rw [command_mask k h] at hne
  split_ifs at hne with hreq hp hpend
  · simp [hj] at hne
  · rw [has_and, has_not, has_partnerBit] at hne
    by_cases hij : Partner w.s.cfg i j
    · refine ⟨hij, ?_, by simpa using hreq⟩
      cases hm : w.s.mask.has j
      · simp [hm] at hne
      · rfl
    · simp [hij] at hne
  · exact absurd rfl hne
  · simp [hj] at hne

theorem failed_of_command {i : Channel} {k : Command} {w : World} {r : Result} {e : EspErr}
    (h : (command i k w).1 = .error e) (hworld : r.world = (command i k w).2)
    (hnotices : r.notices = notify (w.s.mask ^^^ wiredNcMask (command i k w).2.s.cfg)
      ((command i k w).2.s.mask ^^^ wiredNcMask (command i k w).2.s.cfg) k.src) :
    CommandFailed i k w.s r := by
  have hs := command_failed i k w h
  refine ⟨by rw [hworld, hs], ?_⟩
  rw [hnotices, hs]
  simp [notify, notifyBits]

theorem done_of_command {i : Channel} {k : Command} {w : World} {r : Result} (hs : w.s.Sound)
    (hi : k.channel = i.val + 1) (hok : (command i k w).1 = .ok ())
    (hworld : r.world = (command i k w).2) : CommandDone i k w.s r := by
  have hcfg := (command_wrote i k w).cfg
  refine ⟨fun j hj hne => ?_, fun j hj hp => ?_, fun on hon hpend => ?_,
    fun htoggle _ hpend => ?_⟩
  · rw [hworld] at hne
    exact command_coils i j k w hok hj hne
  · rw [hworld]
    exact command_other k hs hj hp
  · rw [hworld] at hpend
    rw [hworld, hi, relayCtrlGet_coil, command_coil k hok hpend, hcfg]
    simp [coilRequest, hon]
  · rw [hworld] at hpend
    rw [hworld, hi, relayCtrlGet_coil, relayCtrlGet_coil, command_coil k hok hpend, hcfg]
    simp [coilRequest, htoggle]

/-- After every run of any calls, a set or toggle of any channel from any source:
if it fails, nothing but the fault flag and the relay's own pending-on has
changed and nobody is told; if it succeeds, only the relay and its partner have
been touched, and the relay is as asked unless it has to wait. A channel out of
range is refused. -/
theorem run_commands_atomic (chip : Chip) (stored : Option Mask) (health : HealthKey → Health)
    (cs : List Call) (c : Call) (k : Command) (hk : c.op.command = some k) :
    let w := run step (boot chip stored health) cs
    (k.channel < 1 ∨ 8 < k.channel → result w c = ⟨.error .invalidArg, [], w.begin c⟩) ∧
    ∀ i : Channel, k.channel = i.val + 1 →
      ((result w c).err ≠ .ok () → CommandFailed i k w.s (result w c)) ∧
      ((result w c).err = .ok () → CommandDone i k w.s (result w c)) := by
  intro w
  have hsound : w.s.Sound := run_sound chip stored health cs
  rcases perform_command c.op k (w.begin c) hk with ⟨i, -, hi, hperform⟩ | ⟨hnone, hperform⟩
  · have hlt := i.isLt
    refine ⟨fun hout => by omega, fun i' hi' => ?_⟩
    obtain rfl : i' = i := Fin.ext (by omega)
    have hresult : result w c = _ := hperform
    rw [hresult]
    constructor
    · intro herr
      rcases hc : (command i' k (w.begin c)).1 with e | _
      · exact failed_of_command (w := w.begin c) hc rfl rfl
      · exact absurd hc herr
    · intro hok
      exact done_of_command (w := w.begin c) hsound hi hok rfl
  · have hout : k.channel < 1 ∨ 8 < k.channel := by
      by_contra hin
      obtain ⟨i, hi⟩ := exists_index hin
      have hto : c.op.commandTo i = some k := by
        rw [Op.commandTo, hk]
        simp [hi]
      rw [hnone i] at hto
      cases hto
    refine ⟨fun _ => hperform, fun i hi => ?_⟩
    have hlt := i.isLt
    omega

/-- Relay 1 is commanded on while relay 2, its partner, is. -/
def partnerRun : List Call :=
  [.plain (.init (DeviceConfig.schemaDefault.pair 1 2)) 0, .plain (.set 2 true .web) 10]

theorem partner_goes_off :
    CommandDone 0 ⟨1, some true, .n2k⟩ (run step coldBoot partnerRun).s
      (result (run step coldBoot partnerRun) (.plain (.set 1 true .n2k) 20)) :=
  ((run_commands_atomic ⟨0x00#8, 0xff#8⟩ none (fun _ => .normal) partnerRun
    (.plain (.set 1 true .n2k) 20) ⟨1, some true, .n2k⟩ rfl).2 0 rfl).2 (by decide +kernel)

end RelayBoard
