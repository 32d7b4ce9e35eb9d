import RelayBoard.OneRelay

/-!
# The phases of relay control, relay by relay

Each piece of a call is one write to the expander with the bookkeeping around
it. For a single relay in a steady state that is a short list of events, which
`Acts` states and its rules combine.
-/

set_option autoImplicit false

namespace RelayBoard
open BitVec Lib.Loops Relay

section Tracking

variable (before restart : Mask) (w : World)

@[simp] theorem trackMaxOnLocked_cfg : (trackMaxOnLocked before restart w).s.cfg = w.s.cfg :=
  forEach_frame _ St.cfg (fun i s => by unfold trackMaxOn; split_ifs <;> rfl) w.s

@[simp] theorem trackMaxOnLocked_mask : (trackMaxOnLocked before restart w).s.mask = w.s.mask :=
  forEach_frame _ St.mask (fun i s => by unfold trackMaxOn; split_ifs <;> rfl) w.s

@[simp] theorem trackMaxOnLocked_savePending :
    (trackMaxOnLocked before restart w).s.savePending = w.s.savePending :=
  forEach_frame _ St.savePending (fun i s => by unfold trackMaxOn; split_ifs <;> rfl) w.s

@[simp] theorem trackMaxOnLocked_lastSaveMs :
    (trackMaxOnLocked before restart w).s.lastSaveMs = w.s.lastSaveMs :=
  forEach_frame _ St.lastSaveMs (fun i s => by unfold trackMaxOn; split_ifs <;> rfl) w.s

@[simp] theorem trackMaxOnLocked_pulsing :
    (trackMaxOnLocked before restart w).s.pulsing = w.s.pulsing :=
  forEach_frame _ St.pulsing (fun i s => by unfold trackMaxOn; split_ifs <;> rfl) w.s

@[simp] theorem trackMaxOnLocked_pendingOn :
    (trackMaxOnLocked before restart w).s.pendingOn = w.s.pendingOn :=
  forEach_frame _ St.pendingOn (fun i s => by unfold trackMaxOn; split_ifs <;> rfl) w.s

theorem trackMaxOn_self (now : Ms) (i : Channel) (s : St) :
    (trackMaxOn now before restart i s).relay i =
      (s.relay i).track now (before.has i) (restart.has i) := by
  unfold trackMaxOn track
  rw [maxOnMs_eq, St.relay_coil, St.relay_cfg]
  by_cases hoff : (!s.mask.has i || decide ((s.cfg.relays i).limit = 0#32)) = true
  · rw [if_pos hoff, if_pos hoff]
    apply Relay.ext <;> simp
  · rw [if_neg hoff, if_neg hoff]
    by_cases hnew : (!before.has i || restart.has i) = true
    · rw [if_pos hnew, if_pos hnew]
      apply Relay.ext <;> simp
    · rw [if_neg hnew, if_neg hnew]

theorem trackMaxOn_other (now : Ms) (i j : Channel) (h : j ≠ i) (s : St) :
    (trackMaxOn now before restart j s).relay i = s.relay i := by
  unfold trackMaxOn
  split_ifs <;> apply Relay.ext <;> simp [h.symm]

@[simp] theorem trackMaxOnLocked_relay (i : Channel) :
    (trackMaxOnLocked before restart w).s.relay i =
      (w.s.relay i).track (nowMs w.env) (before.has i) (restart.has i) := by
  rw [← trackMaxOn_self before restart (nowMs w.env) i w.s]
  refine forEach_own _ (fun s => s.relay i) i ?_ ?_ w.s
  · intro j hj s
    exact trackMaxOn_other before restart _ i j hj s
  · intro s t hst
    change s.relay i = t.relay i at hst
    rw [trackMaxOn_self, trackMaxOn_self, hst]

end Tracking

theorem fault_relay (s : St) (i : Channel) : s.fault.relay i = s.relay i := rfl

/-- A piece of a call is, for each relay, a sequence of events at the call's
reading of the clock. -/
structure Acts (w w' : World) (events : Channel → List Event) : Prop where
  clock : nowMs w'.env = nowMs w.env
  relay : ∀ i, w'.s.relay i = (w.s.relay i).applyAll (nowMs w.env) (events i)

theorem Acts.steady {w w' : World} {events : Channel → List Event} (h : Acts w w' events)
    (hs : w.s.Steady) : w'.s.Steady := by
  intro i
  rw [h.relay i]
  exact applyAll_steady _ _ _ (hs i)

theorem Acts.trans {a b c : World} {e f : Channel → List Event} (h : Acts a b e)
    (k : Acts b c f) : Acts a c (fun i => e i ++ f i) := by
  refine ⟨k.clock.trans h.clock, fun i => ?_⟩
  rw [k.relay i, h.relay i, h.clock, applyAll, applyAll, applyAll, List.foldl_append]

theorem Acts.coil_of {w w' : World} {events : Channel → List Event} (h : Acts w w' events)
    {i : Channel} (hi : w'.s.mask.has i = true) : w.s.mask.has i = true ∨ Event.on ∈ events i := by
  have hc : (w'.s.relay i).coil = true := hi
  rw [h.relay i] at hc
  exact coil_of_applyAll hc

theorem Acts.pending_of {w w' : World} {events : Channel → List Event} (h : Acts w w' events)
    {i : Channel} (hi : w'.s.pendingOn.has i = true) :
    w.s.pendingOn.has i = true ∨ ∃ dead src, Event.defer dead src ∈ events i := by
  have hp : (w'.s.relay i).pending = true := hi
  rw [h.relay i] at hp
  exact pending_of_applyAll hp

theorem Acts.congr {w w' : World} {e f : Channel → List Event} (h : Acts w w' e)
    (hef : ∀ i, e i = f i) : Acts w w' f :=
  ⟨h.clock, fun i => by rw [h.relay i, hef i]⟩

theorem Acts.same {w w' : World} (hnow : nowMs w'.env = nowMs w.env)
    (hr : ∀ i, w'.s.relay i = w.s.relay i) : Acts w w' (fun _ => []) := ⟨hnow, hr⟩

theorem failed_acts {w : World} {env : Env} (h : SameStore w.env env) :
    Acts w ⟨w.s.fault, env⟩ (fun _ => []) := Acts.same h.nowMs (fun i => fault_relay w.s i)

def dropped (before after : Mask) (i : Channel) : List Event :=
  if before.has i && !after.has i then [.off] else []

theorem dropped_same {before after : Mask} {i : Channel} (h : after.has i = before.has i) :
    dropped before after i = [] := by
  simp [dropped, h]

def cancelled (kill : Mask) (i : Channel) : List Event := if kill.has i then [.cancel] else []

@[simp] theorem mem_dropped (before after : Mask) (i : Channel) (e : Event) :
    e ∈ dropped before after i ↔ e = .off ∧ before.has i = true ∧ after.has i = false := by
  unfold dropped
  split_ifs with h <;> simp_all

@[simp] theorem mem_cancelled (kill : Mask) (i : Channel) (e : Event) :
    e ∈ cancelled kill i ↔ e = .cancel ∧ kill.has i = true := by
  unfold cancelled
  split_ifs with h <;> simp_all

/-- A relay some of whose bits a write has cleared, after the max on-time
timers have been brought up to date. -/
theorem track_cleared (now : Ms) (r : Relay) (h : r.Steady) (gone kill : Bool) :
    { r with
      coil := r.coil && !gone
      pulsing := r.pulsing && !gone
      pending := r.pending && !kill }.track now r.coil false =
      r.applyAll now ((if kill then [.cancel] else []) ++
        if r.coil && gone then [.off] else []) := by
  have hpulse := h.1
  have hlimit := h.2
  cases hc : r.coil
  · rw [hc, Bool.false_and] at hpulse hlimit
    rw [track_off _ _ _ _ (by simp)]
    cases kill <;> apply Relay.ext <;> simp [applyAll, apply, cancel, hc, hpulse, hlimit]
  · cases gone
    · rw [track_idle _ _ _ ⟨by simpa [hc] using hpulse, by simpa [hc] using hlimit⟩ (fun _ => rfl)]
      cases kill <;> apply Relay.ext <;> simp [applyAll, apply, cancel, hc]
    · rw [track_off _ _ _ _ (by simp)]
      cases kill <;> apply Relay.ext <;> simp [applyAll, apply, cancel, off]

theorem tracked_acts {w w' : World} (h : w.s.Steady) (gone kill : Mask)
    (hnow : nowMs w'.env = nowMs w.env)
    (hr : ∀ i, w'.s.relay i = { w.s.relay i with
      coil := w.s.mask.has i && !gone.has i
      pulsing := w.s.pulsing.has i && !gone.has i
      pending := w.s.pendingOn.has i && !kill.has i }) :
    Acts w (trackMaxOnLocked w.s.mask 0#8 w') (fun i => cancelled kill i ++
      dropped w.s.mask (trackMaxOnLocked w.s.mask 0#8 w').s.mask i) := by
  refine ⟨hnow, fun i => ?_⟩
  have hc : w'.s.mask.has i = (w.s.mask.has i && !gone.has i) := congrArg coil (hr i)
  have hd : dropped w.s.mask w'.s.mask i =
      if w.s.mask.has i && gone.has i then [.off] else [] := by
    rw [dropped, hc]
    cases w.s.mask.has i <;> simp
  rw [trackMaxOnLocked_relay, trackMaxOnLocked_mask, hr, hnow, hd, has_zero]
  exact track_cleared (nowMs w.env) (w.s.relay i) (h i) (gone.has i) (kill.has i)

theorem cancelled_only {w w' : World} (kill : Mask) (hnow : nowMs w'.env = nowMs w.env)
    (hr : ∀ i, w'.s.relay i = { w.s.relay i with
      pending := w.s.pendingOn.has i && !kill.has i }) : Acts w w' (cancelled kill) := by
  refine ⟨hnow, fun i => ?_⟩
  rw [hr i]
  exact cancel_if _ (w.s.relay i) (kill.has i)

theorem cancel_acts (w : World) (kill : Mask) :
    Acts w { w with s.pendingOn := w.s.pendingOn &&& ~~~kill } (cancelled kill) := by
  refine cancelled_only kill rfl (fun i => ?_)
  apply Relay.ext <;> simp

theorem cancelled_acts {w w' : World} (kill : Mask) (hnow : nowMs w'.env = nowMs w.env)
    (hr : ∀ i, w'.s.relay i = { w.s.relay i with
      pending := w.s.pendingOn.has i && !kill.has i }) :
    Acts w w' (fun i => cancelled kill i ++ dropped w.s.mask w'.s.mask i) := by
  refine ⟨hnow, fun i => ?_⟩
  have hc : w'.s.mask.has i = w.s.mask.has i := congrArg coil (hr i)
  rw [dropped_same hc, List.append_nil]
  exact (cancelled_only kill hnow hr).relay i

theorem coilOff_acts (i : Channel) (w : World) (h : w.s.Steady) :
    Acts w (coilOff i w).2 (fun j => cancelled (single i) j ++
      dropped w.s.mask (coilOff i w).2.s.mask j) := by
  obtain ⟨env, hsame, ⟨fault, hc⟩ | ⟨e, -, hc⟩⟩ := coilOff_spec i w <;> rw [hc]
  · refine tracked_acts h (single i) (single i) hsame.nowMs (fun j => ?_)
    apply Relay.ext <;> simp
  · refine cancelled_acts (single i) hsame.nowMs (fun j => ?_)
    apply Relay.ext <;> simp

theorem pendingOn_acts (i : Channel) (dead : Ms) (src : RelaySource) (w : World)
    (hd : w.s.cfg.interlockDeadMs = dead) :
    Acts w { w with s := { w.s with
      pendingOn := w.s.pendingOn ||| single i
      pendingOnEnd :=
        Function.update w.s.pendingOnEnd i (nowMs w.env + w.s.cfg.interlockDeadMs)
      pendingOnSrc := Function.update w.s.pendingOnSrc i src } }
      (fun j => if j = i then [.defer dead src] else []) := by
  refine ⟨rfl, fun j => ?_⟩
  subst hd
  by_cases hj : j = i
  · subst hj
    rw [if_pos rfl]
    apply Relay.ext <;> simp [applyAll, apply, defer]
  · rw [if_neg hj]
    apply Relay.ext <;> simp [applyAll, hj]

theorem deferOn_acts (i : Channel) (src : RelaySource) (w : World) (h : w.s.Steady) :
    Acts w (deferOn i (interlockPartnerBit w.s.cfg i) src w).2 (fun j =>
      if (deferOn i (interlockPartnerBit w.s.cfg i) src w).1.isOk then
        cancelled (interlockPartnerBit w.s.cfg i) j ++
          dropped w.s.mask (deferOn i (interlockPartnerBit w.s.cfg i) src w).2.s.mask j ++
          (if j = i then [.defer w.s.cfg.interlockDeadMs src] else [])
      else []) := by
  obtain ⟨env, hsame, ⟨fault, v, hv, hc⟩ | ⟨e, -, hc⟩⟩ :=
    deferOn_spec i (interlockPartnerBit w.s.cfg i) src w <;> rw [hc]
  · simp only [Except.isOk, Except.toBool, if_true]
    subst hv
    refine Acts.trans (tracked_acts h (interlockPartnerBit w.s.cfg i)
      (interlockPartnerBit w.s.cfg i) hsame.nowMs (fun j => ?_)) (pendingOn_acts i _ src _ ?_)
    · apply Relay.ext <;> simp
    · simp
  · exact failed_acts hsame

theorem track_on (now : Ms) (before : Bool) (r : Relay) (h : r.Steady) :
    { r with
      coil := true
      pulsing := if r.cfg.momentary then true else r.pulsing
      pulseEnd := if r.cfg.momentary then now + r.cfg.pulseMs else r.pulseEnd }.track
      now before true = r.on now := by
  have hpulse : r.cfg.momentary = false → r.pulsing = false := fun hm => by simp [h.1, hm]
  have hlimit : r.cfg.limit = 0#32 → r.limited = false := fun hl => by simp [h.2, hl]
  unfold track on
  by_cases hl : r.cfg.limit = 0#32
  · cases hm : r.cfg.momentary <;> simp [hl, hpulse, hm]
  · cases hm : r.cfg.momentary <;> simp [hl, hpulse, hm]

/-- The relays in `up` go on and start their timers. -/
theorem tracked_on {w w' : World} {before : Mask} (h : w.s.Steady) (up : Mask)
    (hb : before = w.s.mask) (hnow : nowMs w'.env = nowMs w.env)
    (hr : ∀ i, w'.s.relay i = if up.has i then
        { w.s.relay i with
          coil := true
          pulsing := if (w.s.cfg.relays i).momentary then true else w.s.pulsing.has i
          pulseEnd := if (w.s.cfg.relays i).momentary then
            nowMs w.env + (w.s.cfg.relays i).pulseMs else w.s.pulseEnd i }
      else w.s.relay i) :
    Acts w (trackMaxOnLocked before up w') (fun i => if up.has i then [.on] else []) := by
  refine ⟨hnow, fun i => ?_⟩
  rw [trackMaxOnLocked_relay, hr, hnow, hb]
  cases hu : up.has i
  · exact track_idle _ _ _ (h i) (fun hc => hc)
  · exact track_on _ _ _ (h i)

theorem directOn_acts (i : Channel) (w : World) (h : w.s.Steady) :
    Acts w (directOn i (interlockPartnerBit w.s.cfg i) w).2 (fun j =>
      if (directOn i (interlockPartnerBit w.s.cfg i) w).1.isOk then
        (if (single i).has j then [.on] else []) ++ cancelled (interlockPartnerBit w.s.cfg i) j
      else []) := by
  obtain ⟨env, hsame, ⟨fault, s, v, hs, hv, hc⟩ | ⟨e, -, hc⟩⟩ :=
    directOn_spec i (interlockPartnerBit w.s.cfg i) w <;> rw [hc]
  · simp only [Except.isOk, Except.toBool, if_true]
    have hon : Acts w v (fun j => if (single i).has j then [.on] else []) := by
      rw [hv]
      refine tracked_on h (single i) rfl hsame.nowMs (fun j => ?_)
      have hm : isMomentary w.s.cfg i = (w.s.cfg.relays i).momentary := rfl
      simp only [has_single, decide_eq_true_eq, hs, hm]
      by_cases hj : j = i
      · subst hj
        cases hmom : (w.s.cfg.relays j).momentary <;> apply Relay.ext <;> simp [startPulse]
      · rw [if_neg hj]
        split_ifs <;> apply Relay.ext <;> simp [startPulse, hj]
    refine Acts.trans hon (cancelled_only (interlockPartnerBit w.s.cfg i) ?_ (fun j => ?_))
    · split_ifs <;> rfl
    · split_ifs with hp
      · apply Relay.ext <;> simp
      · rw [ne_eq, Decidable.not_not] at hp
        apply Relay.ext <;> simp [hp]
  · exact failed_acts hsame

theorem coilOn_acts (i : Channel) (src : RelaySource) (w : World) (h : w.s.Steady) :
    Acts w (coilOn i src w).2 (fun j =>
      if !(coilOn i src w).1.isOk then []
      else if PartnerOn w.s.cfg w.s.mask i then
        cancelled (interlockPartnerBit w.s.cfg i) j ++
          dropped w.s.mask (coilOn i src w).2.s.mask j ++
          (if j = i then [.defer w.s.cfg.interlockDeadMs src] else [])
      else if w.s.pendingOn.has i then []
      else (if j = i then [.on] else []) ++ cancelled (interlockPartnerBit w.s.cfg i) j) := by
  by_cases hp : PartnerOn w.s.cfg w.s.mask i
  · have hon : coilOn i src w = deferOn i (interlockPartnerBit w.s.cfg i) src w := by
      rw [coilOn, if_pos ⟨partnerBit_ne_zero hp, (partnerOn_iff _ _ i).mpr hp⟩]
    simp only [hon, hp, if_true, Bool.not_eq_eq_eq_not, Bool.not_true]
    refine (deferOn_acts i src w h).congr (fun j => ?_)
    cases (deferOn i (interlockPartnerBit w.s.cfg i) src w).1.isOk <;> rfl
  · have hnp : ¬(interlockPartnerBit w.s.cfg i ≠ 0#8 ∧
        w.s.mask &&& interlockPartnerBit w.s.cfg i ≠ 0#8) :=
      fun hb => hp ((partnerOn_iff _ _ i).mp hb.2)
    cases hpend : w.s.pendingOn.has i
    · have hon : coilOn i src w = directOn i (interlockPartnerBit w.s.cfg i) w := by
        rw [coilOn, if_neg hnp, hpend]
        rfl
      simp only [hon, hp, if_false, Bool.not_eq_eq_eq_not, Bool.not_true]
      refine (directOn_acts i w h).congr (fun j => ?_)
      cases (directOn i (interlockPartnerBit w.s.cfg i) w).1.isOk <;> simp
    · have hon : coilOn i src w = (.ok (), w) := by
        rw [coilOn, if_neg hnp, hpend]
        rfl
      rw [hon]
      refine (Acts.same rfl (fun _ => rfl)).congr (fun j => ?_)
      simp [hp]

theorem skLost_acts (w : World) (h : w.s.Steady) :
    Acts w (relayCtrlSkLost w).1 (fun i =>
      dropped w.s.mask (relayCtrlSkLost w).1.s.mask i ++ cancelled (~~~holdMask w.s.cfg) i) := by
  obtain ⟨env, hsame, ⟨fault, hc⟩ | ⟨e, -, hc⟩⟩ :=
    commitLocked_spec (w.s.mask &&& ~~~(~~~holdMask w.s.cfg)) w
  · simp only [relayCtrlSkLost, hc]
    refine Acts.trans ((tracked_acts h (~~~holdMask w.s.cfg) 0#8 hsame.nowMs
      (fun i => ?_)).congr (fun i => ?_)) (cancel_acts _ (~~~holdMask w.s.cfg))
    · apply Relay.ext <;> simp
    · simp [cancelled]
  · simp only [relayCtrlSkLost, hc]
    refine (cancelled_only (~~~holdMask w.s.cfg) hsame.nowMs (fun i => ?_)).congr (fun i => ?_)
    · apply Relay.ext <;> simp
    · rw [dropped_same (by rfl), List.nil_append]

theorem unmoved_acts {w w' : World} (hnow : nowMs w'.env = nowMs w.env)
    (hr : ∀ i, w'.s.relay i = w.s.relay i) : Acts w w' (dropped w.s.mask w'.s.mask) :=
  (Acts.same hnow hr).congr fun i => (dropped_same (congrArg coil (hr i))).symm

/-- Coils whose timer has run out go off, and only that timer needs to be
stopped. -/
theorem ended_acts {w w' : World} (gone : Mask) (hnow : nowMs w'.env = nowMs w.env)
    (hon : ∀ i, gone.has i = true → w.s.mask.has i = true)
    (hr : ∀ i, w'.s.relay i = if gone.has i then (w.s.relay i).off else w.s.relay i) :
    Acts w w' (dropped w.s.mask w'.s.mask) := by
  refine ⟨hnow, fun i => ?_⟩
  have hc : w'.s.mask.has i = _ := congrArg coil (hr i)
  rw [hr i, dropped, hc]
  cases hg : gone.has i
  · cases hm : w.s.mask.has i <;> simp [applyAll, hm]
  · simp [applyAll, apply, off, hon i hg]

theorem endPulses_acts (w : World) (h : w.s.Steady) :
    Acts w (endPulses w) (dropped w.s.mask (endPulses w).s.mask) := by
  obtain ⟨ended, env, hended, hsame, ⟨fault, hc⟩ | ⟨-, hc⟩⟩ := endPulses_spec w <;> rw [hc]
  · have hpulse : ∀ i, ended.has i = true → w.s.pulsing.has i = true := by
      intro i hi
      rw [hended, Bool.and_eq_true] at hi
      exact hi.1
    refine ended_acts ended hsame.nowMs (fun i hi => (h i).coil_of_pulsing (hpulse i hi))
      (fun i => ?_)
    cases hi : ended.has i
    · apply Relay.ext <;> simp [hi]
    · have hp := hpulse i hi
      have hl := (h i).limited_of_pulsing hp
      apply Relay.ext <;> simp_all [off]
  · exact unmoved_acts hsame.nowMs (fun i => fault_relay w.s i)

theorem expireMaxOn_acts (w : World) (h : w.s.Steady) :
    Acts w (expireMaxOn w) (dropped w.s.mask (expireMaxOn w).s.mask) := by
  obtain ⟨expired, env, hexpired, hsame, ⟨fault, hc⟩ | ⟨-, hc⟩⟩ := expireMaxOn_spec w <;> rw [hc]
  · have hlimited : ∀ i, expired.has i = true → w.s.limited.has i = true := by
      intro i hi
      rw [hexpired, Bool.and_eq_true] at hi
      exact hi.1
    refine ended_acts expired hsame.nowMs (fun i hi => (h i).coil_of_limited (hlimited i hi))
      (fun i => ?_)
    cases hi : expired.has i
    · apply Relay.ext <;> simp [hi]
    · have hl := hlimited i hi
      have hp := (h i).pulsing_of_limited hl
      apply Relay.ext <;> simp_all [off]
  · exact unmoved_acts hsame.nowMs (fun i => fault_relay w.s i)

def St.due (now : Ms) (s : St) (i : Channel) : Bool :=
  s.pendingOn.has i && deadlinePassed now (s.pendingOnEnd i)

theorem collectFired_self (now : Ms) (i : Channel) (r : Mask × St) :
    (collectFired now i r).1.has i = (r.1.has i || r.2.due now i && !PartnerOn r.2.cfg r.2.mask i) ∧
    (collectFired now i r).2.relay i = { r.2.relay i with
      pending := r.2.pendingOn.has i && !(r.2.due now i && PartnerOn r.2.cfg r.2.mask i) } := by
  have hp : (interlockPartnerBit r.2.cfg i = 0#8 ∨ r.2.mask &&& interlockPartnerBit r.2.cfg i = 0#8)
      ↔ ¬PartnerOn r.2.cfg r.2.mask i := by
    rw [← partnerOn_iff, ne_eq, Decidable.not_not, or_iff_right_iff_imp]
    intro hz
    rw [hz]
    simp
  unfold collectFired St.due
  rw [← Bool.not_and]
  cases hd : r.2.pendingOn.has i && deadlinePassed now (r.2.pendingOnEnd i)
  · rw [if_pos (by simp)]
    constructor
    · simp
    · apply Relay.ext <;> simp
  · rw [if_neg (by simp)]
    by_cases hon : PartnerOn r.2.cfg r.2.mask i
    · rw [if_neg (by rw [hp]; exact fun h => h hon)]
      constructor
      · simp [hon]
      · apply Relay.ext <;> simp [hon]
    · rw [if_pos (hp.mpr hon)]
      constructor
      · simp [hon]
      · apply Relay.ext <;> simp [hon]

theorem collectFired_other (now : Ms) (i j : Channel) (h : j ≠ i) (r : Mask × St) :
    (collectFired now j r).1.has i = r.1.has i ∧
      (collectFired now j r).2.relay i = r.2.relay i := by
  unfold collectFired
  dsimp only
  split_ifs
  · exact ⟨rfl, rfl⟩
  · exact ⟨by simp [h.symm], rfl⟩
  · refine ⟨rfl, ?_⟩
    apply Relay.ext <;> simp [h.symm]

theorem collectFired_frame {β : Type} (f : St → β)
    (hf : ∀ s p, f { s with pendingOn := p } = f s) (now : Ms) (i : Channel) (r : Mask × St) :
    f (collectFired now i r).2 = f r.2 := by
  unfold collectFired
  dsimp only
  split_ifs
  · rfl
  · rfl
  · exact hf r.2 _

theorem collectFired_loop_frame {β : Type} (f : St → β)
    (hf : ∀ s p, f { s with pendingOn := p } = f s) (now : Ms) (r : Mask × St) :
    f (forEach (collectFired now) r).2 = f r.2 :=
  forEach_frame _ (fun r => f r.2) (collectFired_frame f hf now) r

theorem collectFired_relay (now : Ms) (s : St) (i : Channel) :
    (forEach (collectFired now) (0#8, s)).1.has i = (s.due now i && !PartnerOn s.cfg s.mask i) ∧
    (forEach (collectFired now) (0#8, s)).2.relay i = { s.relay i with
      pending := s.pendingOn.has i && !(s.due now i && PartnerOn s.cfg s.mask i) } := by
  have hself := collectFired_self now i (0#8, s)
  -- A pass also reads the settings and the whole mask, which no pass changes.
  have hown := forEach_own (collectFired now)
    (fun r => (r.1.has i, r.2.relay i, r.2.cfg, r.2.mask)) i ?_ ?_ (0#8, s)
  · simp only [Prod.mk.injEq] at hown
    rw [hown.1, hown.2.1, hself.1, hself.2]
    simp
  · intro j hj r
    have h := collectFired_other now i j hj r
    simp only [h.1, h.2, collectFired_frame St.cfg (fun _ _ => rfl),
      collectFired_frame St.mask (fun _ _ => rfl)]
  · intro r r' h
    simp only [Prod.mk.injEq] at h
    obtain ⟨hf, hr, hcfg, hmask⟩ := h
    have hpend : r.2.pendingOn.has i = r'.2.pendingOn.has i := congrArg pending hr
    have hend : r.2.pendingOnEnd i = r'.2.pendingOnEnd i := congrArg pendingEnd hr
    have hdue : r.2.due now i = r'.2.due now i := by rw [St.due, St.due, hpend, hend]
    simp only [collectFired_self, collectFired_frame St.cfg (fun _ _ => rfl),
      collectFired_frame St.mask (fun _ _ => rfl), hf, hr, hcfg, hmask, hpend, hdue]

theorem settleFired_self (now : Ms) (fired : Mask) (i : Channel) (s : St) :
    (settleFired now fired i s).relay i = if fired.has i then
        { s.relay i with
          pending := false
          pulsing := if (s.cfg.relays i).momentary then true else s.pulsing.has i
          pulseEnd := if (s.cfg.relays i).momentary then
            now + (s.cfg.relays i).pulseMs else s.pulseEnd i }
      else s.relay i := by
  unfold settleFired
  dsimp only
  rw [isMomentary_eq]
  cases hf : fired.has i
  · rfl
  · cases hm : (s.cfg.relays i).momentary <;> apply Relay.ext <;> simp [startPulse]

theorem settleFired_other (now : Ms) (fired : Mask) (i j : Channel) (h : j ≠ i) (s : St) :
    (settleFired now fired j s).relay i = s.relay i := by
  unfold settleFired
  dsimp only
  split_ifs <;> apply Relay.ext <;> simp [startPulse, h.symm]

theorem settleFired_loop_frame {β : Type} (f : St → β)
    (hf : ∀ s p q e, f { s with pendingOn := p, pulsing := q, pulseEnd := e } = f s) (now : Ms)
    (fired : Mask) (s : St) : f (forEach (settleFired now fired) s) = f s := by
  refine forEach_frame _ f (fun i s => ?_) s
  unfold settleFired
  dsimp only
  split_ifs
  · rfl
  · exact hf s _ _ _
  · exact hf s _ s.pulsing s.pulseEnd

theorem settleFired_relay (now : Ms) (fired : Mask) (s : St) (i : Channel) :
    (forEach (settleFired now fired) s).relay i = (settleFired now fired i s).relay i := by
  refine forEach_own (settleFired now fired) (fun s => s.relay i) i
    (fun j hj s => settleFired_other now fired i j hj s) ?_ s
  intro s t h
  have hcfg : s.cfg.relays i = t.cfg.relays i := congrArg Relay.cfg h
  have hpulsing : s.pulsing.has i = t.pulsing.has i := congrArg pulsing h
  have hend : s.pulseEnd i = t.pulseEnd i := congrArg pulseEnd h
  simp only [settleFired_self, h, hcfg, hpulsing, hend]

theorem firePending_acts (w : World) (h : w.s.Steady) :
    Acts w (firePending w).2 (fun i =>
      if (firePending w).1.has i then [.cancel, .on]
      else if w.s.due (nowMs w.env) i && PartnerOn w.s.cfg w.s.mask i then [.cancel]
      else []) := by
  have hcollect := collectFired_relay (nowMs w.env) w.s
  have hmask := collectFired_loop_frame St.mask (fun _ _ => rfl) (nowMs w.env) (0#8, w.s)
  unfold firePending
  extract_lets now afterMaxOn due fired w'
  have hfired : ∀ i, fired.has i = (w.s.due (nowMs w.env) i && !PartnerOn w.s.cfg w.s.mask i) :=
    fun i => (hcollect i).1
  have hdrop : Acts w w' (fun i =>
      if w.s.due (nowMs w.env) i && PartnerOn w.s.cfg w.s.mask i then [.cancel] else []) :=
    ⟨rfl, fun i => (hcollect i).2.trans (cancel_if _ _ _)⟩
  split_ifs with hf
  · obtain ⟨env, hsame, ⟨fault, hc⟩ | ⟨e, -, hc⟩⟩ := commitLocked_spec (w'.s.mask ||| fired) w'
    · simp only [hc]
      -- Stale ones are dropped first, then the fired ones cancelled and switched on.
      refine Acts.congr (hdrop.trans ((cancel_acts w' fired).trans
        (tracked_on ?_ fired hmask.symm hsame.nowMs (fun i => ?_)))) (fun i => ?_)
      · exact (cancel_acts w' fired).steady (hdrop.steady h)
      · rw [settleFired_relay, settleFired_self]
        have hnow : now = nowMs w'.env := rfl
        cases hi : fired.has i <;> apply Relay.ext <;> simp [hi, hnow]
      · rw [cancelled, hfired]
        cases w.s.due (nowMs w.env) i <;> by_cases hp : PartnerOn w.s.cfg w.s.mask i <;> simp [hp]
    · simp only [hc]
      refine Acts.congr (hdrop.trans (failed_acts hsame)) (fun i => ?_)
      simp
  · refine hdrop.congr (fun i => ?_)
    simp

/-- Only a relay whose dead time has run out and whose partner is off fires. -/
theorem of_fired {w : World} {i : Channel} (h : (firePending w).1.has i = true) :
    w.s.due (nowMs w.env) i = true ∧ ¬PartnerOn w.s.cfg w.s.mask i := by
  have hcollect := (collectFired_relay (nowMs w.env) w.s i).1
  unfold firePending at h
  dsimp only at h
  split_ifs at h
  · split at h
    · rw [hcollect] at h
      simpa using h
    · simp at h
  · simp at h

theorem fired_of_reliable {w : World} (hr : w.env.Reliable) {i : Channel}
    (hd : w.s.due (nowMs w.env) i = true) (hp : ¬PartnerOn w.s.cfg w.s.mask i) :
    (firePending w).1.has i = true := by
  have hcollect := (collectFired_relay (nowMs w.env) w.s i).1
  rw [hd, Bool.true_and, decide_eq_false hp, Bool.not_false] at hcollect
  unfold firePending
  extract_lets now afterMaxOn due fired w'
  have hi : fired.has i = true := hcollect
  rw [if_pos ((ne_zero_iff fired).mpr ⟨i, hi⟩)]
  obtain ⟨env, -, ⟨fault, hc⟩ | ⟨e, hnr, -⟩⟩ := commitLocked_spec (w'.s.mask ||| fired) w'
  · simp only [hc]
    exact hi
  · exact absurd hr hnr

theorem saveHold_acts (w : World) : Acts w (saveHold w) (fun _ => []) := by
  unfold saveHold
  dsimp only
  split_ifs
  · unfold storeSave
    cases w.env.saveErr <;> exact Acts.same rfl (fun _ => rfl)
  · exact Acts.same rfl (fun _ => rfl)

theorem remode_self (now : Ms) (i : Channel) (s : St) :
    (remode now i s).relay i = { s.relay i with
      pulsing := (s.cfg.relays i).momentary && (s.mask.has i || s.pulsing.has i)
      pulseEnd := if (s.cfg.relays i).momentary && s.mask.has i && !s.pulsing.has i then
        now + (s.cfg.relays i).pulseMs else s.pulseEnd i } := by
  unfold remode
  rw [isMomentary_eq]
  cases hm : (s.cfg.relays i).momentary
  · apply Relay.ext <;> simp
  · cases hc : s.mask.has i <;> cases hp : s.pulsing.has i <;>
      apply Relay.ext <;> simp [startPulse, hp]

theorem remode_other (now : Ms) (i j : Channel) (h : j ≠ i) (s : St) :
    (remode now j s).relay i = s.relay i := by
  unfold remode
  split_ifs <;> apply Relay.ext <;> simp [startPulse, h.symm]

theorem remode_loop_frame {β : Type} (f : St → β)
    (hf : ∀ s p e, f { s with pulsing := p, pulseEnd := e } = f s) (now : Ms) (s : St) :
    f (forEach (remode now) s) = f s := by
  refine forEach_frame _ f (fun i s => ?_) s
  unfold remode
  split_ifs
  · exact hf s _ _
  · exact hf s _ _
  · rfl

theorem remode_relay (now : Ms) (s : St) (i : Channel) :
    (forEach (remode now) s).relay i = (remode now i s).relay i := by
  refine forEach_own (remode now) (fun s => s.relay i) i
    (fun j hj s => remode_other now i j hj s) ?_ s
  intro s t h
  have hcfg : s.cfg.relays i = t.cfg.relays i := congrArg Relay.cfg h
  have hmask : s.mask.has i = t.mask.has i := congrArg coil h
  have hpulsing : s.pulsing.has i = t.pulsing.has i := congrArg pulsing h
  have hend : s.pulseEnd i = t.pulseEnd i := congrArg pulseEnd h
  simp only [remode_self, h, hcfg, hmask, hpulsing, hend]

theorem track_reconfigure (now : Ms) (cfg : RelayCfg) (r : Relay) (h : r.Steady) :
    { r with
      cfg := cfg
      pulsing := cfg.momentary && (r.coil || r.pulsing)
      pulseEnd := if cfg.momentary && r.coil && !r.pulsing then
        now + cfg.pulseMs else r.pulseEnd }.track
      now r.coil (decide (cfg.limit ≠ r.cfg.limit)) = r.reconfigure now cfg := by
  have hpulse := h.1
  have hlimit := h.2
  cases hc : r.coil
  · rw [hc, Bool.false_and] at hpulse hlimit
    rw [track_off _ _ _ _ (by simp)]
    apply Relay.ext <;> simp [reconfigure, hc, hpulse]
  · rw [hc, Bool.true_and] at hpulse hlimit
    unfold track
    by_cases hz : cfg.limit = 0#32
    · rw [if_pos (by simp [hz])]
      apply Relay.ext <;> simp [reconfigure, hc, hpulse, hz]
    · rw [if_neg (by simpa using hz)]
      by_cases hl : cfg.limit = r.cfg.limit
      · rw [if_neg (by simpa using hl)]
        apply Relay.ext <;> simp [reconfigure, hc, hpulse, hlimit, hl]
      · rw [if_pos (by simpa using hl)]
        apply Relay.ext <;> simp [reconfigure, hc, hpulse, hz, hl]

theorem applyConfig_acts (cfg : DeviceConfig) (w : World) (h : w.s.Steady) :
    Acts w (applyConfig cfg w) (fun i => [.reconfigure (cfg.relays i)]) := by
  refine ⟨rfl, fun i => ?_⟩
  unfold applyConfig
  dsimp only
  have hrelay := remode_relay (nowMs w.env) { w.s with cfg := cfg } i
  have hmask := remode_loop_frame St.mask (fun _ _ _ => rfl) (nowMs w.env) { w.s with cfg := cfg }
  rw [remode_self] at hrelay
  rw [trackMaxOnLocked_relay, has_collect]
  generalize forEach (remode (nowMs w.env)) { w.s with cfg := cfg } = s at hrelay hmask ⊢
  refine Eq.trans ?_ (track_reconfigure (nowMs w.env) (cfg.relays i) (w.s.relay i) (h i))
  change track _ (s.mask.has i) _ (s.relay i) = _
  rw [hmask, hrelay]
  rfl

@[simp] theorem reportInterlockHealth_s (conflict : Mask) (w : World) :
    (reportInterlockHealth conflict w).s = w.s := by
  unfold reportInterlockHealth
  split_ifs <;> rfl

theorem reportInterlockHealth_same (conflict : Mask) (w : World) :
    SameStore w.env (reportInterlockHealth conflict w).env := by
  unfold reportInterlockHealth
  split_ifs <;> exact healthReport_same _ _ _

theorem reported_acts {w w' : World} {e : Channel → List Event} (conflict : Mask)
    (h : Acts w w' e) : Acts w (reportInterlockHealth conflict w') e := by
  refine ⟨(reportInterlockHealth_same conflict w').nowMs.trans h.clock, fun i => ?_⟩
  rw [reportInterlockHealth_s]
  exact h.relay i

theorem resolveConflict_acts (w : World) (h : w.s.Steady) :
    Acts w (resolveConflict w) (fun i =>
      if w.s.mask.has i && !(resolveConflict w).s.mask.has i then [.cancel, .off] else []) := by
  unfold resolveConflict
  extract_lets before conflict
  split_ifs with hz
  · obtain ⟨env, hsame, ⟨fault, hc⟩ | ⟨e, -, hc⟩⟩ :=
      commitLocked_spec (w.s.mask &&& ~~~conflict) w
    · simp only [hc]
      have hon : ∀ i, conflict.has i = true → w.s.mask.has i = true := by
        intro i hi
        rw [(clearInterlockConflicts_has w.s.cfg w.s.mask i).2, Bool.and_eq_true] at hi
        exact hi.1
      refine reported_acts conflict ((tracked_acts h conflict conflict hsame.nowMs
        (fun i => ?_)).congr (fun i => ?_))
      · apply Relay.ext <;> simp
      · cases hi : conflict.has i
        · simp [cancelled, dropped, hi]
        · simp [cancelled, dropped, hi, hon i hi]
    · simp only [hc]
      refine reported_acts 0#8 ((failed_acts hsame).congr (fun i => ?_))
      simp
  · refine reported_acts 0#8 ((Acts.same rfl (fun _ => rfl)).congr (fun i => ?_))
    simp

end RelayBoard
