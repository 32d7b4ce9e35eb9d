import RelayBoard.RelayCommit

/-!
# One relay

What relay control means for a single relay: a coil with a pulse timer, a
maximum on-time timer and a place for one deferred turn-on. Five events drive
it. The bitmaps of the static struct hold eight such relays side by side, and
in a steady state, where the timers run exactly for the coils they belong to,
every call acts on each relay as a sequence of these events.
-/

set_option autoImplicit false

namespace RelayBoard
open BitVec Lib.Loops

def RelayCfg.momentary (cfg : RelayCfg) : Bool := cfg.mode = .momentary

/-- Maximum on-time in ms, 0 for none. -/
def RelayCfg.limit (cfg : RelayCfg) : Ms := if cfg.momentary then 0#32 else cfg.maxOnS * 1000#32

theorem RelayCfg.limit_of_momentary {cfg : RelayCfg} (h : cfg.momentary = true) :
    cfg.limit = 0#32 := by
  rw [limit, if_pos h]

@[ext]
structure Relay where
  cfg : RelayCfg
  coil : Bool
  pulsing : Bool
  pulseEnd : Ms
  limited : Bool
  maxOnEnd : Ms
  pending : Bool
  pendingEnd : Ms
  pendingSrc : RelaySource

namespace Relay

/-- The timers run exactly while they have something to end. -/
def Steady (r : Relay) : Prop :=
  r.pulsing = (r.coil && r.cfg.momentary) ∧ r.limited = (r.coil && decide (r.cfg.limit ≠ 0#32))

inductive Event where
  | on
  | off
  | defer (dead : Ms) (src : RelaySource)
  | cancel
  | reconfigure (cfg : RelayCfg)

def on (now : Ms) (r : Relay) : Relay :=
  { r with
    coil := true
    pulsing := r.cfg.momentary
    pulseEnd := if r.cfg.momentary then now + r.cfg.pulseMs else r.pulseEnd
    limited := r.cfg.limit ≠ 0#32
    maxOnEnd := if r.cfg.limit ≠ 0#32 then now + r.cfg.limit else r.maxOnEnd }

def off (r : Relay) : Relay := { r with coil := false, pulsing := false, limited := false }

def defer (now dead : Ms) (src : RelaySource) (r : Relay) : Relay :=
  { r with pending := true, pendingEnd := now + dead, pendingSrc := src }

def cancel (r : Relay) : Relay := { r with pending := false }

/-- New settings start a timer that was not running for this coil before, or
whose length has changed, and leave the others alone. -/
def reconfigure (now : Ms) (cfg : RelayCfg) (r : Relay) : Relay :=
  { r with
    cfg := cfg
    pulsing := r.coil && cfg.momentary
    pulseEnd :=
      if r.coil && cfg.momentary && !r.cfg.momentary then now + cfg.pulseMs else r.pulseEnd
    limited := r.coil && decide (cfg.limit ≠ 0#32)
    maxOnEnd :=
      if r.coil ∧ cfg.limit ≠ 0#32 ∧ cfg.limit ≠ r.cfg.limit then now + cfg.limit else r.maxOnEnd }

def apply (now : Ms) (r : Relay) : Event → Relay
  | .on => r.on now
  | .off => r.off
  | .defer dead src => r.defer now dead src
  | .cancel => r.cancel
  | .reconfigure cfg => r.reconfigure now cfg

def applyAll (now : Ms) (r : Relay) (es : List Event) : Relay := es.foldl (apply now) r

theorem apply_steady (now : Ms) (r : Relay) (e : Event) (h : r.Steady) :
    (r.apply now e).Steady := by
  cases e with
  | on => simp [apply, on, Steady]
  | off => simp [apply, off, Steady]
  | defer dead src => exact h
  | cancel => exact h
  | reconfigure cfg => simp [apply, reconfigure, Steady]

theorem applyAll_steady (now : Ms) (r : Relay) (es : List Event) (h : r.Steady) :
    (r.applyAll now es).Steady := by
  induction es generalizing r with
  | nil => exact h
  | cons e es ih => exact ih (r.apply now e) (apply_steady now r e h)

theorem applyAll_cons (now : Ms) (r : Relay) (e : Event) (es : List Event) :
    r.applyAll now (e :: es) = (r.apply now e).applyAll now es := rfl

/-- A coil goes on by no event but `on`. -/
theorem coil_of_applyAll {now : Ms} {r : Relay} {es : List Event}
    (h : (r.applyAll now es).coil = true) : r.coil = true ∨ Event.on ∈ es := by
  induction es generalizing r with
  | nil => exact Or.inl h
  | cons e es ih =>
    rw [applyAll_cons] at h
    rcases ih h with hc | he
    · cases e with
      | on => simp
      | off => simp [apply, off] at hc
      | defer dead src => exact Or.inl hc
      | cancel => exact Or.inl hc
      | reconfigure cfg => exact Or.inl hc
    · exact Or.inr (List.mem_cons_of_mem _ he)

/-- A pending-on arises by no event but `defer`. -/
theorem pending_of_applyAll {now : Ms} {r : Relay} {es : List Event}
    (h : (r.applyAll now es).pending = true) :
    r.pending = true ∨ ∃ dead src, Event.defer dead src ∈ es := by
  induction es generalizing r with
  | nil => exact Or.inl h
  | cons e es ih =>
    rw [applyAll_cons] at h
    rcases ih h with hp | ⟨dead, src, he⟩
    · cases e with
      | on => exact Or.inl hp
      | off => exact Or.inl hp
      | defer dead src => exact Or.inr ⟨dead, src, by simp⟩
      | cancel => simp [apply, cancel] at hp
      | reconfigure cfg => exact Or.inl hp
    · exact Or.inr ⟨dead, src, List.mem_cons_of_mem _ he⟩

/-- What is pending was deferred at this reading, or has been all along. -/
theorem pendingEnd_of_applyAll {now : Ms} {r : Relay} {es : List Event}
    (h : (r.applyAll now es).pending = true) :
    (∃ dead src, Event.defer dead src ∈ es ∧ (r.applyAll now es).pendingEnd = now + dead) ∨
      (r.pending = true ∧ (r.applyAll now es).pendingEnd = r.pendingEnd ∧ Event.cancel ∉ es) := by
  induction es generalizing r with
  | nil => exact Or.inr ⟨h, rfl, List.not_mem_nil⟩
  | cons e es ih =>
    rw [applyAll_cons] at h ⊢
    rcases ih h with ⟨dead, src, hd, hend⟩ | ⟨hp, hend, hc⟩
    · exact Or.inl ⟨dead, src, List.mem_cons_of_mem _ hd, hend⟩
    · rw [hend]
      cases e with
      | defer dead src => exact Or.inl ⟨dead, src, List.mem_cons_self .., rfl⟩
      | cancel => cases hp
      | on => exact Or.inr ⟨hp, rfl, by simpa using hc⟩
      | off => exact Or.inr ⟨hp, rfl, by simpa using hc⟩
      | reconfigure cfg => exact Or.inr ⟨hp, rfl, by simpa using hc⟩

/-- A `cancel` that no `defer` follows leaves nothing pending. -/
theorem not_pending_of_cancel {now : Ms} {r : Relay} {es : List Event}
    (hd : ∀ dead src, Event.defer dead src ∉ es) (hc : Event.cancel ∈ es) :
    (r.applyAll now es).pending = false := by
  induction es generalizing r with
  | nil => simp at hc
  | cons e es ih =>
    have hd' : ∀ dead src, Event.defer dead src ∉ es :=
      fun dead src h => hd dead src (List.mem_cons_of_mem _ h)
    rw [applyAll_cons]
    rcases List.mem_cons.mp hc with rfl | hc'
    · rw [← Bool.not_eq_true]
      intro hp
      rcases pending_of_applyAll hp with h | ⟨dead, src, h⟩
      · cases h
      · exact hd' dead src h
    · exact ih hd' hc'

/-- Settings stay what they are through events other than `reconfigure`. -/
theorem cfg_of_applyAll {now : Ms} {r : Relay} {es : List Event}
    (h : ∀ cfg, Event.reconfigure cfg ∉ es) : (r.applyAll now es).cfg = r.cfg := by
  induction es generalizing r with
  | nil => rfl
  | cons e es ih =>
    rw [applyAll_cons, ih (fun cfg hc => h cfg (List.mem_cons_of_mem _ hc))]
    cases e with
    | reconfigure cfg => exact absurd (List.mem_cons_self ..) (h cfg)
    | on => rfl
    | off => rfl
    | defer dead src => rfl
    | cancel => rfl

/-- A timer of a relay: started by `on` for the length the settings give,
stopped by `off`, and otherwise left alone. -/
structure Timer where
  running : Relay → Bool
  ends : Relay → Ms
  length : RelayCfg → Ms
  starts : ∀ (now : Ms) (r : Relay), running (r.on now) = true →
    ends (r.on now) = now + length r.cfg
  stops : ∀ r : Relay, running r.off = false
  deferred : ∀ (now dead : Ms) (src : RelaySource) (r : Relay),
    running (r.defer now dead src) = running r ∧ ends (r.defer now dead src) = ends r
  cancelled : ∀ r : Relay, running r.cancel = running r ∧ ends r.cancel = ends r

def pulseTimer : Timer where
  running := pulsing
  ends := pulseEnd
  length := RelayCfg.pulseMs
  starts _ _ h := if_pos h
  stops _ := rfl
  deferred _ _ _ _ := ⟨rfl, rfl⟩
  cancelled _ := ⟨rfl, rfl⟩

def maxOnTimer : Timer where
  running := limited
  ends := maxOnEnd
  length := RelayCfg.limit
  starts _ _ h := if_pos (by simpa [Relay.on] using h)
  stops _ := rfl
  deferred _ _ _ _ := ⟨rfl, rfl⟩
  cancelled _ := ⟨rfl, rfl⟩

/-- A timer still running was started by an `on` at this reading, or has been
running all along. -/
theorem timer_of_applyAll (timer : Timer) {now : Ms} {r : Relay} {es : List Event}
    (h : ∀ cfg, Event.reconfigure cfg ∉ es) (hp : timer.running (r.applyAll now es) = true) :
    (Event.on ∈ es → timer.ends (r.applyAll now es) = now + timer.length r.cfg) ∧
    (Event.on ∉ es →
      timer.running r = true ∧ timer.ends (r.applyAll now es) = timer.ends r) := by
  induction es generalizing r with
  | nil => exact ⟨fun hm => by simp at hm, fun _ => ⟨hp, rfl⟩⟩
  | cons e es ih =>
    rw [applyAll_cons] at hp ⊢
    obtain ⟨hon, hoff⟩ := ih (fun cfg hc => h cfg (List.mem_cons_of_mem _ hc)) hp
    by_cases hm : Event.on ∈ es
    · have hone : ∀ cfg, Event.reconfigure cfg ∉ [e] := by
        intro cfg hc
        refine h cfg ?_
        rw [List.mem_singleton.mp hc]
        exact List.mem_cons_self ..
      have hcfg : (r.apply now e).cfg = r.cfg := cfg_of_applyAll hone
      rw [hcfg] at hon
      exact ⟨fun _ => hon hm, fun hn => absurd (List.mem_cons_of_mem _ hm) hn⟩
    · obtain ⟨hr, he⟩ := hoff hm
      rw [he]
      cases e with
      | on => exact ⟨fun _ => timer.starts now r hr, fun hn => absurd (List.mem_cons_self ..) hn⟩
      | off =>
        have hstop := timer.stops r
        rw [show r.off = r.apply now .off from rfl, hr] at hstop
        cases hstop
      | defer dead src =>
        obtain ⟨h1, h2⟩ := timer.deferred now dead src r
        exact ⟨fun hn => by simp [hm] at hn, fun _ => ⟨h1 ▸ hr, h2⟩⟩
      | cancel =>
        obtain ⟨h1, h2⟩ := timer.cancelled r
        exact ⟨fun hn => by simp [hm] at hn, fun _ => ⟨h1 ▸ hr, h2⟩⟩
      | reconfigure cfg => exact absurd (List.mem_cons_self ..) (h cfg)

theorem cancel_if (now : Ms) (r : Relay) (kill : Bool) :
    { r with pending := r.pending && !kill } = r.applyAll now (if kill then [.cancel] else []) := by
  cases kill
  · rw [Bool.not_false, Bool.and_true]
    rfl
  · rw [Bool.not_true, Bool.and_false]
    rfl

/-- `track_max_on_locked` for one relay. -/
def track (now : Ms) (before restart : Bool) (r : Relay) : Relay :=
  if !r.coil || r.cfg.limit = 0#32 then { r with limited := false }
  else if !before || restart then { r with maxOnEnd := now + r.cfg.limit, limited := true }
  else r

theorem Steady.coil_of_pulsing {r : Relay} (h : r.Steady) (hp : r.pulsing = true) :
    r.coil = true := by
  rw [h.1, Bool.and_eq_true] at hp
  exact hp.1

theorem Steady.limited_of_pulsing {r : Relay} (h : r.Steady) (hp : r.pulsing = true) :
    r.limited = false := by
  rw [h.1, Bool.and_eq_true] at hp
  rw [h.2, RelayCfg.limit_of_momentary hp.2]
  simp

theorem Steady.coil_of_limited {r : Relay} (h : r.Steady) (hl : r.limited = true) :
    r.coil = true := by
  rw [h.2, Bool.and_eq_true] at hl
  exact hl.1

theorem Steady.pulsing_of_limited {r : Relay} (h : r.Steady) (hl : r.limited = true) :
    r.pulsing = false := by
  by_contra hp
  rw [h.limited_of_pulsing (by simpa using hp)] at hl
  cases hl

theorem track_idle (now : Ms) (before : Bool) (r : Relay) (h : r.Steady)
    (hb : r.coil = true → before = true) : r.track now before false = r := by
  obtain ⟨-, hl⟩ := h
  unfold track
  split_ifs with hoff hnew
  · ext <;> simp
    rcases Bool.or_eq_true_iff.mp hoff with hc | hz
    · simp at hc; simp [hl, hc]
    · simp at hz; simp [hl, hz]
  · simp at hoff hnew
    rw [hb hoff.1] at hnew
    cases hnew
  · rfl

theorem track_off (now : Ms) (before restart : Bool) (r : Relay) (h : r.coil = false) :
    r.track now before restart = { r with limited := false } := by
  simp [track, h]

end Relay

@[simps]
def St.relay (s : St) (i : Channel) : Relay where
  cfg := s.cfg.relays i
  coil := s.mask.has i
  pulsing := s.pulsing.has i
  pulseEnd := s.pulseEnd i
  limited := s.limited.has i
  maxOnEnd := s.maxOnEnd i
  pending := s.pendingOn.has i
  pendingEnd := s.pendingOnEnd i
  pendingSrc := s.pendingOnSrc i

def St.Steady (s : St) : Prop := ∀ i, (s.relay i).Steady

theorem isMomentary_eq (cfg : DeviceConfig) (i : Channel) :
    isMomentary cfg i = (cfg.relays i).momentary := rfl

theorem maxOnMs_eq (cfg : DeviceConfig) (i : Channel) : maxOnMs cfg i = (cfg.relays i).limit := rfl

theorem has_partnerBit (cfg : DeviceConfig) (i j : Channel) :
    (interlockPartnerBit cfg i).has j = decide (Partner cfg i j) := by
  have hj := j.isLt
  rw [Bool.eq_iff_iff, decide_eq_true_iff, Partner, interlockPartnerBit]
  by_cases hz : (cfg.relays i).interlock = 0
  · simp [hz]
  · simp only [hz, if_false, has, getLsbD_twoPow, Bool.and_eq_true, decide_eq_true_eq]
    omega

theorem relayCtrlGet_channel (i : Channel) (s : St) :
    relayCtrlGet (i.val + 1) s = (relayCtrlGetMask s).has i := by
  have hi := i.isLt
  rw [relayCtrlGet, dif_pos (by omega)]
  rfl

def PartnerOn (cfg : DeviceConfig) (mask : Mask) (i : Channel) : Prop :=
  ∃ j, Partner cfg i j ∧ mask.has j = true

instance (cfg : DeviceConfig) (mask : Mask) (i : Channel) : Decidable (PartnerOn cfg mask i) :=
  inferInstanceAs (Decidable (∃ _, _))

theorem partnerOn_iff (cfg : DeviceConfig) (mask : Mask) (i : Channel) :
    mask &&& interlockPartnerBit cfg i ≠ 0#8 ↔ PartnerOn cfg mask i := by
  rw [and_ne_zero_iff]
  simp only [has_partnerBit, PartnerOn, decide_eq_true_eq]
  exact exists_congr (fun j => And.comm)

theorem partnerBit_ne_zero {cfg : DeviceConfig} {mask : Mask} {i : Channel}
    (h : PartnerOn cfg mask i) : interlockPartnerBit cfg i ≠ 0#8 := by
  obtain ⟨j, hj, -⟩ := h
  exact (ne_zero_iff _).mpr ⟨j, by simp [has_partnerBit, hj]⟩

theorem clearInterlockConflicts_has (cfg : DeviceConfig) (mask : Mask) (i : Channel) :
    (clearInterlockConflicts cfg mask).1.has i =
      (mask.has i && !(mask.has i && PartnerOn cfg mask i)) ∧
    (clearInterlockConflicts cfg mask).2.has i = (mask.has i && PartnerOn cfg mask i) := by
  have hp := partnerOn_iff cfg mask i
  have hown := forEach_own (fun i (out : Mask × Mask) =>
    let partnerBit := interlockPartnerBit cfg i
    if partnerBit ≠ 0#8 ∧ mask.has i ∧ mask &&& partnerBit ≠ 0#8 then
      (out.1 &&& ~~~single i, out.2 ||| single i)
    else out) (fun out => (out.1.has i, out.2.has i)) i ?_ ?_ (mask, 0#8)
  · rw [Prod.mk.injEq] at hown
    unfold clearInterlockConflicts
    rw [hown.1, hown.2]
    dsimp only
    by_cases hon : PartnerOn cfg mask i
    · have hne := partnerBit_ne_zero hon
      cases hm : mask.has i <;> simp [hne, hp.mpr hon, hon, hm]
    · rw [if_neg (fun h => hon (hp.mp h.2.2))]
      simp [hon]
  · intro j hj out
    dsimp only
    split_ifs
    · simp [hj.symm]
    · rfl
  · intro out out' h
    simp only [Prod.mk.injEq] at h ⊢
    split_ifs
    · simp [h.1, h.2]
    · exact h

end RelayBoard
