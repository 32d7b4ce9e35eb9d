import RelayBoard.CommandEffects
import RelayBoard.Commands
import RelayBoard.Pulses

/-!
# The dead time of a pair

A turn-on that has been deferred waits until the partner has been off for the
dead time, whatever else happens. One that finds the partner off already is
carried out at once, whenever and by whatever the partner was switched off; so
the dead time is kept exactly by the calls that do not command such a turn-on
too early.
-/

set_option autoImplicit false

namespace RelayBoard
open BitVec Lib.Runs Lib.Clock Relay

def Op.operating : Op → Bool
  | .init _ => false
  | .updateConfig _ => false
  | _ => true

/-- By time `t` the coil of relay `j` has been off for `dead` milliseconds, or
since boot. -/
def OffFor (dead : ℕ) (j : Channel) (past : List Entry) (t : ℕ) : Prop :=
  ∀ e ∈ past, e.1.s.mask.has j = true → e.2.time + dead ≤ t

/-- A coil that the call turns on has had its partner's off for the dead time. -/
def DeadTimeKept (w : World) (past : List Entry) (c : Call) : Prop :=
  ∀ i j, Partner w.s.cfg i j → w.s.mask.has i = false → (step w c).s.mask.has i = true →
    OffFor w.s.cfg.interlockDeadMs.toNat j ((w, c) :: past) c.time

/-- A command that finds its coil and the partner's off, and nothing pending,
does not come within the dead time of the partner. -/
def CommandsWait (w : World) (past : List Entry) (c : Call) : Prop :=
  ∀ i j, Partner w.s.cfg i j → requests true w c i = true → w.s.mask.has i = false →
    w.s.mask.has j = false → w.s.pendingOn.has i = false →
    OffFor w.s.cfg.interlockDeadMs.toNat j past c.time

/-- A relay that waits has a partner that neither waits nor is on, and it waits
from a moment since which the partner has not been on. -/
structure Waiting (cfg : DeviceConfig) (w : World) (past : List Entry) : Prop where
  steady : w.s.Steady
  settings : w.s.cfg = cfg
  alone : ∀ i j, Partner cfg i j → w.s.pendingOn.has i = true → w.s.pendingOn.has j = false
  off : ∀ i j, Partner cfg i j → w.s.pendingOn.has i = true → w.s.mask.has j = false
  since : ∀ i j, Partner cfg i j → w.s.pendingOn.has i = true → ∃ e ∈ past,
    w.s.pendingOnEnd i = reading 32 (e.2.time + cfg.interlockDeadMs.toNat) ∧
      ∀ d ∈ past, d.1.s.mask.has j = true → d.2.time ≤ e.2.time

theorem running_of_operating {op : Op} (h : op.operating = true) : op.running = true := by
  cases op with
  | init cfg => cases h
  | _ => rfl

theorem cfg_of_operating (w : World) (c : Call) (h : c.op.operating = true) :
    (step w c).s.cfg = w.s.cfg := by
  rw [step_cfg w c (running_of_operating h)]
  cases hop : c.op with
  | updateConfig cfg =>
    rw [hop] at h
    cases h
  | _ => rfl

theorem on_mem_commandEvents {i j : Channel} {k : Command} {w : World}
    (h : Event.on ∈ commandEvents i k w j) : j = i ∧ coilRequest i k.onReq w.s = true ∧
      (command i k w).1.isOk = true ∧ ¬PartnerOn w.s.cfg w.s.mask i ∧
      w.s.pendingOn.has i = false := by
  unfold commandEvents at h
  dsimp only at h
  split_ifs at h with hreq hok hp hpend hj
  all_goals simp_all

theorem dead_of_mem_commandEvents {i j : Channel} {k : Command} {w : World} {dead : Ms}
    {src : RelaySource} (h : Event.defer dead src ∈ commandEvents i k w j) :
    dead = w.s.cfg.interlockDeadMs := by
  unfold commandEvents at h
  dsimp only at h
  split_ifs at h with hreq hok hp hpend hj
  all_goals simp_all

section Step

variable {cfg : DeviceConfig} {w : World} {past : List Entry} {c : Call}

/-- A coil that goes on does so by a command or because it has been waiting. -/
theorem goes_on_cases (h : w.s.Steady) (hop : c.op.running = true) {i : Channel}
    (hoff : w.s.mask.has i = false) (hon : (step w c).s.mask.has i = true) :
    (commanded true w c i = true ∧ ¬PartnerOn w.s.cfg w.s.mask i ∧
        w.s.pendingOn.has i = false) ∨
      (w.s.due (reading 32 c.time) i = true) := by
  have hevent : Event.on ∈ effects c.op (w.begin c) i := by
    refine ((step_acts w c hop h).coil_of hon).resolve_left ?_
    rw [begin_s, hoff]
    exact Bool.false_ne_true
  rcases running_cases c.op hop with ⟨j, k, hj⟩ | ⟨⟨k, hk⟩, hnone⟩ | ht | hl | ⟨cfg', hu⟩
  · rw [effects_commandTo _ hj] at hevent
    obtain ⟨rfl, hreq, hok, hp, hpend⟩ := on_mem_commandEvents hevent
    have hr : requests true w c i = true := (requests_iff hj).mpr hreq
    refine Or.inl ⟨?_, hp, hpend⟩
    rw [commanded, hr, err_of_commandTo hj, hok]
    rfl
  · rw [effects_refused _ hk hnone] at hevent
    cases hevent
  · rw [ht] at hevent
    have hfired : (fired (w.begin c)).has i = true := by
      simp only [effects, tickEvents] at hevent
      split_ifs at hevent with hf hb
      · exact hf
      · simp at hevent
      · simp at hevent
    have hdue := (of_fired hfired).1
    rw [(timedOut_moved _).nowMs, timedOut_due] at hdue
    exact Or.inr hdue
  · simp [hl, effects, skLostEvents] at hevent
  · rw [hu] at hevent
    simp only [effects, updateEvents] at hevent
    split_ifs at hevent <;> simp at hevent

/-- A command that is deferred switches the partner off and calls off what it
waits for. -/
theorem deferred_partner (h : w.s.Steady) (hop : c.op.running = true) (hp : Paired w.s.cfg)
    {i j : Channel} (hij : Partner w.s.cfg i j) (hd : defers w c i = true) :
    (step w c).s.mask.has j = false ∧ (step w c).s.pendingOn.has j = false := by
  rw [defers, Bool.and_eq_true, decide_eq_true_iff] at hd
  obtain ⟨hon, hpartner⟩ := hd
  refine ⟨?_, not_pending_of_partner w c h hop hp (hp.symm i j hij) hon
    (fun hno => absurd hpartner hno)⟩
  rw [commanded, Bool.and_eq_true] at hon
  obtain ⟨k, hk, hreq⟩ := requests_eq_true hon.1
  have hok := hon.2
  rw [err_of_commandTo hk, isOk_iff] at hok
  have hstep : step w c = (command i k (w.begin c)).2 := by
    rw [step, result, perform_commandTo _ hk]
  rw [hstep, command_mask k hok, if_neg (by rw [begin_s, hreq]; exact Bool.true_eq_false_eq_False),
    if_pos (by exact hpartner), has_and, has_not, has_partnerBit]
  simp [hij]

/-- What is pending after a call was deferred by it, or was pending before and
has not been called off. -/
theorem pending_cases (h : w.s.Steady) (hop : c.op.operating = true) {i : Channel}
    (hpend : (step w c).s.pendingOn.has i = true) :
    (defers w c i = true ∧ (step w c).s.pendingOnEnd i =
        reading 32 (c.time + w.s.cfg.interlockDeadMs.toNat)) ∨
      (w.s.pendingOn.has i = true ∧ (step w c).s.pendingOnEnd i = w.s.pendingOnEnd i) := by
  have hrun := running_of_operating hop
  have hrel := step_relay w c hrun h i
  have hend : (step w c).s.pendingOnEnd i = _ := congrArg pendingEnd hrel
  have hp : ((w.s.relay i).applyAll (reading 32 c.time) (effects c.op (w.begin c) i)).pending =
      true := by
    rw [← hrel]
    exact hpend
  rcases pendingEnd_of_applyAll hp with ⟨dead, src, hd, hdead⟩ | ⟨hold, hkept, -⟩
  · have hdefers := defers_of_mem w c hrun hd
    refine Or.inl ⟨hdefers, ?_⟩
    rw [defers, commanded, Bool.and_eq_true, Bool.and_eq_true] at hdefers
    obtain ⟨k, hk, -⟩ := requests_eq_true hdefers.1.1
    rw [effects_commandTo _ hk] at hd
    rw [hend, hdead, dead_of_mem_commandEvents hd, ← reading_add_ms]
    rfl
  · exact Or.inr ⟨hold, hend.trans hkept⟩

/-- While a relay waits on, no call turns its partner on or makes it wait. -/
theorem partner_left (hpaired : Paired w.s.cfg) (h : Waiting cfg w past)
    (hop : c.op.operating = true) {i j : Channel} (hij : Partner cfg i j)
    (hold : w.s.pendingOn.has i = true) (hpend : (step w c).s.pendingOn.has i = true) :
    (step w c).s.mask.has j = false ∧ (step w c).s.pendingOn.has j = false := by
  have hrun := running_of_operating hop
  have hset := h.settings
  have hij' : Partner w.s.cfg i j := by rwa [hset]
  have halone := h.alone i j hij hold
  -- an on command to the partner calls off what this relay waits for
  have hcommand : commanded true w c j = false := by
    rw [← Bool.not_eq_true]
    intro hon
    rw [not_pending_of_partner w c h.steady hrun hpaired hij' hon (fun _ => halone)] at hpend
    cases hpend
  constructor
  · rw [← Bool.not_eq_true]
    intro hon
    rcases goes_on_cases h.steady hrun (h.off i j hij hold) hon with ⟨hcom, -⟩ | hdue
    · rw [hcommand] at hcom
      cases hcom
    · rw [St.due, halone, Bool.false_and] at hdue
      cases hdue
  · rw [← Bool.not_eq_true]
    intro hj
    rcases pending_cases h.steady hop hj with ⟨hd, -⟩ | ⟨hj', -⟩
    · rw [defers, hcommand, Bool.false_and] at hd
      cases hd
    · rw [halone] at hj'
      cases hj'

theorem step_waiting (hpaired : Paired cfg) (h : Waiting cfg w past)
    (hop : c.op.operating = true) (htime : ∀ e ∈ past, e.2.time ≤ c.time) :
    Waiting cfg (step w c) ((w, c) :: past) := by
  have hrun := running_of_operating hop
  have hset := h.settings
  have hpaired' : Paired w.s.cfg := by rwa [hset]
  have hrest : ∀ i j, Partner cfg i j → (step w c).s.pendingOn.has i = true →
      (step w c).s.mask.has j = false ∧ (step w c).s.pendingOn.has j = false := by
    intro i j hij hpend
    rcases pending_cases h.steady hop hpend with ⟨hd, -⟩ | ⟨hold, -⟩
    · exact deferred_partner h.steady hrun hpaired' (by rwa [hset]) hd
    · exact partner_left hpaired' h hop hij hold hpend
  refine ⟨step_steady w c hrun h.steady, (cfg_of_operating w c hop).trans hset,
    fun i j hij hpend => (hrest i j hij hpend).2, fun i j hij hpend => (hrest i j hij hpend).1,
    fun i j hij hpend => ?_⟩
  rcases pending_cases h.steady hop hpend with ⟨-, hend⟩ | ⟨hold, hend⟩
  · refine ⟨(w, c), List.mem_cons_self .., by rw [hend, hset], fun d hd _ => ?_⟩
    rcases List.mem_cons.mp hd with rfl | hd
    · exact le_rfl
    · exact htime d hd
  · obtain ⟨e, he, hsince, hlast⟩ := h.since i j hij hold
    refine ⟨e, List.mem_cons_of_mem _ he, hend.trans hsince, fun d hd hon => ?_⟩
    rcases List.mem_cons.mp hd with rfl | hd
    · rw [h.off i j hij hold] at hon
      cases hon
    · exact hlast d hd hon

/-- A relay whose wait is over has had its partner off for the dead time. -/
theorem offFor_of_due (h : Waiting cfg w past) (hdead : cfg.interlockDeadMs.toNat ≤ 2000)
    (htime : ∀ e ∈ past, e.2.time ≤ c.time) {i j : Channel} (hij : Partner cfg i j)
    (hdue : w.s.due (reading 32 c.time) i = true) :
    OffFor cfg.interlockDeadMs.toNat j ((w, c) :: past) c.time := by
  rw [St.due, Bool.and_eq_true] at hdue
  obtain ⟨hpend, hpassed⟩ := hdue
  obtain ⟨e, he, hend, hlast⟩ := h.since i j hij hpend
  have hover : e.2.time + cfg.interlockDeadMs.toNat ≤ c.time := by
    by_contra hlt
    have hstart := htime e he
    rw [hend, deadlinePassed, passed_early 32 _ _ (by omega) (by omega)] at hpassed
    cases hpassed
  intro d hd hon
  rcases List.mem_cons.mp hd with rfl | hd
  · rw [h.off i j hij hpend] at hon
    cases hon
  · have hle := hlast d hd hon
    omega

theorem directOn_reliable (hr : w.env.Reliable) (i : Channel) (partnerBit : Mask) :
    (directOn i partnerBit w).1 = .ok () := by
  obtain ⟨env, -, ⟨fault, s, v, -, -, hc⟩ | ⟨e, hnr, -⟩⟩ := directOn_spec i partnerBit w
  · rw [hc]
  · exact absurd hr hnr

/-- On a reliable expander a command with nothing in its way is carried out. -/
theorem command_goes_on (hr : w.env.Reliable) {i : Channel} {k : Command}
    (hreq : coilRequest i k.onReq w.s = true) (hp : ¬PartnerOn w.s.cfg w.s.mask i)
    (hpend : w.s.pendingOn.has i = false) : (command i k w).2.s.mask.has i = true := by
  have hdirect : command i k w = directOn i (interlockPartnerBit w.s.cfg i) w := by
    rw [command, hreq, if_pos rfl, coilOn, if_neg (fun hb => hp ((partnerOn_iff _ _ i).mp hb.2)),
      hpend]
    rfl
  rw [hdirect, directOn_mask (directOn_reliable hr i _)]
  simp

/-- One call keeps the dead time exactly if its command waits. -/
theorem step_dead_time_iff (h : Waiting cfg w past)
    (hdead : cfg.interlockDeadMs.toNat ≤ 2000) (hop : c.op.operating = true) (hr : c.Reliable)
    (htime : ∀ e ∈ past, e.2.time ≤ c.time) :
    DeadTimeKept w past c ↔ CommandsWait w past c := by
  have hrun := running_of_operating hop
  have hset := h.settings
  constructor
  · intro hkept i j hij hreq hoff hj hpend d hd
    refine hkept i j hij hoff ?_ d (List.mem_cons_of_mem _ hd)
    obtain ⟨k, hk, hlevel⟩ := requests_eq_true hreq
    have hp : ¬PartnerOn w.s.cfg w.s.mask i := by
      rintro ⟨j', hij', hon⟩
      rw [← partner_unique hij hij', hj] at hon
      cases hon
    have hstep : step w c = (command i k (w.begin c)).2 := by
      rw [step, result, perform_commandTo _ hk]
    rw [hstep]
    exact command_goes_on (w := w.begin c) hr hlevel hp hpend
  · intro hwait i j hij hoff hon
    rcases goes_on_cases h.steady hrun hoff hon with ⟨hcom, hp, hpend⟩ | hdue
    · have hj : w.s.mask.has j = false := by
        rw [← Bool.not_eq_true]
        exact fun hj => hp ⟨j, hij, hj⟩
      rw [commanded, Bool.and_eq_true] at hcom
      intro d hd hd'
      rcases List.mem_cons.mp hd with rfl | hd
      · rw [hj] at hd'
        cases hd'
      · exact hwait i j hij hcom.1 hoff hj hpend d hd hd'
    · rw [hset] at hij ⊢
      exact offFor_of_due h hdead htime hij hdue

end Step

theorem starts_waiting {w : World} {c₀ : Call} {cfg : DeviceConfig} (h₀ : Starts w c₀ cfg) :
    Waiting cfg (step w c₀) [] := by
  obtain ⟨warm, held, env, -, -, -, -, hs⟩ := h₀.booted
  have hnone : ∀ i, ¬(step w c₀).s.pendingOn.has i = true := by
    intro i hi
    rw [hs, booted_pendingOn, has_zero] at hi
    cases hi
  refine ⟨h₀.steady, ?_, fun i j _ hi => absurd hi (hnone i), fun i j _ hi => absurd hi (hnone i),
    fun i j _ hi => absurd hi (hnone i)⟩
  rw [hs, booted_cfg]

/-- In every run of set, toggle, tick and SignalK loss after a successful boot,
under one configuration and on a reliable expander, each call keeps the dead
time of every pair exactly if its command waits. The setting goes up to 2000. -/
theorem run_dead_time_iff (w : World) (c₀ : Call) (cfg : DeviceConfig) (h₀ : Starts w c₀ cfg)
    (hpaired : Paired cfg) (hdead : cfg.interlockDeadMs.toNat ≤ 2000) (cs : List Call)
    (hop : ∀ c ∈ cs, c.op.operating = true) (hr : ∀ c ∈ cs, c.Reliable)
    (htime : (cs.map Call.time).Pairwise (· ≤ ·)) (js : List Call) (c : Call) (ks : List Call)
    (hsplit : cs = js ++ c :: ks) :
    DeadTimeKept (run step (step w c₀) js) (history step (step w c₀) js) c ↔
      CommandsWait (run step (step w c₀) js) (history step (step w c₀) js) c := by
  have hpast := suffix_history step (step w c₀) js c ks
  rw [← hsplit] at hpast
  have hwaiting : Waiting cfg (run step (step w c₀) js) (history step (step w c₀) js) := by
    refine run_induction_past step (I := Waiting cfg)
      (P := fun _ past d => d.op.operating = true ∧ ∀ e ∈ past, e.2.time ≤ d.time) _
      (starts_waiting h₀) (fun v past d hv hd => step_waiting hpaired hv hd.1 hd.2) js
      (fun e past he => ?_)
    have hsuffix := he.trans ((List.suffix_cons _ _).trans hpast)
    exact ⟨hop e.2 (input_of_history step _ cs e (hsuffix.subset (List.mem_cons_self ..))),
      past_le htime hsuffix⟩
  have hmem : c ∈ cs := by simp [hsplit]
  exact step_dead_time_iff hwaiting hdead (hop c hmem) (hr c hmem) (past_le htime hpast)

/-- A motor's two directions; the second is on and is switched off. -/
def reversedRun (off : ℕ) : List Call :=
  [.plain (.set 2 true .web) 10, .plain (.set 2 false .web) off]

def motorConfig : DeviceConfig := DeviceConfig.schemaDefault.pair 1 2

/-- The other direction is commanded on 10 ms later, and its coil goes on at
once. -/
theorem reversed_too_early :
    ¬∀ (w : World) (c₀ : Call) (cfg : DeviceConfig), Starts w c₀ cfg → Paired cfg →
      cfg.interlockDeadMs.toNat ≤ 2000 → ∀ cs : List Call, (∀ c ∈ cs, c.op.operating = true) →
      (∀ c ∈ cs, c.Reliable) → (cs.map Call.time).Pairwise (· ≤ ·) →
      ∀ (js : List Call) (c : Call) (ks : List Call), cs = js ++ c :: ks →
        DeadTimeKept (run step (step w c₀) js) (history step (step w c₀) js) c := by
  intro h
  have hkept := h coldBoot (.plain (.init motorConfig) 0) motorConfig ⟨rfl, by decide +kernel⟩
    (by decide +kernel) (by decide +kernel) (reversedRun 1000 ++ [.plain (.set 1 true .web) 1010])
    (by decide +kernel) (by decide +kernel) (by decide +kernel) (reversedRun 1000)
    (.plain (.set 1 true .web) 1010) [] rfl 0 1 (by decide +kernel) (by decide +kernel)
    (by decide +kernel)
  unfold OffFor at hkept
  exact absurd hkept (by decide +kernel)

theorem reversed_in_time :
    DeadTimeKept (run step (step coldBoot (.plain (.init motorConfig) 0)) (reversedRun 1000))
        (history step (step coldBoot (.plain (.init motorConfig) 0)) (reversedRun 1000))
        (.plain (.set 1 true .web) 1100) ↔
      CommandsWait (run step (step coldBoot (.plain (.init motorConfig) 0)) (reversedRun 1000))
        (history step (step coldBoot (.plain (.init motorConfig) 0)) (reversedRun 1000))
        (.plain (.set 1 true .web) 1100) :=
  run_dead_time_iff coldBoot (.plain (.init motorConfig) 0) motorConfig
    ⟨rfl, by decide +kernel⟩ (by decide +kernel) (by decide +kernel)
    (reversedRun 1000 ++ [.plain (.set 1 true .web) 1100]) (by decide +kernel)
    (by decide +kernel) (by decide +kernel) (reversedRun 1000) (.plain (.set 1 true .web) 1100) []
    rfl

end RelayBoard
