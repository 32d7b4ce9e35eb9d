import RelayBoard.TurnOn

/-!
# No coil goes on without a command

A coil goes on inside a command to its own relay, or in a tick that carries
out a deferred one. The deferred command still stands then: no later off to
the relay, no later on to its partner and no fail-safe has cancelled it. One
on command does not cancel, the one given to a partner that is itself waiting,
which a re-pairing of two waiting relays makes possible.
-/

set_option autoImplicit false

namespace RelayBoard
open BitVec Lib.Runs Lib.Clock Relay

/-- A command to relay `i` that is accepted and has to wait for its partner. -/
def defers (w : World) (c : Call) (i : Channel) : Bool :=
  commanded true w c i && PartnerOn w.s.cfg w.s.mask i

/-- What calls off a deferred turn-on of relay `i`: an off to it, an on to its
partner at that moment, or the fail-safe if the relay is default-safe then. -/
def cancels (w : World) (c : Call) (i : Channel) : Bool :=
  commanded false w c i || decide (∃ j, Partner w.s.cfg i j ∧ commanded true w c j = true) ||
    c.op.isSkLost && effectiveFailsafe (w.s.cfg.relays i) = .defaultSafe

/-- The newest command that deferred relay `i`'s turn-on has not been called
off since. -/
def waits (i : Channel) : List Entry → Bool
  | [] => false
  | (w, c) :: past => defers w c i || !cancels w c i && waits i past

/-- No on command finds its relay waiting together with the partner. -/
def Heard (w : World) (c : Call) : Prop :=
  ∀ i j, Partner w.s.cfg j i → requests true w c j = true →
    ¬(w.s.pendingOn.has j = true ∧ w.s.pendingOn.has i = true ∧ w.s.mask.has i = false)

instance (w : World) (c : Call) : Decidable (Heard w c) :=
  inferInstanceAs (Decidable (∀ _ _, _ → _ → _))

theorem waits_iff (i : Channel) (past : List Entry) : waits i past = true ↔
    ∃ later e earlier, past = later ++ e :: earlier ∧ defers e.1 e.2 i = true ∧
      ∀ d ∈ later, cancels d.1 d.2 i = false := by
  induction past with
  | nil => simp [waits]
  | cons e past ih =>
    obtain ⟨w, c⟩ := e
    rw [waits, Bool.or_eq_true, Bool.and_eq_true, ih, Bool.not_eq_true']
    constructor
    · rintro (hd | ⟨hc, later, e, earlier, rfl, hd, hl⟩)
      · exact ⟨[], (w, c), past, rfl, hd, by simp⟩
      · exact ⟨(w, c) :: later, e, earlier, rfl, hd, List.forall_mem_cons.mpr ⟨hc, hl⟩⟩
    · rintro ⟨later, e, earlier, heq, hd, hl⟩
      cases later with
      | nil =>
        obtain ⟨rfl, rfl⟩ := List.cons.inj heq
        exact Or.inl hd
      | cons d later =>
        obtain ⟨rfl, rfl⟩ := List.cons.inj heq
        obtain ⟨hc, hl'⟩ := List.forall_mem_cons.mp hl
        exact Or.inr ⟨hc, later, e, earlier, rfl, hd, hl'⟩

theorem requests_eq_true {level : Bool} {w : World} {c : Call} {i : Channel}
    (h : requests level w c i = true) :
    ∃ k, c.op.commandTo i = some k ∧ coilRequest i k.onReq w.s = level := by
  unfold requests at h
  cases hto : c.op.commandTo i with
  | none => rw [hto] at h; cases h
  | some k =>
    rw [hto] at h
    exact ⟨k, rfl, by simpa using h⟩

theorem requests_iff {level : Bool} {w : World} {c : Call} {i : Channel} {k : Command}
    (h : c.op.commandTo i = some k) :
    requests level w c i = true ↔ coilRequest i k.onReq w.s = level := by
  simp [requests, h]

theorem err_of_commandTo {w : World} {c : Call} {i : Channel} {k : Command}
    (h : c.op.commandTo i = some k) : (result w c).err = (command i k (w.begin c)).1 := by
  rw [result, perform_commandTo _ h]

theorem defer_mem_commandEvents {i j : Channel} {k : Command} {w : World} {dead : Ms}
    {src : RelaySource} (h : Event.defer dead src ∈ commandEvents i k w j) :
    j = i ∧ coilRequest i k.onReq w.s = true ∧ (command i k w).1.isOk = true ∧
      PartnerOn w.s.cfg w.s.mask i := by
  unfold commandEvents at h
  dsimp only at h
  split_ifs at h with hreq hok hp hj
  all_goals simp_all

/-- A deferral comes from a command that is answered with success while the
partner's coil is on. -/
theorem defers_of_mem (w : World) (c : Call) (hop : c.op.running = true) {i : Channel} {dead : Ms}
    {src : RelaySource} (h : Event.defer dead src ∈ effects c.op (w.begin c) i) :
    defers w c i = true := by
  rcases running_cases c.op hop with ⟨j, k, hj⟩ | ⟨⟨k, hk⟩, hnone⟩ | ht | hl | ⟨cfg, hu⟩
  · rw [effects_commandTo _ hj] at h
    obtain ⟨rfl, hreq, hok, hp⟩ := defer_mem_commandEvents h
    have hr : requests true w c i = true := (requests_iff hj).mpr hreq
    unfold defers commanded
    rw [hr, err_of_commandTo hj, hok]
    simpa using hp
  · simp [effects_refused _ hk hnone] at h
  · rw [ht] at h
    simp only [effects, tickEvents] at h
    split_ifs at h <;> simp at h
  · simp [hl, effects, skLostEvents] at h
  · rw [hu] at h
    simp only [effects, updateEvents] at h
    split_ifs at h <;> simp at h

theorem not_pending_of_off (w : World) (c : Call) (h : w.s.Steady) (hop : c.op.running = true)
    {i : Channel} (hoff : requests false w c i = true) :
    (step w c).s.pendingOn.has i = false := by
  have hrel : (step w c).s.pendingOn.has i = _ := congrArg pending (step_relay w c hop h i)
  obtain ⟨k, hk, hreq⟩ := requests_eq_true hoff
  have hreq' : coilRequest i k.onReq (w.begin c).s = false := hreq
  rw [hrel, effects_commandTo _ hk]
  apply not_pending_of_cancel
  · intro dead src hd
    rw [(defer_mem_commandEvents hd).2.1] at hreq'
    cases hreq'
  · simp [commandEvents, hreq]

/-- An accepted on command calls off what its partner waits for. Where the
partner is off it does so only if it is not itself waiting. -/
theorem not_pending_of_partner (w : World) (c : Call) (h : w.s.Steady)
    (hop : c.op.running = true) (hp : Paired w.s.cfg) {i j : Channel} (hij : Partner w.s.cfg i j)
    (hon : commanded true w c j = true)
    (hwait : ¬PartnerOn w.s.cfg w.s.mask j → w.s.pendingOn.has j = false) :
    (step w c).s.pendingOn.has i = false := by
  have hrel : (step w c).s.pendingOn.has i = _ := congrArg pending (step_relay w c hop h i)
  rw [commanded, Bool.and_eq_true] at hon
  obtain ⟨k, hk, hreq⟩ := requests_eq_true hon.1
  have hok := hon.2
  rw [err_of_commandTo hk] at hok
  have hreq' : coilRequest j k.onReq (w.begin c).s = true := hreq
  have hbit : (interlockPartnerBit w.s.cfg j).has i = true := by
    rw [has_partnerBit, decide_eq_true_iff]
    exact hp.symm i j hij
  rw [hrel, effects_commandTo _ hk]
  apply not_pending_of_cancel
  · intro dead src hd
    obtain rfl := (defer_mem_commandEvents hd).1
    exact hp.irrefl i hij
  · unfold commandEvents
    dsimp only
    rw [hreq', hok]
    by_cases hpart : PartnerOn w.s.cfg w.s.mask j
    · simp [hpart, hbit]
    · simp [hpart, hbit, hwait hpart]

theorem not_pending_of_skLost (w : World) (c : Call) (h : w.s.Steady) (hop : c.op = .skLost)
    {i : Channel} (hsafe : effectiveFailsafe (w.s.cfg.relays i) = .defaultSafe) :
    (step w c).s.pendingOn.has i = false := by
  have hrun : c.op.running = true := by rw [hop]; rfl
  have hrel : (step w c).s.pendingOn.has i = _ := congrArg pending (step_relay w c hrun h i)
  rw [hrel, hop]
  apply not_pending_of_cancel
  · simp [effects, skLostEvents]
  · simp [effects, skLostEvents, not_hold hsafe]

/-- An event that calls off a deferred turn-on drops the pending-on. -/
theorem not_pending_of_cancels (w : World) (c : Call) (h : w.s.Steady) (hop : c.op.running = true)
    (hp : Paired w.s.cfg) (hheard : Heard w c) {i : Channel} (hpend : w.s.pendingOn.has i = true)
    (hc : cancels w c i = true) : (step w c).s.pendingOn.has i = false := by
  unfold cancels at hc
  rw [Bool.or_eq_true, Bool.or_eq_true, decide_eq_true_iff, Bool.and_eq_true,
    decide_eq_true_iff] at hc
  rcases hc with (hoff | ⟨j, hij, hon⟩) | ⟨hlost, hsafe⟩
  · rw [commanded, Bool.and_eq_true] at hoff
    exact not_pending_of_off w c h hop hoff.1
  · refine not_pending_of_partner w c h hop hp hij hon (fun hpart => ?_)
    rw [commanded, Bool.and_eq_true] at hon
    have hji : Partner w.s.cfg j i := hp.symm i j hij
    -- A partner that is itself waiting is the case in which nothing is cancelled.
    rw [← Bool.not_eq_true]
    intro hj
    refine hheard i j hji hon.1 ⟨hj, hpend, ?_⟩
    rw [← Bool.not_eq_true]
    exact fun hi => hpart ⟨i, hji, hi⟩
  · exact not_pending_of_skLost w c h (eq_skLost_of_isSkLost hlost) hsafe

theorem step_waits (w : World) (c : Call) (h : w.s.Steady) (hop : c.op.running = true)
    (hp : Paired w.s.cfg) (hheard : Heard w c) {i : Channel}
    (hpend : (step w c).s.pendingOn.has i = true) :
    defers w c i = true ∨ cancels w c i = false ∧ w.s.pendingOn.has i = true := by
  rcases (step_acts w c hop h).pending_of hpend with hold | ⟨dead, src, hd⟩
  · refine Or.inr ⟨?_, hold⟩
    rw [← Bool.not_eq_true]
    intro hc
    rw [not_pending_of_cancels w c h hop hp hheard hold hc] at hpend
    cases hpend
  · exact Or.inl (defers_of_mem w c hop hd)

/-- A coil that was off goes on by a command to its relay, or in a tick that
finds a pending-on for it. -/
theorem step_energises (w : World) (c : Call) (h : w.s.Steady) (hop : c.op.running = true)
    {i : Channel} (hoff : w.s.mask.has i = false) (hon : (step w c).s.mask.has i = true) :
    (c.op.commandTo i).isSome = true ∨ c.op = .tick ∧ w.s.pendingOn.has i = true := by
  have hturn : turnsOn w c i = true := by
    rw [← on_mem_effects w c h hop]
    refine ((step_acts w c hop h).coil_of hon).resolve_left ?_
    rw [begin_s, hoff]
    exact Bool.false_ne_true
  unfold turnsOn at hturn
  split_ifs at hturn with hto
  · exact Or.inl hto
  · rw [Bool.and_eq_true] at hturn
    obtain ⟨op, time, faults, saveErr⟩ := c
    cases op with
    | tick =>
      have hdue := (of_fired hturn.2).1
      rw [timedOut_due, St.due, Bool.and_eq_true] at hdue
      exact Or.inr ⟨rfl, hdue.1⟩
    | _ => cases hturn.1

/-- Neither new settings nor the fail-safe set a coil bit or a pending-on. -/
theorem quiet_step (w : World) (c : Call) (h : w.s.Steady)
    (hop : c.op = .skLost ∨ ∃ cfg, c.op = .updateConfig cfg) (i : Channel) :
    ((step w c).s.mask.has i = true → w.s.mask.has i = true) ∧
    ((step w c).s.pendingOn.has i = true → w.s.pendingOn.has i = true) := by
  have hrun : c.op.running = true := by rcases hop with hl | ⟨cfg, hu⟩ <;> simp [*, Op.running]
  have hevents : Event.on ∉ effects c.op (w.begin c) i ∧
      ∀ dead src, Event.defer dead src ∉ effects c.op (w.begin c) i := by
    rcases hop with hl | ⟨cfg, hu⟩
    · simp [hl, effects, skLostEvents]
    · rw [hu]
      simp only [effects, updateEvents]
      split_ifs <;> simp
  constructor
  · intro hc
    exact ((step_acts w c hrun h).coil_of hc).resolve_right hevents.1
  · intro hp
    refine ((step_acts w c hrun h).pending_of hp).resolve_right ?_
    rintro ⟨dead, src, hd⟩
    exact hevents.2 dead src hd

structure Commanded (w : World) (past : List Entry) : Prop where
  steady : w.s.Steady
  paired : Paired w.s.cfg
  waits : ∀ i, w.s.pendingOn.has i = true → waits i past = true

theorem step_commanded (w : World) (past : List Entry) (c : Call) (h : Commanded w past)
    (hop : c.op.running = true) (hcfg : c.op.Configures Paired) (hheard : Heard w c) :
    Commanded (step w c) ((w, c) :: past) := by
  refine ⟨step_steady w c hop h.steady, ?_, fun i hi => ?_⟩
  · rw [step_cfg w c hop]
    cases hu : c.op with
    | updateConfig cfg =>
      rw [hu] at hcfg
      exact hcfg
    | _ => exact h.paired
  · unfold RelayBoard.waits
    rcases step_waits w c h.steady hop h.paired hheard hi with hd | ⟨hc, hp⟩
    · rw [hd, Bool.true_or]
    · rw [hc, h.waits i hp]
      simp

/-- A boot, whether it succeeds or not, starts with nothing pending. -/
theorem init_commanded (chip : Chip) (stored : Option Mask) (health : HealthKey → Health)
    (c : Call) (cfg : DeviceConfig) (hop : c.op = .init cfg) (hp : Paired cfg) :
    Commanded (step (boot chip stored health) c) [] := by
  obtain ⟨hsteady, hpending, hset⟩ := boot_steady chip stored health c cfg hop
  refine ⟨hsteady, by rwa [hset], fun i hi => ?_⟩
  rw [hpending, has_zero] at hi
  cases hi

/-- In a run in which no on command finds its relay waiting together with the
partner, a coil goes on only inside a command to its own relay, or in a tick
that carries out a command which nothing has called off since. -/
theorem run_energises (chip : Chip) (stored : Option Mask) (health : HealthKey → Health)
    (c₀ : Call) (cfg : DeviceConfig) (h₀ : c₀.op = .init cfg) (hcfg : Paired cfg)
    (cs : List Call) (hcs : ∀ c ∈ cs, c.op.running = true ∧ c.op.Configures Paired)
    (hheard : ∀ e ∈ history step (step (boot chip stored health) c₀) cs, Heard e.1 e.2)
    (js : List Call) (c : Call) (ks : List Call) (hsplit : cs = js ++ c :: ks) (i : Channel) :
    let w := run step (step (boot chip stored health) c₀) js
    (w.s.mask.has i = false → (step w c).s.mask.has i = true →
      (c.op.commandTo i).isSome = true ∨
      c.op = .tick ∧ w.s.pendingOn.has i = true ∧ ∃ later e earlier,
        history step (step (boot chip stored health) c₀) js = later ++ e :: earlier ∧
        defers e.1 e.2 i = true ∧ ∀ d ∈ later, cancels d.1 d.2 i = false) ∧
    ((c.op = .skLost ∨ ∃ cfg, c.op = .updateConfig cfg) →
      ((step w c).s.mask.has i = true → w.s.mask.has i = true) ∧
      ((step w c).s.pendingOn.has i = true → w.s.pendingOn.has i = true)) := by
  intro w
  have hjs : ∀ d ∈ js, d ∈ cs := fun d hd => by simp [hsplit, hd]
  have hI : Commanded w (history step (step (boot chip stored health) c₀) js) := by
    refine run_induction step (I := Commanded)
      (P := fun v d => d.op.running = true ∧ d.op.Configures Paired ∧ Heard v d) _
      (init_commanded chip stored health c₀ cfg h₀ hcfg)
      (fun v past d hv hd => step_commanded v past d hv hd.1 hd.2.1 hd.2.2) js (fun e he => ?_)
    have hmem := hcs e.2 (hjs e.2 (input_of_history step _ js e he))
    refine ⟨hmem.1, hmem.2, hheard e ?_⟩
    rw [hsplit]
    exact mem_history_append he _
  refine ⟨fun hoff hon => ?_, fun hq => quiet_step w c hI.steady hq i⟩
  have hrun := (hcs c (by simp [hsplit])).1
  refine (step_energises w c hI.steady hrun hoff hon).imp_right (fun hp => ?_)
  exact ⟨hp.1, hp.2, (waits_iff i _).mp (hI.waits i hp.2)⟩

/-- Relays 1 and 3 wait for their partners 2 and 4, are made a pair, and relay 3
is then commanded on. -/
def overheardRun : List Call :=
  [.plain (.set 2 true .web) 10,
    .plain (.set 1 true .web) 20,
    .plain (.set 4 true .web) 30,
    .plain (.set 3 true .web) 40,
    .plain (.updateConfig (DeviceConfig.schemaDefault.pair 1 3)) 50,
    .plain (.set 3 true .web) 60]

def twoPairs : DeviceConfig := (DeviceConfig.schemaDefault.pair 1 2).pair 3 4

/-- The on command to its partner has not called off relay 1's turn-on. -/
theorem called_off_turn_on_fires :
    ¬∀ (chip : Chip) (stored : Option Mask) (health : HealthKey → Health) (c₀ : Call)
      (cfg : DeviceConfig), c₀.op = .init cfg → Paired cfg →
      ∀ cs : List Call, (∀ c ∈ cs, c.op.running = true ∧ c.op.Configures Paired) →
      ((c₀ :: cs).map Call.time).Pairwise (· ≤ ·) →
      ∀ (js : List Call) (c : Call) (ks : List Call), cs = js ++ c :: ks → ∀ i,
        (run step (step (boot chip stored health) c₀) js).s.mask.has i = false →
        (step (run step (step (boot chip stored health) c₀) js) c).s.mask.has i = true →
        (c.op.commandTo i).isSome = true ∨ c.op = .tick ∧ ∃ later e earlier,
          history step (step (boot chip stored health) c₀) js = later ++ e :: earlier ∧
          defers e.1 e.2 i = true ∧ ∀ d ∈ later, cancels d.1 d.2 i = false := by
  intro h
  have hrun := h ⟨0x00#8, 0xff#8⟩ none (fun _ => .normal) (.plain (.init twoPairs) 0) twoPairs rfl
    (by decide +kernel) (overheardRun ++ [.plain .tick 200]) (by decide +kernel)
    (by decide +kernel) overheardRun (.plain .tick 200) [] rfl 0 (by decide +kernel)
    (by decide +kernel)
  rcases hrun with hto | ⟨-, hwaits⟩
  · exact absurd hto (by decide +kernel)
  · exact absurd ((waits_iff 0 _).mpr hwaits) (by decide +kernel)

/-- A deferred turn-on of relay 1 is carried out. -/
theorem deferred_turn_on_stands :
    ∃ later e earlier, history step (step coldBoot (.plain (.init twoPairs) 0))
      (overheardRun.take 2) = later ++ e :: earlier ∧
      defers e.1 e.2 0 = true ∧ ∀ d ∈ later, cancels d.1 d.2 0 = false := by
  have hrun := (run_energises ⟨0x00#8, 0xff#8⟩ none (fun _ => .normal) (.plain (.init twoPairs) 0)
    twoPairs rfl (by decide +kernel) (overheardRun.take 2 ++ [.plain .tick 200])
    (by decide +kernel) (by decide +kernel) (overheardRun.take 2) (.plain .tick 200) [] rfl 0).1
    (by decide +kernel) (by decide +kernel)
  rcases hrun with hto | ⟨-, -, hwaits⟩
  · exact absurd hto (by decide +kernel)
  · exact hwaits

end RelayBoard
