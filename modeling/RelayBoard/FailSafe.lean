import RelayBoard.ChipState
import RelayBoard.Commands
import RelayBoard.SkBridge

/-!
# Relay control and the SignalK-loss timer together

`sk_bridge_tick` calls `relay_ctrl_sk_lost` once in an outage. What listeners
of the run can tell of an outage is kept by `outage`: when it began, which
relays were asked on since, and whether the grace period was seen to be over
and a relay tick without a fault came after that.
-/

set_option autoImplicit false

namespace RelayBoard
open BitVec Lib.Runs Lib.Clock

structure Board where
  relays : World
  bridge : SkBridge

inductive BoardOp where
  | relays (op : Op)
  | streamChanged (connected : Bool)
  | bridgeTick
  | bridgeConfig (cfg : DeviceConfig)

structure BoardCall where
  op : BoardOp
  time : ℕ
  faults : List Access
  saveErr : Option EspErr

def BoardCall.relayCall (c : BoardCall) (op : Op) : Call := ⟨op, c.time, c.faults, c.saveErr⟩

def boardStep (b : Board) (c : BoardCall) : Board :=
  match c.op with
  | .relays op => { b with relays := step b.relays (c.relayCall op) }
  | .streamChanged connected =>
    { b with bridge := skBridgeStreamChanged connected (reading 32 c.time) b.bridge }
  | .bridgeTick =>
    let r := skBridgeTick (reading 32 c.time) b.bridge
    ⟨if r.1 then step b.relays (c.relayCall .skLost) else b.relays, r.2⟩
  | .bridgeConfig cfg => { b with bridge := skBridgeUpdateConfig cfg b.bridge }

abbrev BoardEntry := Board × BoardCall

def BoardOp.running : BoardOp → Bool
  | .relays op => op.running
  | _ => true

def BoardOp.connects : BoardOp → Bool
  | .streamChanged connected => connected
  | _ => false

structure Outage where
  since : ℕ
  asked : Channel → Bool
  graceOver : Bool
  settled : Bool

def asksOn (e : BoardEntry) (i : Channel) : Bool :=
  match e.2.op with
  | .relays op => requests true e.1.relays (e.2.relayCall op) i
  | _ => false

def relaysTickedWell (c : BoardCall) : Bool :=
  match c.op with
  | .relays op => op.isTick && decide (∀ a ∈ c.faults, a = .done)
  | _ => false

/-- The outage as it goes on through a call that neither begins nor ends one. -/
def Outage.next (o : Outage) (e : BoardEntry) : Outage :=
  match e.2.op with
  | .relays _ =>
    { o with
      asked := fun i => o.asked i || asksOn e i
      settled := o.settled || o.graceOver && relaysTickedWell e.2 }
  | .bridgeTick =>
    { o with graceOver :=
        o.graceOver || decide (e.1.bridge.cfg.skLossGraceS.toNat * 1000 ≤ e.2.time - o.since) }
  | _ => o

/-- The outage a run is in, given whether the stream was connected before it:
the first disconnect after a connect begins one, the next connect ends it. -/
def outage (once : Bool) : List BoardEntry → Option Outage
  | [] => none
  | e :: past =>
    match e.2.op with
    | .streamChanged true => none
    | .streamChanged false =>
      match outage once past with
      | some o => some o
      | none =>
        if once || past.any (fun e => e.2.op.connects) then
          some ⟨e.2.time, fun _ => false, false, false⟩
        else none
    | _ => (outage once past).map fun o => o.next e

def DefaultSafe (cfg : DeviceConfig) (i : Channel) : Prop :=
  effectiveFailsafe (cfg.relays i) = .defaultSafe

instance (cfg : DeviceConfig) (i : Channel) : Decidable (DefaultSafe cfg i) :=
  inferInstanceAs (Decidable (_ = _))

/-- Once the grace period was seen to be over and a relay tick without a fault
came after that, every default-safe relay that was not asked on is off. -/
def FailSafe (once : Bool) (b : Board) (past : List BoardEntry) : Prop :=
  ∀ o, outage once past = some o → treePublished b.bridge.cfg = true → o.settled = true →
    ∀ i, DefaultSafe b.relays.s.cfg i → o.asked i = false → b.relays.s.mask.has i = false

/-- What a call has to meet so as not to lose the fail-safe: a bridge tick
sees the grace period over when it is, and the write of the one that fires goes
through; and a save after that makes no relay default-safe that is on or
waiting and was not asked on since the loss. -/
def Keeps (once : Bool) (b : Board) (past : List BoardEntry) (c : BoardCall) : Prop :=
  match c.op with
  | .bridgeTick =>
    (skLossDue (reading 32 c.time) b.bridge = true →
      b.relays.s.mask &&& holdMask b.relays.s.cfg = b.relays.s.mask ∨
        commitResult c.faults = .ok ()) ∧
    ∀ o, outage once past = some o → b.bridge.lostFired = false →
      b.bridge.cfg.skLossGraceS.toNat * 1000 ≤ c.time - o.since →
      b.bridge.cfg.skLossGraceS.toNat * 1000 ≤ (c.time - o.since) % 2 ^ 32
  | .relays (.updateConfig cfg) =>
    ∀ o, outage once past = some o → b.bridge.lostFired = true →
      ∀ i, DefaultSafe cfg i → o.asked i = false → DefaultSafe b.relays.s.cfg i ∨
        b.relays.s.mask.has i = false ∧ b.relays.s.pendingOn.has i = false
  | _ => True

theorem skLost_off (w : World) (h : w.s.mask &&& holdMask w.s.cfg = w.s.mask ∨
    commitResult w.env.faults = .ok ()) :
    (relayCtrlSkLost w).1.s.mask = w.s.mask &&& holdMask w.s.cfg ∧
      (relayCtrlSkLost w).1.s.pendingOn = w.s.pendingOn &&& holdMask w.s.cfg := by
  have hok := (commitLocked_isOk (w.s.mask &&& holdMask w.s.cfg) w).mpr h
  unfold relayCtrlSkLost
  simp only [BitVec.not_not]
  obtain ⟨env, -, ⟨fault, hc⟩ | ⟨e, -, hc⟩⟩ :=
    commitLocked_spec (w.s.mask &&& holdMask w.s.cfg) w
  · simp [hc]
  · rw [hc] at hok
    cases hok

/-- A relay that is off with nothing pending stays so unless it is asked on. -/
theorem step_unasked (w : World) (c : Call) (h : w.s.Steady) (hop : c.op.running = true)
    {i : Channel} (hreq : requests true w c i = false) (hoff : w.s.mask.has i = false)
    (hpend : w.s.pendingOn.has i = false) :
    (step w c).s.mask.has i = false ∧ (step w c).s.pendingOn.has i = false := by
  constructor
  · rw [← Bool.not_eq_true]
    intro hon
    rcases step_energises w c h hop hoff hon with hto | ⟨-, hp⟩
    · obtain ⟨k, hk⟩ := Option.isSome_iff_exists.mp hto
      have hoffReq : coilRequest i k.onReq w.s = false := by
        rw [← Bool.not_eq_true]
        intro hr
        rw [(requests_iff hk).mpr hr] at hreq
        cases hreq
      rcases (step_acts w c hop h).coil_of hon with hold | hev
      · rw [begin_s, hoff] at hold
        cases hold
      · rw [effects_commandTo _ hk] at hev
        simp [commandEvents, hoffReq] at hev
    · rw [hpend] at hp
      cases hp
  · rw [← Bool.not_eq_true]
    intro hp
    rcases (step_acts w c hop h).pending_of hp with hold | ⟨dead, src, hd⟩
    · rw [begin_s, hpend] at hold
      cases hold
    · have hdefers := defers_of_mem w c hop hd
      simp [defers, commanded, hreq] at hdefers

/-- What the bridge and the relays are in, given the outage of the run. -/
structure Watch (once : Bool) (b : Board) (past : List BoardEntry) : Prop where
  steady : b.relays.s.Steady
  connected : b.bridge.connectedOnce = (once || past.any fun e => e.2.op.connects)
  down : b.bridge.down = (outage once past).isSome
  since : ∀ o, outage once past = some o →
    b.bridge.downSince = reading 32 o.since ∧ ∃ e ∈ past, e.2.time = o.since
  fired : ∀ o, outage once past = some o → treePublished b.bridge.cfg = true →
    o.graceOver = true → b.bridge.lostFired = true
  settled : ∀ o, outage once past = some o → o.settled = true → o.graceOver = true
  safe : ∀ o, outage once past = some o → b.bridge.lostFired = true →
    ∀ i, DefaultSafe b.relays.s.cfg i → o.asked i = false →
      b.relays.s.mask.has i = false ∧ b.relays.s.pendingOn.has i = false

theorem failSafe_of_watch {once : Bool} {b : Board} {past : List BoardEntry}
    (h : Watch once b past) : FailSafe once b past := by
  intro o ho htree hsettled i hi hasked
  exact (h.safe o ho (h.fired o ho htree (h.settled o ho hsettled)) i hi hasked).1

def BoardOp.within : BoardOp → Bool
  | .streamChanged _ => false
  | _ => true

theorem outage_within (once : Bool) (b : Board) (past : List BoardEntry) {c : BoardCall}
    (hc : c.op.within = true) :
    outage once ((b, c) :: past) = (outage once past).map fun o => o.next (b, c) := by
  rw [outage]
  cases hop : c.op with
  | streamChanged connected => rw [hop] at hc; cases hc
  | _ => rfl

theorem outage_disconnected (once : Bool) (b : Board) (past : List BoardEntry) {c : BoardCall}
    (hc : c.op = .streamChanged false) :
    outage once ((b, c) :: past) = match outage once past with
      | some o => some o
      | none => if once || past.any (fun e => e.2.op.connects) then
          some ⟨c.time, fun _ => false, false, false⟩ else none := by
  rw [outage, hc]

theorem not_connects_of_within {op : BoardOp} (h : op.within = true) : op.connects = false := by
  cases op with
  | streamChanged connected => cases h
  | _ => rfl

theorem any_connects (b : Board) (past : List BoardEntry) {c : BoardCall}
    (hc : c.op.connects = false) :
    ((b, c) :: past).any (fun e => e.2.op.connects) = past.any fun e => e.2.op.connects := by
  rw [List.any_cons, hc, Bool.false_or]

section Step

variable {once : Bool} {b : Board} {past : List BoardEntry} (h : Watch once b past)
include h

theorem watch_relays (c : BoardCall) (op : Op) (hc : c.op = .relays op)
    (hop : op.running = true) (hkeep : Keeps once b past c) :
    Watch once (boardStep b c) ((b, c) :: past) := by
  have hwithin : c.op.within = true := by rw [hc]; rfl
  have hstep : boardStep b c = { b with relays := step b.relays (c.relayCall op) } := by
    rw [boardStep, hc]
  have hnext : ∀ o : Outage, o.next (b, c) = { o with
      asked := fun i => o.asked i || requests true b.relays (c.relayCall op) i
      settled := o.settled || o.graceOver && relaysTickedWell c } := by
    intro o
    simp only [Outage.next, asksOn, hc]
  have hout := outage_within once b past hwithin
  rw [hstep]
  refine ⟨step_steady _ _ hop h.steady, ?_, ?_, ?_, ?_, ?_, ?_⟩
  · rw [any_connects b past (not_connects_of_within hwithin)]
    exact h.connected
  · rw [hout, Option.isSome_map]
    exact h.down
  all_goals
    intro o ho
    rw [hout, Option.map_eq_some_iff] at ho
    obtain ⟨o, ho, rfl⟩ := ho
    rw [hnext]
    dsimp only
  · obtain ⟨hsince, e, he, htime⟩ := h.since o ho
    exact ⟨hsince, e, List.mem_cons_of_mem _ he, htime⟩
  · exact h.fired o ho
  · intro hs
    rw [Bool.or_eq_true, Bool.and_eq_true] at hs
    exact hs.elim (h.settled o ho) And.left
  · intro hf i hi hasked
    rw [Bool.or_eq_false_iff] at hasked
    have hcfg := step_cfg b.relays (c.relayCall op) hop
    rw [hcfg] at hi
    have hquiet : b.relays.s.mask.has i = false ∧ b.relays.s.pendingOn.has i = false := by
      cases op with
      | init cfg => cases hop
      | updateConfig cfg =>
        unfold Keeps at hkeep
        rw [hc] at hkeep
        rcases hkeep o ho hf i hi hasked.1 with hold | hquiet
        · exact h.safe o ho hf i hold hasked.1
        · exact hquiet
      | _ => exact h.safe o ho hf i hi hasked.1
    exact step_unasked _ _ h.steady hop hasked.2 hquiet.1 hquiet.2

theorem watch_connected (c : BoardCall) (hc : c.op = .streamChanged true) :
    Watch once (boardStep b c) ((b, c) :: past) := by
  have hstep : boardStep b c =
      { b with bridge := { b.bridge with connectedOnce := true, down := false } } := by
    rw [boardStep, hc]
    rfl
  have hnone : outage once ((b, c) :: past) = none := by
    rw [outage, hc]
  rw [hstep]
  refine ⟨h.steady, ?_, ?_, ?_, ?_, ?_, ?_⟩
  · simp [List.any_cons, hc, BoardOp.connects]
  · rw [hnone]
    rfl
  all_goals
    intro o ho
    rw [hnone] at ho
    cases ho

theorem watch_unmoved (c : BoardCall) (hout : outage once ((b, c) :: past) = outage once past)
    (hc : c.op.connects = false) : Watch once b ((b, c) :: past) := by
  refine ⟨h.steady, ?_, ?_, ?_, ?_, ?_, ?_⟩
  · rw [any_connects b past hc]
    exact h.connected
  · rw [hout]
    exact h.down
  all_goals rw [hout]
  · intro o ho
    obtain ⟨hsince, e, he, htime⟩ := h.since o ho
    exact ⟨hsince, e, List.mem_cons_of_mem _ he, htime⟩
  · exact h.fired
  · exact h.settled
  · exact h.safe

/-- The first disconnect after a connect begins an outage in which nothing has
been seen yet. -/
theorem watch_begun (c : BoardCall) (hc : c.op = .streamChanged false)
    (hout : outage once ((b, c) :: past) = some ⟨c.time, fun _ => false, false, false⟩) :
    Watch once { b with bridge := { b.bridge with
      down := true, lostFired := false, downSince := reading 32 c.time } } ((b, c) :: past) := by
  refine ⟨h.steady, ?_, ?_, ?_, ?_, ?_, ?_⟩
  · rw [any_connects b past (by rw [hc]; rfl)]
    exact h.connected
  · rw [hout]
    rfl
  all_goals
    intro o ho
    rw [hout, Option.some.injEq] at ho
    subst ho
  · exact ⟨rfl, (b, c), List.mem_cons_self .., rfl⟩
  · intro _ hgrace
    cases hgrace
  · intro hsettled
    cases hsettled
  · intro hfired
    cases hfired

theorem watch_disconnected (c : BoardCall) (hc : c.op = .streamChanged false) :
    Watch once (boardStep b c) ((b, c) :: past) := by
  have hstep : boardStep b c = { b with bridge :=
      if b.bridge.connectedOnce && !b.bridge.down then
        { b.bridge with down := true, lostFired := false, downSince := reading 32 c.time }
      else b.bridge } := by
    rw [boardStep, hc]
    rfl
  have hconnects : c.op.connects = false := by rw [hc]; rfl
  have hout := outage_disconnected once b past hc
  have hdown := h.down
  have hconnected := h.connected
  rw [hstep]
  rcases hpast : outage once past with _ | o <;> rw [hpast] at hout hdown
  · cases hconn : once || past.any fun e => e.2.op.connects <;> rw [hconn] at hout hconnected
    · rw [hconnected]
      exact watch_unmoved h c (hout.trans hpast.symm) hconnects
    · rw [hconnected, hdown]
      exact watch_begun h c hc hout
  · rw [hdown, Option.isSome_some, Bool.not_true, Bool.and_false]
    exact watch_unmoved h c (hout.trans hpast.symm) hconnects

/-- Once the grace period was seen to be over, the fail-safe has fired. -/
theorem tick_fired (c : BoardCall) (htime : ∀ e ∈ past, e.2.time ≤ c.time) {o : Outage}
    (ho : outage once past = some o) (htree : treePublished b.bridge.cfg = true)
    (hclock : b.bridge.lostFired = false →
      b.bridge.cfg.skLossGraceS.toNat * 1000 ≤ c.time - o.since →
      b.bridge.cfg.skLossGraceS.toNat * 1000 ≤ (c.time - o.since) % 2 ^ 32)
    (hover : o.graceOver = true ∨ b.bridge.cfg.skLossGraceS.toNat * 1000 ≤ c.time - o.since) :
    (skBridgeTick (reading 32 c.time) b.bridge).2.lostFired = true := by
  refine skBridgeTick_fired _ _ (by rw [h.down, ho]; rfl) htree (fun hnot => ?_)
  obtain ⟨hsince, e, he, ht⟩ := h.since o ho
  have hle : o.since ≤ c.time := by
    rw [← ht]
    exact htime e he
  rcases hover with hover | hover
  · rw [h.fired o ho htree hover] at hnot
    cases hnot
  · rw [BitVec.le_def, graceMs_toNat, hsince, reading_sub_toNat 32 _ _ hle]
    exact hclock hnot hover

/-- A tick of the bridge after which the fail-safe has fired leaves every
default-safe relay off that was not asked on. -/
theorem tick_safe (c : BoardCall) (hc : c.op = .bridgeTick)
    (hwrite : skLossDue (reading 32 c.time) b.bridge = true →
      b.relays.s.mask &&& holdMask b.relays.s.cfg = b.relays.s.mask ∨
        commitResult c.faults = .ok ()) {o : Outage} (ho : outage once past = some o)
    (hfired : (boardStep b c).bridge.lostFired = true) {i : Channel}
    (hi : DefaultSafe (boardStep b c).relays.s.cfg i) (hasked : o.asked i = false) :
    (boardStep b c).relays.s.mask.has i = false ∧
      (boardStep b c).relays.s.pendingOn.has i = false := by
  unfold boardStep at hfired hi ⊢
  rw [hc] at hfired hi ⊢
  dsimp only [skBridgeTick] at hfired hi ⊢
  cases hdue : skLossDue (reading 32 c.time) b.bridge <;> rw [hdue] at hfired hi
  · exact h.safe o ho hfired i hi hasked
  · have hsafe : DefaultSafe b.relays.s.cfg i := by
      rw [if_pos rfl, step_cfg _ _ rfl] at hi
      exact hi
    obtain ⟨hmask, hpending⟩ := skLost_off (b.relays.begin (c.relayCall .skLost)) (hwrite hdue)
    have hmask' : (step b.relays (c.relayCall .skLost)).s.mask = _ := hmask
    have hpending' : (step b.relays (c.relayCall .skLost)).s.pendingOn = _ := hpending
    rw [if_pos rfl, hmask', hpending', has_and, has_and, begin_s, not_hold hsafe,
      Bool.and_false, Bool.and_false]
    exact ⟨rfl, rfl⟩

theorem watch_tick (c : BoardCall) (hc : c.op = .bridgeTick) (hkeep : Keeps once b past c)
    (htime : ∀ e ∈ past, e.2.time ≤ c.time) : Watch once (boardStep b c) ((b, c) :: past) := by
  have hwithin : c.op.within = true := by rw [hc]; rfl
  have hbridge : (boardStep b c).bridge = (skBridgeTick (reading 32 c.time) b.bridge).2 := by
    rw [boardStep, hc]
  have hnext : ∀ o : Outage, o.next (b, c) = { o with
      graceOver := o.graceOver ||
        decide (b.bridge.cfg.skLossGraceS.toNat * 1000 ≤ c.time - o.since) } := by
    intro o
    simp only [Outage.next, hc]
  have hout := outage_within once b past hwithin
  obtain ⟨hcfg, hdown, hsince', honce⟩ := skBridgeTick_keeps (reading 32 c.time) b.bridge
  unfold Keeps at hkeep
  rw [hc] at hkeep
  refine ⟨?_, ?_, ?_, ?_, ?_, ?_, ?_⟩
  · rw [boardStep, hc]
    dsimp only
    split_ifs
    · exact step_steady _ _ rfl h.steady
    · exact h.steady
  · rw [any_connects b past (not_connects_of_within hwithin), hbridge]
    exact honce.trans h.connected
  · rw [hout, Option.isSome_map, hbridge]
    exact hdown.trans h.down
  all_goals
    intro o ho
    rw [hout, Option.map_eq_some_iff] at ho
    obtain ⟨o, ho, rfl⟩ := ho
    rw [hnext]
    dsimp only
  · obtain ⟨hsince, e, he, ht⟩ := h.since o ho
    rw [hbridge]
    exact ⟨hsince'.trans hsince, e, List.mem_cons_of_mem _ he, ht⟩
  · rw [hbridge, hcfg]
    intro htree hgrace
    rw [Bool.or_eq_true, decide_eq_true_iff] at hgrace
    exact tick_fired h c htime ho htree (hkeep.2 o ho) hgrace
  · intro hsettled
    rw [h.settled o ho hsettled, Bool.true_or]
  · exact fun hfired i hi hasked => tick_safe h c hc hkeep.1 ho hfired hi hasked

theorem watch_config (c : BoardCall) (cfg : DeviceConfig) (hc : c.op = .bridgeConfig cfg) :
    Watch once (boardStep b c) ((b, c) :: past) := by
  have hwithin : c.op.within = true := by rw [hc]; rfl
  have hstep : boardStep b c = { b with bridge := skBridgeUpdateConfig cfg b.bridge } := by
    rw [boardStep, hc]
  have hout : outage once ((b, c) :: past) = outage once past := by
    rw [outage_within once b past hwithin]
    simp [Outage.next, hc]
  have hw := watch_unmoved h c hout (not_connects_of_within hwithin)
  rw [hstep]
  -- The new grace period is no part of what the invariant is about.
  exact ⟨hw.steady, hw.connected, hw.down, hw.since, hw.fired, hw.settled, hw.safe⟩

end Step

theorem step_watch {once : Bool} {b : Board} {past : List BoardEntry} {c : BoardCall}
    (h : Watch once b past) (hop : c.op.running = true) (hkeep : Keeps once b past c)
    (htime : ∀ e ∈ past, e.2.time ≤ c.time) : Watch once (boardStep b c) ((b, c) :: past) := by
  cases hc : c.op with
  | relays op =>
    rw [hc] at hop
    exact watch_relays h c op hc hop hkeep
  | streamChanged connected =>
    cases connected with
    | true => exact watch_connected h c hc
    | false => exact watch_disconnected h c hc
  | bridgeTick => exact watch_tick h c hc hkeep htime
  | bridgeConfig cfg => exact watch_config h c cfg hc

/-- The board after `relay_ctrl_init`, whatever that returned, and
`sk_bridge_start`; the stream may have been connected before. -/
def boardStart (chip : Chip) (stored : Option Mask) (health : HealthKey → Health) (c₀ : Call)
    (once : Bool) (cfg : DeviceConfig) : Board :=
  ⟨step (boot chip stored health) c₀,
    skBridgeStart cfg { SkBridge.zero with connectedOnce := once }⟩

theorem boardStep_agrees (b : Board) (c : BoardCall) (hop : c.op.running = true)
    (hlost : lostOnly c.faults = true) (h : b.relays.Agrees) : (boardStep b c).relays.Agrees := by
  unfold boardStep
  cases hc : c.op with
  | relays op =>
    rw [hc] at hop
    exact step_agrees b.relays (c.relayCall op) hop (lostOnly_noStray _ hlost) h
  | streamChanged connected => exact h
  | bridgeTick =>
    dsimp only
    split_ifs
    · exact step_agrees b.relays (c.relayCall .skLost) rfl (lostOnly_noStray _ hlost) h
    · exact h
  | bridgeConfig cfg => exact h

theorem run_board_agrees (chip : Chip) (stored : Option Mask) (health : HealthKey → Health)
    (c₀ : Call) (cfg₀ : DeviceConfig) (h₀ : c₀.op = .init cfg₀) (once : Bool) (cfg : DeviceConfig)
    (hok : (result (boot chip stored health) c₀).err = .ok ()) (cs : List BoardCall)
    (hcs : ∀ c ∈ cs, c.op.running = true ∧ lostOnly c.faults = true) :
    (run boardStep (boardStart chip stored health c₀ once cfg) cs).relays.Agrees := by
  have hstart : (boardStart chip stored health c₀ once cfg).relays.Agrees :=
    Starts.agrees ⟨h₀, hok⟩
  exact run_invariant boardStep (I := fun b => b.relays.Agrees)
    (P := fun _ c => c.op.running = true ∧ lostOnly c.faults = true) _ hstart
    (fun b c hb hc => boardStep_agrees b c hc.1 hc.2 hb) cs
    (fun e he => hcs e.2 (input_of_history boardStep _ cs e he))

/-- In every run whose calls keep the fail-safe, an outage that has lasted for
the grace period finds every default-safe relay off that was not asked on
since. After a boot that went through, and while failing writes are without
effect, the expander drives just these coils. -/
theorem run_fail_safe (chip : Chip) (stored : Option Mask) (health : HealthKey → Health)
    (c₀ : Call) (cfg₀ : DeviceConfig) (h₀ : c₀.op = .init cfg₀) (once : Bool) (cfg : DeviceConfig)
    (cs : List BoardCall) (hcs : ∀ c ∈ cs, c.op.running = true)
    (htimes : (cs.map BoardCall.time).Pairwise (· ≤ ·))
    (hkeep : ∀ e past, e :: past <:+
      history boardStep (boardStart chip stored health c₀ once cfg) cs → Keeps once e.1 past e.2) :
    FailSafe once (run boardStep (boardStart chip stored health c₀ once cfg) cs)
      (history boardStep (boardStart chip stored health c₀ once cfg) cs) ∧
    ((result (boot chip stored health) c₀).err = .ok () → (∀ c ∈ cs, lostOnly c.faults = true) →
      (run boardStep (boardStart chip stored health c₀ once cfg) cs).relays.Agrees) := by
  have hstart : Watch once (boardStart chip stored health c₀ once cfg) [] := by
    refine ⟨(boot_steady chip stored health c₀ cfg₀ h₀).1, (Bool.or_false once).symm, rfl, ?_, ?_,
      ?_, ?_⟩
    all_goals
      intro o ho
      cases ho
  have hwatch := run_induction_past boardStep (I := Watch once)
    (P := fun b past c => c.op.running = true ∧ Keeps once b past c ∧
      ∀ e ∈ past, e.2.time ≤ c.time) _ hstart
    (fun b past c hb hc => step_watch hb hc.1 hc.2.1 hc.2.2) cs (fun e past he =>
      ⟨hcs e.2 (input_of_history boardStep _ cs e (he.subset (List.mem_cons_self ..))),
        hkeep e past he, past_le htimes he⟩)
  exact ⟨failSafe_of_watch hwatch, fun hok hlost =>
    run_board_agrees chip stored health c₀ cfg₀ h₀ once cfg hok cs
      (fun c hc => ⟨hcs c hc, hlost c hc⟩)⟩

instance (once : Bool) (b : Board) (past : List BoardEntry) : Decidable (FailSafe once b past) :=
  inferInstanceAs (Decidable (∀ o ∈ outage once past, _ → _ → ∀ _, _ → _ → _))

instance (once : Bool) (b : Board) (past : List BoardEntry) (c : BoardCall) :
    Decidable (Keeps once b past c) :=
  match c with
  | ⟨.bridgeTick, _, _, _⟩ =>
    inferInstanceAs (Decidable ((_ → _ ∨ _) ∧ ∀ o ∈ outage once past, _ → _ → _))
  | ⟨.relays (.updateConfig _), _, _, _⟩ =>
    inferInstanceAs (Decidable (∀ o ∈ outage once past, _ → ∀ _, _ → _ → _ ∨ _))
  | ⟨.relays (.init _), _, _, _⟩ => inferInstanceAs (Decidable True)
  | ⟨.relays (.set _ _ _), _, _, _⟩ => inferInstanceAs (Decidable True)
  | ⟨.relays (.toggle _ _), _, _, _⟩ => inferInstanceAs (Decidable True)
  | ⟨.relays .tick, _, _, _⟩ => inferInstanceAs (Decidable True)
  | ⟨.relays .skLost, _, _, _⟩ => inferInstanceAs (Decidable True)
  | ⟨.streamChanged _, _, _, _⟩ => inferInstanceAs (Decidable True)
  | ⟨.bridgeConfig _, _, _, _⟩ => inferInstanceAs (Decidable True)

def coldBoard : Board :=
  boardStart ⟨0x00#8, 0xff#8⟩ none (fun _ => .normal) (.plain (.init .schemaDefault) 0) false
    .schemaDefault

/-- A write that fails as the grace period ends delays the fail-safe at most. -/
def FailSafeDelayed : Prop :=
  ∀ cs : List BoardCall, (∀ c ∈ cs, c.op.running = true) →
    (cs.map BoardCall.time).Pairwise (· ≤ ·) →
    FailSafe false (run boardStep coldBoard cs) (history boardStep coldBoard cs)

/-- Relay 1 goes on, the connection is lost, and the accesses of the fail-safe
go as given; every later one succeeds. -/
def outageRun (faults : List Access) : List BoardCall :=
  [⟨.relays (.set 1 true .sk), 10, [], none⟩, ⟨.streamChanged true, 20, [], none⟩,
    ⟨.streamChanged false, 1000, [], none⟩, ⟨.bridgeTick, 31000, faults, none⟩,
    ⟨.relays .tick, 31010, [], none⟩, ⟨.bridgeTick, 31020, [], none⟩,
    ⟨.relays .tick, 31030, [], none⟩]

/-- With both attempts of its write lost, the fail-safe is cancelled. -/
theorem lost_write_cancels_fail_safe : ¬FailSafeDelayed := by
  intro h
  have hsafe := h (outageRun [.lost .timeout, .lost .timeout]) (by decide +kernel)
    (by decide +kernel)
  exact absurd hsafe (by decide +kernel)

/-- With its write going through, relay 1 is off. -/
theorem fail_safe_kept :
    FailSafe false (run boardStep coldBoard (outageRun []))
      (history boardStep coldBoard (outageRun [])) :=
  (run_fail_safe ⟨0x00#8, 0xff#8⟩ none (fun _ => .normal) (.plain (.init .schemaDefault) 0)
    .schemaDefault rfl false .schemaDefault (outageRun []) (by decide +kernel) (by decide +kernel)
    (forall_past_of_tails (by decide +kernel))).1

end RelayBoard
