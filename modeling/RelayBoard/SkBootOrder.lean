import RelayBoard.SkLoss

/-!
# The boot order of the SignalK bridge

The functions that the bridge is given are pointers in static storage, unset
until `sk_bridge_start` copies them in. The lists below are what each call
invokes, in the order of the source.
-/

set_option autoImplicit false

namespace RelayBoard
open BitVec Lib.Loops Lib.Runs

/-- A function of `sk_bridge_io_t` or `sk_api_t` that is invoked. -/
inductive SkPointer where
  | relayMask
  | inputsReady
  | inputMask
  | nowMs
  | relayCounters
  | inputCounters
  | skLost
  | api (p : Publish)

def SkPointer.ofPublish (p : Publish) : List SkPointer :=
  match p with
  | .value path _ =>
    if path.leaf = .cycles then
      [if path.input then .inputCounters else .relayCounters, .api p]
    else [.api p]
  | _ => [.api p]

def invokeAll (ps : List Publish) : List SkPointer := ps.flatMap SkPointer.ofPublish

namespace SkPublisher

variable (cfg : BoardConfig) (io : SkIo) (s : SkPublisher)

/-- `publish_states_locked` and `publish_all_locked` with what they publish. -/
def lockedCalls (published : List Publish) : List SkPointer :=
  [.relayMask, .inputsReady, .inputMask] ++ invokeAll published ++ [.nowMs]

def startCalls (putErr : SkPath → Option EspErr) : List SkPointer :=
  let s := s.takeConfig cfg
  invokeAll s.declareAll ++ lockedCalls (s.publishAllLocked io).2 ++
    invokeAll (registerPuts putErr s.putPaths).1

/-- One pass of the loop in `sk_bridge_update_config`; its last conditions are
evaluated from left to right. -/
def updateChannelCalls (i : Channel) : List SkPointer :=
  let named := s.withNames cfg i
  let renamed := named.onTrees fun t =>
    (if s.bank.relayNames i != cfg.bank.relayNames i then named.declareNames t false i else []) ++
      if (s.bank.inputs i).name != (cfg.bank.inputs i).name && named.inputsOn then
        named.declareNames t true i else []
  let next := named.withAlarm cfg i
  let newConfigured := next.alarmConfigured i
  invokeAll renamed ++
    if named.alarmSettingChanged cfg i && (named.alarmConfigured i || newConfigured) &&
        next.started && next.inputsOn then
      .inputsReady :: if io.inputsReady then
        .inputMask :: if io.inputMask.has i then
          invokeAll (next.onTrees fun t => next.publishNotification t i newConfigured) else []
      else []
    else []

def updatePassCalls (i : Channel) (r : SkPublisher × List SkPointer) :
    SkPublisher × List SkPointer :=
  ((r.1.updateChannel cfg io i).1, r.2 ++ r.1.updateChannelCalls cfg io i)

def updateConfigCalls : List SkPointer :=
  let calls := (forEach (updatePassCalls cfg io) (s, [])).2
  let next := (s.skBridgeUpdateConfig cfg io).1
  if s.bank.skRepublishS != cfg.bank.skRepublishS && next.started then
    calls ++ invokeAll next.declareAll
  else calls

def relayChangedCalls (channel : ℕ) : List SkPointer :=
  if channel < 1 ∨ 8 < channel then []
  else if s.started then .relayMask :: invokeAll (s.skBridgeRelayChanged channel io) else []

def streamChangedCalls (connected : Bool) : List SkPointer :=
  if connected then
    if s.started then lockedCalls (s.skBridgeStreamChanged true io).2 else []
  else if s.connectedOnce && !s.down then [.nowMs] else []

/-- The clock is read only where the conditions before it hold. -/
def tickCalls : List SkPointer :=
  let (fire, timer) := RelayBoard.skBridgeTick io.now s.toSkBridge
  let next := s.withTimer timer
  (if s.down && !s.lostFired && treePublished s.cfg then [.nowMs] else []) ++
    (if next.started && next.connectedOnce && !next.down && next.everyMs != 0#32 then
      .nowMs :: if next.republishDue io.now then lockedCalls (next.publishStatesLocked io).2 else []
    else []) ++ if fire then [.skLost] else []

end SkPublisher

def SkOp.calls (op : SkOp) (io : SkIo) (s : SkPublisher) : List SkPointer :=
  match op with
  | .start cfg putErr => s.startCalls cfg io putErr
  | .updateConfig cfg => s.updateConfigCalls cfg io
  | .relayChanged channel => s.relayChangedCalls io channel
  | .inputChanged i on => invokeAll (s.skBridgeInputChanged i on)
  | .streamChanged connected => s.streamChangedCalls io connected
  | .tick => s.tickCalls io

/-- The static struct with its lock and with what `s.api` and `s.io` hold: the
given functions or nothing. -/
structure BootBridge where
  lock : Bool
  given : Bool
  bridge : SkPublisher

def BootBridge.zero : BootBridge := ⟨false, false, .zero⟩

/-- A call of the bridge. `created` is what `xSemaphoreCreateMutex` answers
where the call comes to it. -/
inductive BootCall where
  | init (created : Bool)
  | start (created : Bool) (cfg : BoardConfig) (putErr : SkPath → Option EspErr)
  | updateConfig (cfg : BoardConfig)
  | relayChanged (channel : ℕ)
  | inputChanged (i : Channel) (on : Bool)
  | streamChanged (connected : Bool)
  | tick

/-- A call that does nothing without the lock. It has no result where it
invokes a function that has not been given. -/
def BootBridge.guarded (b : BootBridge) (op : SkOp) (io : SkIo) : Option BootBridge :=
  if !b.lock then some b
  else if b.given || (op.calls io b.bridge).isEmpty then
    some { b with bridge := (op.perform io b.bridge).state }
  else none

def BootBridge.step (b : BootBridge) (c : BootCall) (io : SkIo) : Option BootBridge :=
  match c with
  | .init created => some { b with lock := b.lock || created }
  | .start created cfg putErr =>
    if b.lock || created then
      -- the functions are copied before the first of them is invoked
      BootBridge.guarded { b with lock := true, given := true } (.start cfg putErr) io
    else some b
  | .updateConfig cfg => b.guarded (.updateConfig cfg) io
  | .relayChanged channel => b.guarded (.relayChanged channel) io
  | .inputChanged i on => b.guarded (.inputChanged i on) io
  | .streamChanged connected => b.guarded (.streamChanged connected) io
  | .tick => b.guarded .tick io

def bootRun (calls : List (BootCall × SkIo)) : Option BootBridge :=
  calls.foldlM (fun b c => b.step c.1 c.2) BootBridge.zero

def BootCall.creates : BootCall → Bool
  | .init created => created
  | .start created _ _ => created
  | _ => false

def BootCall.starts : BootCall → Bool
  | .start _ _ _ => true
  | _ => false

def BootCall.stream : BootCall → Option Bool
  | .streamChanged connected => some connected
  | _ => none

def Locked : List BootCall → Prop := Occurs fun _ c => c.creates = true

def Started : List BootCall → Prop :=
  Occurs fun before c => c.starts = true ∧ (c.creates = true ∨ Locked before)

def Connected : List BootCall → Prop :=
  Occurs fun before c => c.stream = some true ∧ Locked before

/-- A connect and then a disconnect before the start. -/
def EarlyLoss : List BootCall → Prop :=
  Occurs fun before c => c.stream = some false ∧ Connected before ∧ ¬Started before

/-- What the calls so far have left. Until the start nothing is published and
no outage begins. -/
structure BootInv (past : List BootCall) (b : BootBridge) : Prop where
  lock : b.lock = true ↔ Locked past
  given : b.given = true ↔ Started past
  unstarted : b.given = false → b.bridge.started = false ∧ treePublished b.bridge.cfg = false ∧
    b.bridge.down = false
  connected : b.given = false → (b.bridge.connectedOnce = true ↔ Connected past)

theorem bootInv_zero : BootInv [] .zero where
  lock := iff_of_false Bool.false_ne_true (not_occurs_nil _)
  given := iff_of_false Bool.false_ne_true (not_occurs_nil _)
  unstarted := fun _ => ⟨rfl, rfl, rfl⟩
  connected := fun _ => iff_of_false Bool.false_ne_true (not_occurs_nil _)

section Unstarted

variable {s : SkPublisher}

theorem onTrees_unpublished (htrees : treePublished s.cfg = false) (f : Tree → List Publish) :
    s.onTrees f = [] := by
  rw [treePublished, Bool.or_eq_false_iff] at htrees
  simp [SkPublisher.onTrees, SkPublisher.treeOn, htrees.1, htrees.2]

theorem updateChannelCalls_unstarted (hstarted : s.started = false)
    (htrees : treePublished s.cfg = false) (cfg : BoardConfig) (io : SkIo) (i : Channel) :
    s.updateChannelCalls cfg io i = [] := by
  have hnamed : treePublished (s.withNames cfg i).cfg = false := htrees
  have hnext : ((s.withNames cfg i).withAlarm cfg i).started = false := hstarted
  unfold SkPublisher.updateChannelCalls
  dsimp only
  rw [onTrees_unpublished hnamed, hnext, Bool.and_false, Bool.false_and,
    if_neg Bool.false_ne_true]
  rfl

theorem updateConfigCalls_unstarted (hstarted : s.started = false)
    (htrees : treePublished s.cfg = false) (cfg : BoardConfig) (io : SkIo) :
    s.updateConfigCalls cfg io = [] := by
  have hloop : (forEach (SkPublisher.updatePassCalls cfg io) (s, [])).1.started = false ∧
      treePublished (forEach (SkPublisher.updatePassCalls cfg io) (s, [])).1.cfg = false ∧
      (forEach (SkPublisher.updatePassCalls cfg io) (s, [])).2 = [] := by
    refine forEach_keeps (P := fun r : SkPublisher × List SkPointer =>
      r.1.started = false ∧ treePublished r.1.cfg = false ∧ r.2 = []) _ ?_
      ⟨hstarted, htrees, rfl⟩
    rintro i r ⟨hr, hcfg, hcalls⟩
    refine ⟨hr, hcfg, ?_⟩
    rw [SkPublisher.updatePassCalls, hcalls, updateChannelCalls_unstarted hr hcfg]
    rfl
  have hnext : (s.skBridgeUpdateConfig cfg io).1.started = false := by
    rw [SkPublisher.updateConfig_state]
    exact hstarted
  unfold SkPublisher.updateConfigCalls
  dsimp only
  rw [hloop.2.2, hnext, Bool.and_false, if_neg Bool.false_ne_true]

theorem tick_quiet (hdown : s.down = false) (now : Ms) :
    RelayBoard.skBridgeTick now s.toSkBridge = (false, s.toSkBridge) := by
  unfold RelayBoard.skBridgeTick skLossDue
  rw [hdown]
  rfl

/-- Before the start no call invokes anything, but for the first disconnect
after a connect. -/
theorem calls_unstarted (hstarted : s.started = false) (htrees : treePublished s.cfg = false)
    (hdown : s.down = false) (op : SkOp) (io : SkIo)
    (hop : ∀ cfg putErr, op ≠ .start cfg putErr) :
    op.calls io s = [] ↔ ¬(op.stream = some false ∧ s.connectedOnce = true) := by
  cases op with
  | start cfg putErr => exact absurd rfl (hop cfg putErr)
  | updateConfig cfg =>
    exact iff_of_true (updateConfigCalls_unstarted hstarted htrees cfg io) (by simp [SkOp.stream])
  | relayChanged channel =>
    refine iff_of_true ?_ (by simp [SkOp.stream])
    rw [SkOp.calls, SkPublisher.relayChangedCalls, hstarted, if_neg Bool.false_ne_true, ite_self]
  | inputChanged i on =>
    refine iff_of_true ?_ (by simp [SkOp.stream])
    rw [SkOp.calls, SkPublisher.skBridgeInputChanged, hstarted]
    rfl
  | streamChanged connected =>
    cases connected with
    | true =>
      refine iff_of_true ?_ (by simp [SkOp.stream])
      rw [SkOp.calls, SkPublisher.streamChangedCalls, if_pos rfl, hstarted,
        if_neg Bool.false_ne_true]
    | false =>
      rw [SkOp.calls, SkPublisher.streamChangedCalls, if_neg Bool.false_ne_true, hdown]
      cases s.connectedOnce <;> simp [SkOp.stream]
  | tick =>
    refine iff_of_true ?_ (by simp [SkOp.stream])
    rw [SkOp.calls, SkPublisher.tickCalls, tick_quiet hdown]
    dsimp only [SkPublisher.withTimer]
    rw [hdown, hstarted]
    rfl

theorem streamChanged_unstarted (hstarted : s.started = false) (connected : Bool) (io : SkIo) :
    (s.skBridgeStreamChanged connected io).1 =
      s.withTimer (RelayBoard.skBridgeStreamChanged connected io.now s.toSkBridge) := by
  unfold SkPublisher.skBridgeStreamChanged
  dsimp only [SkPublisher.withTimer]
  rw [hstarted, Bool.and_false, if_neg Bool.false_ne_true]

theorem tick_unstarted (hstarted : s.started = false) (hdown : s.down = false) (io : SkIo) :
    (s.skBridgeTick io).2.1 = s := by
  have hdue : s.republishDue io.now = false := by
    unfold SkPublisher.republishDue
    rw [hstarted]
    rfl
  unfold SkPublisher.skBridgeTick
  rw [tick_quiet hdown]
  change (if s.republishDue io.now then s.publishStatesLocked io else (s, [])).1 = s
  rw [hdue, if_neg Bool.false_ne_true]

/-- What a call leaves before the start. -/
theorem perform_unstarted (hstarted : s.started = false) (htrees : treePublished s.cfg = false)
    (hdown : s.down = false) (op : SkOp) (io : SkIo)
    (hop : ∀ cfg putErr, op ≠ .start cfg putErr)
    (hquiet : ¬(op.stream = some false ∧ s.connectedOnce = true)) :
    ((op.perform io s).state.started = false ∧
      treePublished (op.perform io s).state.cfg = false ∧ (op.perform io s).state.down = false) ∧
    ((op.perform io s).state.connectedOnce = true ↔
      s.connectedOnce = true ∨ op.stream = some true) := by
  cases op with
  | start cfg putErr => exact absurd rfl (hop cfg putErr)
  | updateConfig cfg =>
    change ((s.skBridgeUpdateConfig cfg io).1.started = false ∧
      treePublished (s.skBridgeUpdateConfig cfg io).1.cfg = false ∧
      (s.skBridgeUpdateConfig cfg io).1.down = false) ∧
      ((s.skBridgeUpdateConfig cfg io).1.connectedOnce = true ↔ _)
    rw [SkPublisher.updateConfig_state]
    exact ⟨⟨hstarted, htrees, hdown⟩, by simp [SkOp.stream, SkPublisher.withTimer,
      skBridgeUpdateConfig]⟩
  | relayChanged channel => exact ⟨⟨hstarted, htrees, hdown⟩, by simp [SkOp.stream, SkOp.perform]⟩
  | inputChanged i on => exact ⟨⟨hstarted, htrees, hdown⟩, by simp [SkOp.stream, SkOp.perform]⟩
  | streamChanged connected =>
    change ((s.skBridgeStreamChanged connected io).1.started = false ∧
      treePublished (s.skBridgeStreamChanged connected io).1.cfg = false ∧
      (s.skBridgeStreamChanged connected io).1.down = false) ∧
      ((s.skBridgeStreamChanged connected io).1.connectedOnce = true ↔ _)
    rw [streamChanged_unstarted hstarted]
    cases connected with
    | true => exact ⟨⟨hstarted, htrees, rfl⟩, by simp [SkOp.stream, SkPublisher.withTimer,
        skBridgeStreamChanged]⟩
    | false =>
      have honce : s.connectedOnce = false := by simpa [SkOp.stream] using hquiet
      have hsame : RelayBoard.skBridgeStreamChanged false io.now s.toSkBridge = s.toSkBridge := by
        unfold RelayBoard.skBridgeStreamChanged
        rw [honce]
        rfl
      rw [hsame]
      exact ⟨⟨hstarted, htrees, hdown⟩, by simp [SkOp.stream, SkPublisher.withTimer]⟩
  | tick =>
    change ((s.skBridgeTick io).2.1.started = false ∧
      treePublished (s.skBridgeTick io).2.1.cfg = false ∧ (s.skBridgeTick io).2.1.down = false) ∧
      ((s.skBridgeTick io).2.1.connectedOnce = true ↔ _)
    rw [tick_unstarted hstarted hdown]
    exact ⟨⟨hstarted, htrees, hdown⟩, by simp [SkOp.stream]⟩

end Unstarted

variable {past : List BootCall} {b : BootBridge} {io : SkIo}

theorem locked_snoc (c : BootCall) :
    Locked (past ++ [c]) ↔ Locked past ∨ c.creates = true := occurs_snoc _ _ _

theorem started_snoc (c : BootCall) : Started (past ++ [c]) ↔
    Started past ∨ c.starts = true ∧ (c.creates = true ∨ Locked past) := occurs_snoc _ _ _

theorem connected_snoc (c : BootCall) : Connected (past ++ [c]) ↔
    Connected past ∨ c.stream = some true ∧ Locked past := occurs_snoc _ _ _

theorem earlyLoss_snoc (c : BootCall) : EarlyLoss (past ++ [c]) ↔
    EarlyLoss past ∨ c.stream = some false ∧ Connected past ∧ ¬Started past := occurs_snoc _ _ _

theorem Connected.locked (h : Connected past) : Locked past := by
  obtain ⟨before, c, after, rfl, -, d, x, e, rfl, hx⟩ := h
  exact ⟨d, x, e ++ c :: after, by simp, hx⟩

theorem guarded_early (h : BootInv past b) (hb : b.lock = true) (hg : b.given = false) (op : SkOp)
    (hop : ∀ cfg putErr, op ≠ .start cfg putErr) :
    (b.guarded op io = none ↔ op.stream = some false ∧ Connected past) ∧
    ∀ b', b.guarded op io = some b' → b'.lock = true ∧ b'.given = false ∧
      (b'.bridge.started = false ∧ treePublished b'.bridge.cfg = false ∧
        b'.bridge.down = false) ∧
      (b'.bridge.connectedOnce = true ↔ Connected past ∨ op.stream = some true) := by
  obtain ⟨hstarted, htrees, hdown⟩ := h.unstarted hg
  have hquiet := calls_unstarted hstarted htrees hdown op io hop
  have honce := h.connected hg
  unfold BootBridge.guarded
  rw [hb, Bool.not_true, if_neg Bool.false_ne_true, hg, Bool.false_or]
  by_cases hloss : op.stream = some false ∧ b.bridge.connectedOnce = true
  · have hcalls : (op.calls io b.bridge).isEmpty = false := by
      rw [List.isEmpty_eq_false_iff]
      exact fun hnil => hquiet.mp hnil hloss
    rw [hcalls, if_neg Bool.false_ne_true]
    exact ⟨iff_of_true rfl ⟨hloss.1, honce.mp hloss.2⟩, fun b' hb' => by cases hb'⟩
  · have hcalls : (op.calls io b.bridge).isEmpty = true := by
      rw [List.isEmpty_iff]
      exact hquiet.mpr hloss
    rw [hcalls, if_pos rfl, ← honce]
    refine ⟨iff_of_false (by simp) hloss, ?_⟩
    rintro b' hb'
    obtain rfl := Option.some.inj hb'
    exact ⟨rfl, rfl, perform_unstarted hstarted htrees hdown op io hop hloss⟩

theorem guarded_spec (h : BootInv past b) (op : SkOp) (hop : ∀ cfg putErr, op ≠ .start cfg putErr)
    (c : BootCall) (hc : c.stream = op.stream) (hcreates : c.creates = false)
    (hstarts : c.starts = false) :
    (b.guarded op io = none ↔ c.stream = some false ∧ Connected past ∧ ¬Started past) ∧
    ∀ b', b.guarded op io = some b' → BootInv (past ++ [c]) b' := by
  have hlock : Locked (past ++ [c]) ↔ Locked past := by
    rw [locked_snoc, hcreates]
    simp
  have hgiven : Started (past ++ [c]) ↔ Started past := by
    rw [started_snoc, hstarts]
    simp
  cases hb : b.lock with
  | false =>
    have hunlocked : ¬Locked past := fun hl =>
      Bool.false_ne_true (hb.symm.trans (h.lock.mpr hl))
    have hkeeps : b.guarded op io = some b := by
      unfold BootBridge.guarded
      rw [hb]
      rfl
    rw [hkeeps]
    refine ⟨iff_of_false (by simp) fun hall => hunlocked hall.2.1.locked, ?_⟩
    rintro b' hb'
    obtain rfl := Option.some.inj hb'
    refine ⟨h.lock.trans hlock.symm, h.given.trans hgiven.symm, h.unstarted, fun hg => ?_⟩
    rw [connected_snoc, h.connected hg]
    exact (or_iff_left fun hs => hunlocked hs.2).symm
  | true =>
    have hlocked : Locked past := h.lock.mp hb
    cases hg : b.given with
    | true =>
      have hgo : b.guarded op io = some { b with bridge := (op.perform io b.bridge).state } := by
        unfold BootBridge.guarded
        rw [hb, hg]
        rfl
      rw [hgo]
      refine ⟨iff_of_false (by simp) fun hloss => hloss.2.2 (h.given.mp hg), ?_⟩
      rintro b' hb'
      obtain rfl := Option.some.inj hb'
      exact ⟨h.lock.trans hlock.symm, h.given.trans hgiven.symm,
        fun hno => by simp [hg] at hno, fun hno => by simp [hg] at hno⟩
    | false =>
      have hnot : ¬Started past := fun hs =>
        Bool.false_ne_true (hg.symm.trans (h.given.mpr hs))
      obtain ⟨hnone, hsome⟩ := @guarded_early past b io h hb hg op hop
      rw [hnone, hc]
      refine ⟨by simp [hnot], fun b' hb' => ?_⟩
      obtain ⟨hb', hg', hkeeps, hconnected⟩ := hsome b' hb'
      refine ⟨iff_of_true hb' (hlock.mpr hlocked), ?_, fun _ => hkeeps, fun _ => ?_⟩
      · rw [hg']
        exact iff_of_false Bool.false_ne_true (hgiven.not.mpr hnot)
      · rw [hconnected, connected_snoc, hc, and_iff_left hlocked]

theorem start_spec (h : BootInv past b) (created : Bool) (cfg : BoardConfig)
    (putErr : SkPath → Option EspErr) :
    ∃ b', b.step (.start created cfg putErr) io = some b' ∧
      BootInv (past ++ [.start created cfg putErr]) b' := by
  unfold BootBridge.step
  dsimp only
  have hlocked : (b.lock || created) = true ↔ created = true ∨ Locked past := by
    rw [Bool.or_eq_true, h.lock]
    exact Or.comm
  by_cases hmade : (b.lock || created) = true
  · rw [if_pos hmade]
    have hpast := hlocked.mp hmade
    refine ⟨_, rfl, ?_, ?_, fun hno => (by cases hno), fun hno => (by cases hno)⟩
    · exact iff_of_true rfl ((locked_snoc _).mpr hpast.symm)
    · exact iff_of_true rfl ((started_snoc _).mpr (Or.inr ⟨rfl, hpast⟩))
  · rw [if_neg hmade]
    have hcreated : ¬created = true := fun hc => hmade (hlocked.mpr (Or.inl hc))
    have hunlocked : ¬Locked past := fun hl => hmade (hlocked.mpr (Or.inr hl))
    refine ⟨b, rfl, ?_, ?_, h.unstarted, fun hg => ?_⟩
    · rw [h.lock, locked_snoc]
      exact (or_iff_left hcreated).symm
    · rw [h.given, started_snoc]
      exact (or_iff_left fun hs => hs.2.elim hcreated hunlocked).symm
    · rw [h.connected hg, connected_snoc]
      exact (or_iff_left fun hs => hunlocked hs.2).symm

theorem init_spec (h : BootInv past b) (created : Bool) :
    BootInv (past ++ [.init created]) { b with lock := b.lock || created } where
  lock := by rw [locked_snoc, Bool.or_eq_true, h.lock]; rfl
  given := by
    rw [h.given, started_snoc]
    exact (or_iff_left fun hs => Bool.false_ne_true hs.1).symm
  unstarted := h.unstarted
  connected := by
    intro hg
    rw [connected_snoc]
    refine (h.connected hg).trans (or_iff_left fun hs => ?_).symm
    cases hs.1

/-- A step has no result only where a connection is lost early. -/
theorem step_spec (h : BootInv past b) (c : BootCall) :
    (b.step c io = none ↔ c.stream = some false ∧ Connected past ∧ ¬Started past) ∧
    ∀ b', b.step c io = some b' → BootInv (past ++ [c]) b' := by
  cases c with
  | init created =>
    refine ⟨iff_of_false (by simp [BootBridge.step]) fun hall => (by cases hall.1), ?_⟩
    rintro b' hb'
    obtain rfl := Option.some.inj hb'
    exact init_spec h created
  | start created cfg putErr =>
    obtain ⟨b', hstep, hinv⟩ := @start_spec past b io h created cfg putErr
    rw [hstep]
    refine ⟨iff_of_false (by simp) fun hall => (by cases hall.1), fun b'' hb'' => ?_⟩
    rwa [← Option.some.inj hb'']
  | updateConfig cfg => exact guarded_spec h (.updateConfig cfg) (by simp) _ rfl rfl rfl
  | relayChanged channel => exact guarded_spec h (.relayChanged channel) (by simp) _ rfl rfl rfl
  | inputChanged i on => exact guarded_spec h (.inputChanged i on) (by simp) _ rfl rfl rfl
  | streamChanged connected =>
    exact guarded_spec h (.streamChanged connected) (by simp) _ rfl rfl rfl
  | tick => exact guarded_spec h .tick (by simp) _ rfl rfl rfl

theorem bootRun_snoc (calls : List (BootCall × SkIo)) (c : BootCall × SkIo) :
    bootRun (calls ++ [c]) = (bootRun calls).bind fun b => b.step c.1 c.2 := by
  rw [bootRun, List.foldlM_append, bootRun]
  refine Option.bind_congr fun b _ => ?_
  simp

theorem bootRun_spec (calls : List (BootCall × SkIo)) :
    (bootRun calls = none ↔ EarlyLoss (calls.map Prod.fst)) ∧
    ∀ b, bootRun calls = some b → BootInv (calls.map Prod.fst) b := by
  induction calls using List.reverseRecOn with
  | nil =>
    refine ⟨iff_of_false (by simp [bootRun]) (not_occurs_nil _), fun b hb => ?_⟩
    obtain rfl := Option.some.inj hb
    exact bootInv_zero
  | append_singleton calls c ih =>
    rw [bootRun_snoc, List.map_append, List.map_singleton, earlyLoss_snoc, ← ih.1]
    cases hrun : bootRun calls with
    | none => exact ⟨iff_of_true rfl (Or.inl rfl), fun b hb => by cases hb⟩
    | some b =>
      have hstep := @step_spec _ b c.2 (ih.2 b hrun) c.1
      rw [Option.bind_some, hstep.1]
      exact ⟨by simp, hstep.2⟩

/-- A run of calls invokes a function that has not been given exactly if a
connect and then a disconnect come before the start. -/
theorem boot_order_iff (calls : List (BootCall × SkIo)) :
    bootRun calls = none ↔ EarlyLoss (calls.map Prod.fst) :=
  (bootRun_spec calls).1

/-- A connection that comes and goes before the start. -/
theorem early_disconnect_invokes :
    bootRun [(.init true, .quiet), (.streamChanged true, .quiet), (.streamChanged false, .quiet)] =
      none := by
  rfl

end RelayBoard
