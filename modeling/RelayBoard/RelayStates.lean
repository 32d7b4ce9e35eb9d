import RelayBoard.Lib.Refresh
import RelayBoard.SkReports

/-!
# Relay states on SignalK

Relay control changes relays in atomic calls, each of which leaves calls of
`sk_bridge_relay_changed` to be made later. The calls carry no state: the
bridge reads relay control's mask under its own lock, as it does when it
publishes everything. Whatever the order, every relay on every enabled tree is
up to date or has a call under way.
-/

set_option autoImplicit false

namespace RelayBoard
open BitVec Lib.Loops Lib.Runs Lib.Journal Lib.Refresh

/-- Relay control, the bridge, and the relays of which a listener call is still
to come. -/
structure SkSystem where
  core : World
  bridge : SkPublisher
  owed : List Channel

/-- A task calls relay control; the `n`-th of the owed listener calls is made;
anyone calls the bridge. -/
inductive SkEvent where
  | relay (c : TaskCall)
  | notify (n : ℕ) (io : SkIo)
  | bridge (op : SkOp) (io : SkIo)

/-- `relay_mask()` as the bridge reads it inside its lock. -/
def SkIo.seeing (io : SkIo) (w : World) : SkIo := { io with relayMask := relayCtrlGetMask w.s }

namespace SkSystem

def step (w : SkSystem) : SkEvent → SkSystem
  | .relay c =>
    { w with
      core := RelayBoard.step w.core c.val
      owed := w.owed ++ (result w.core c.val).notices.map Notice.relay }
  | .notify n io =>
    match w.owed[n]? with
    | none => w
    | some i =>
      { w with
        bridge := ((SkOp.relayChanged (i.val + 1)).perform (io.seeing w.core) w.bridge).state
        owed := w.owed.eraseIdx n }
  | .bridge op io => { w with bridge := (op.perform (io.seeing w.core) w.bridge).state }

def publishes (w : SkSystem) : SkEvent → List Publish
  | .relay _ => []
  | .notify n io =>
    match w.owed[n]? with
    | none => []
    | some i =>
      ((SkOp.relayChanged (i.val + 1)).perform (io.seeing w.core) w.bridge).published
  | .bridge op io => (op.perform (io.seeing w.core) w.bridge).published

end SkSystem

namespace SkPublisher

theorem relayChanged_channel (i : Channel) (io : SkIo) (s : SkPublisher) :
    s.skBridgeRelayChanged (i.val + 1) io =
      if s.started then s.onTrees fun t => s.publishState t false i (io.relayMask.has i)
      else [] := by
  have hi := i.isLt
  unfold skBridgeRelayChanged
  rw [dif_neg (by omega)]
  rfl

theorem newest_relayChanged (i j : Channel) (u : Tree) (io : SkIo) (s : SkPublisher)
    (hs : s.started = true) (hu : s.treeOn u = true) :
    newest (Publish.on (s.relayPath u j)) (s.skBridgeRelayChanged (i.val + 1) io) =
      if i = j then some (stateValue (io.relayMask.has j)) else none := by
  rw [relayChanged_channel, if_pos hs, newest_onTrees]
  · rw [newest_publishState, relayPath_tree, if_pos hu]
    simp only [makePath_eq_relayPath, true_and]
    by_cases hij : i = j
    · rw [if_pos hij, if_pos hij, hij]
    · rw [if_neg hij, if_neg hij]
  · intro t ht
    rw [newest_publishState, if_neg]
    intro h
    exact ht ((makePath_eq_relayPath s t u i j false).mp h).2.1

theorem newest_inputChanged_relay (i j : Channel) (on : Bool) (u : Tree) (s : SkPublisher) :
    newest (Publish.on (s.relayPath u j)) (s.skBridgeInputChanged i on) = none := by
  have hp : (s.relayPath u j).leaf = .state := rfl
  unfold skBridgeInputChanged
  rw [newest_append, apply_ite (newest _), apply_ite (newest _), newest_onTrees_none,
    newest_onTrees_none]
  · simp
  · intro t
    rw [newest_append, newest_publishDescription s t i true hp, newest_publishState, if_neg]
    · rfl
    · intro h
      cases ((makePath_eq_relayPath s t u i j true).mp h).1
  · intro t
    rw [newest_publishNotification, if_neg (notifPath_ne_relayPath s t u i j)]

theorem newest_start_relay (cfg : BoardConfig) (putErr : SkPath → Option EspErr) (io : SkIo)
    (s : SkPublisher) (u : Tree) (j : Channel)
    (hu : (s.skBridgeStart cfg putErr io).1.treeOn u = true) :
    newest (Publish.on ((s.skBridgeStart cfg putErr io).1.relayPath u j))
      (s.skBridgeStart cfg putErr io).2.1 = some (stateValue (io.relayMask.has j)) := by
  have hall := newest_publishAll_relay (s.takeConfig cfg) io u j
  have hu' : (s.takeConfig cfg).treeOn u = true := hu
  rw [if_pos hu'] at hall
  unfold skBridgeStart
  dsimp only
  rw [newest_append, newest_append, newest_registerPuts, Option.none_or]
  exact (congrArg (Option.or · _) hall).trans (Option.some_or)

theorem newest_streamChanged_relay (connected : Bool) (io : SkIo) (s : SkPublisher) (u : Tree)
    (j : Channel) (hu : s.treeOn u = true) :
    newest (Publish.on (s.relayPath u j)) (s.skBridgeStreamChanged connected io).2 =
      if connected && s.started then some (stateValue (io.relayMask.has j)) else none := by
  have hk := s.streamTimer_keeps connected io.now
  unfold skBridgeStreamChanged
  dsimp only
  rw [apply_ite Prod.snd, apply_ite (newest _), ← hk.relayPath, newest_publishAll_relay, hk.trees,
    if_pos hu]
  rfl

theorem newest_tick_relay (io : SkIo) (s : SkPublisher) (u : Tree) (j : Channel)
    (hu : s.treeOn u = true) :
    newest (Publish.on (s.relayPath u j)) (s.skBridgeTick io).2.2 =
        some (stateValue (io.relayMask.has j)) ∨
      newest (Publish.on (s.relayPath u j)) (s.skBridgeTick io).2.2 = none := by
  have hk := s.tickTimer_keeps io.now
  unfold skBridgeTick
  dsimp only
  rw [apply_ite Prod.snd, apply_ite (newest _), ← hk.relayPath, newest_publishStates_relay,
    hk.trees, if_pos hu]
  split_ifs
  · exact .inl rfl
  · exact .inr rfl

end SkPublisher

/-- Every call of the bridge publishes, on a relay's state path, what it reads
there or nothing. -/
theorem perform_relay_state (op : SkOp) (io : SkIo) (s : SkPublisher)
    (hs : (op.perform io s).state.started = true) {u : Tree}
    (hu : (op.perform io s).state.treeOn u = true) (j : Channel) :
    newest (Publish.on ((op.perform io s).state.relayPath u j)) (op.perform io s).published =
        some (stateValue (io.relayMask.has j)) ∨
      op.isStart = false ∧
        newest (Publish.on (s.relayPath u j)) (op.perform io s).published = none := by
  have hkeeps := perform_keeps op
  cases op with
  | start cfg putErr => exact .inl (s.newest_start_relay cfg putErr io u j hu)
  | updateConfig cfg =>
    right
    refine ⟨rfl, ?_⟩
    change newest _ (s.skBridgeUpdateConfig cfg io).2 = none
    rw [s.newest_updateConfig cfg io _ rfl, s.newest_updateChannels_relay]
  | relayChanged channel =>
    by_cases hc : channel < 1 ∨ 8 < channel
    · right
      refine ⟨rfl, ?_⟩
      change newest _ (s.skBridgeRelayChanged channel io) = none
      rw [SkPublisher.skBridgeRelayChanged, dif_pos hc, newest_nil]
    · obtain ⟨i, rfl⟩ := exists_index hc
      have hnew := s.newest_relayChanged i j u io hs hu
      by_cases hij : i = j
      · exact .inl (hnew.trans (if_pos hij))
      · exact .inr ⟨rfl, hnew.trans (if_neg hij)⟩
  | inputChanged i on => exact .inr ⟨rfl, s.newest_inputChanged_relay i j on u⟩
  | streamChanged connected =>
    have hk := hkeeps rfl io s
    have hu' : s.treeOn u = true := (congrFun hk.trees u).symm.trans hu
    have hnew := s.newest_streamChanged_relay connected io u j hu'
    rw [hk.relayPath]
    by_cases hc : (connected && s.started) = true
    · exact .inl (hnew.trans (if_pos hc))
    · exact .inr ⟨rfl, hnew.trans (if_neg hc)⟩
  | tick =>
    have hk := hkeeps rfl io s
    have hu' : s.treeOn u = true := (congrFun hk.trees u).symm.trans hu
    rw [hk.relayPath]
    exact (s.newest_tick_relay io u j hu').imp_right (fun h => ⟨rfl, h⟩)

namespace SkSystem

def lastStates (w : SkSystem) (sent : List Publish) (u : Tree) (j : Channel) : Option SkValue :=
  newest (Publish.on (w.bridge.relayPath u j)) sent

def relayView (w : SkSystem) (j : Channel) : Option SkValue :=
  some (stateValue ((relayCtrlGetMask w.core.s).has j))

/-- On every enabled tree the states are right up to the owed calls. -/
structure Current (w : SkSystem) (sent : List Publish) : Prop where
  started : w.bridge.started = true
  owing : ∀ u, w.bridge.treeOn u = true → Owing w.relayView (w.lastStates sent u) w.owed

/-- A call of relay control changes no relay that it leaves no notice for. -/
theorem relay_view (w : SkSystem) (c : TaskCall) (j : Channel) :
    (w.step (.relay c)).relayView j = w.relayView j ∨
      j ∈ (result w.core c.val).notices.map Notice.relay := by
  by_cases hj : j ∈ (result w.core c.val).notices.map Notice.relay
  · exact .inr hj
  · left
    have hother : ∀ n ∈ (result w.core c.val).notices, n.relay ≠ j := by
      rintro n hn rfl
      exact hj (List.mem_map_of_mem hn)
    have hbit := congrArg (fun m => m.has j) (tasked_notices w.core c)
    rw [← latest_notices, Lib.Delivery.latest_of_other _ _ j _ hother] at hbit
    exact congrArg (fun b => some (stateValue b)) hbit.symm

/-- A call of the bridge reads the relays as they are. -/
theorem bridge_refreshes (w : SkSystem) (op : SkOp) (io : SkIo) (sent : List Publish)
    (hs : (w.step (.bridge op io)).bridge.started = true) {u : Tree}
    (hu : (w.step (.bridge op io)).bridge.treeOn u = true) (hop : op.isStart = false) :
    Refreshed w.relayView (w.lastStates sent u)
      ((w.step (.bridge op io)).lastStates (sent ++ w.publishes (.bridge op io)) u) := by
  intro j
  unfold lastStates
  rw [newest_append]
  rcases perform_relay_state op (io.seeing w.core) w.bridge hs hu j with h | ⟨-, h⟩
  · exact .inl ((congrArg (Option.or · _) h).trans Option.some_or)
  · right
    have hk := perform_keeps op hop (io.seeing w.core) w.bridge
    have hpath : (w.step (.bridge op io)).bridge.relayPath u j = w.bridge.relayPath u j :=
      hk.relayPath u j
    rw [hpath]
    exact (congrArg (Option.or · _) h).trans Option.none_or

theorem start_current (w : SkSystem) (cfg : BoardConfig) (putErr : SkPath → Option EspErr)
    (io : SkIo) (sent : List Publish) : (w.step (.bridge (.start cfg putErr) io)).Current
      (sent ++ w.publishes (.bridge (.start cfg putErr) io)) := by
  refine ⟨rfl, fun u hu j => .inl ?_⟩
  have hnew := w.bridge.newest_start_relay cfg putErr (io.seeing w.core) u j hu
  unfold lastStates
  rw [newest_append]
  exact (congrArg (Option.or · _) hnew).trans Option.some_or

theorem bridge_current (w : SkSystem) (op : SkOp) (io : SkIo) (sent : List Publish)
    (h : w.Current sent) :
    (w.step (.bridge op io)).Current (sent ++ w.publishes (.bridge op io)) := by
  cases hop : op.isStart with
  | true =>
    cases op with
    | start cfg putErr => exact w.start_current cfg putErr io sent
    | _ => cases hop
  | false =>
    have hk := perform_keeps op hop (io.seeing w.core) w.bridge
    have hs : (w.step (.bridge op io)).bridge.started = true := hk.started.trans h.started
    refine ⟨hs, fun u hu => ?_⟩
    have hu' : w.bridge.treeOn u = true := (congrFun hk.trees u).symm.trans hu
    exact (h.owing u hu').refresh (w.bridge_refreshes op io sent hs hu hop)

theorem step_notify (w : SkSystem) {n : ℕ} (io : SkIo) {i : Channel}
    (hn : w.owed[n]? = some i) : w.step (.notify n io) =
      { w.step (.bridge (.relayChanged (i.val + 1)) io) with owed := w.owed.eraseIdx n } := by
  simp only [step, hn]

theorem publishes_notify (w : SkSystem) {n : ℕ} (io : SkIo) {i : Channel}
    (hn : w.owed[n]? = some i) :
    w.publishes (.notify n io) = w.publishes (.bridge (.relayChanged (i.val + 1)) io) := by
  simp only [publishes, hn]

/-- An owed call publishes its relay as it is by then. -/
theorem notify_current (w : SkSystem) (n : ℕ) (io : SkIo) (sent : List Publish)
    (h : w.Current sent) :
    (w.step (.notify n io)).Current (sent ++ w.publishes (.notify n io)) := by
  cases hn : w.owed[n]? with
  | none => simpa [step, publishes, hn] using h
  | some i =>
    rw [w.step_notify io hn, w.publishes_notify io hn]
    refine ⟨h.started, fun u hu => ?_⟩
    have hrefreshed := w.bridge_refreshes (.relayChanged (i.val + 1)) io sent h.started hu rfl
    refine (h.owing u hu).notify hrefreshed hn ?_
    have hnew := w.bridge.newest_relayChanged i i u (io.seeing w.core) h.started hu
    rw [if_pos rfl] at hnew
    unfold lastStates
    rw [newest_append]
    exact (congrArg (Option.or · _) hnew).trans Option.some_or

theorem step_current (w : SkSystem) (sent : List Publish) (e : SkEvent) (h : w.Current sent) :
    (w.step e).Current (sent ++ w.publishes e) := by
  cases e with
  | relay c =>
    refine ⟨h.started, fun u hu => ?_⟩
    simp only [publishes, List.append_nil]
    exact (h.owing u hu).change (w.relay_view c)
  | notify n io => exact w.notify_current n io sent h
  | bridge op io => exact w.bridge_current op io sent h

theorem run_current (w : SkSystem) (sent : List Publish) (h : w.Current sent)
    (es : List SkEvent) :
    (run step w es).Current (sent ++ journal publishes (history step w es)) := by
  refine run_induction step (I := fun v past => v.Current (sent ++ journal publishes past))
    (P := fun _ _ => True) w (by simpa using h) (fun v past e hv _ => ?_) es (fun _ _ => trivial)
  rw [journal_cons, ← List.append_assoc]
  exact v.step_current _ e hv

end SkSystem

/-- The bridge starts at any time, with any listener calls under way. Once all
of them have been made, every relay's last published state on every enabled
tree is its bit of `relay_ctrl_get_mask`. -/
theorem run_publishes_relays (w : SkSystem) (cfg : BoardConfig)
    (putErr : SkPath → Option EspErr) (io : SkIo) (es : List SkEvent)
    (hreturned : (run SkSystem.step w (.bridge (.start cfg putErr) io :: es)).owed = [])
    (u : Tree)
    (hu : (run SkSystem.step w (.bridge (.start cfg putErr) io :: es)).bridge.treeOn u = true)
    (i : Channel) :
    let v := run SkSystem.step w (.bridge (.start cfg putErr) io :: es)
    newest (Publish.on (v.bridge.relayPath u i))
        (journal SkSystem.publishes
          (history SkSystem.step w (.bridge (.start cfg putErr) io :: es))) =
      some (stateValue ((relayCtrlGetMask v.core.s).has i)) := by
  intro v
  have hstart := w.start_current cfg putErr io []
  rw [List.nil_append] at hstart
  have hcurrent := SkSystem.run_current _ _ hstart es
  have howing := hcurrent.owing u hu
  have hnone : (run SkSystem.step (w.step (.bridge (.start cfg putErr) io)) es).owed = [] :=
    hreturned
  rw [hnone] at howing
  rw [journal_history_cons]
  exact howing.settled i

/-- A relay switched on and off again by two tasks whose listener calls come in
the other order, with a republication in between. -/
def crossedEvents (io : SkIo) : List SkEvent :=
  [.relay ⟨.plain (.set 1 true .sk) 20, rfl⟩, .relay ⟨.plain (.set 1 false .web) 21, rfl⟩,
    .notify 1 io, .bridge (.streamChanged true) io, .notify 0 io]

theorem crossed_relays_published :
    newest (Publish.on ((run SkSystem.step ⟨coldBoot, .zero, []⟩
        (.bridge (.start .bothTrees fun _ => none) SkIo.quiet ::
          crossedEvents SkIo.quiet)).bridge.relayPath .controls 0))
        (journal SkSystem.publishes (history SkSystem.step ⟨coldBoot, .zero, []⟩
          (.bridge (.start .bothTrees fun _ => none) SkIo.quiet :: crossedEvents SkIo.quiet))) =
      some (stateValue ((relayCtrlGetMask (run SkSystem.step ⟨coldBoot, .zero, []⟩
        (.bridge (.start .bothTrees fun _ => none) SkIo.quiet ::
          crossedEvents SkIo.quiet)).core.s).has 0)) :=
  run_publishes_relays ⟨coldBoot, .zero, []⟩ .bothTrees (fun _ => none) SkIo.quiet
    (crossedEvents SkIo.quiet) (by decide +kernel) .controls (by decide +kernel) 0

end RelayBoard
