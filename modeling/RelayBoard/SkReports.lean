import RelayBoard.SkPublisher

/-!
# What the bridge publishes where

For the state path of a relay and for the notification path of an input, what
each group of publications says last. All other publications are on other
paths.
-/

set_option autoImplicit false

namespace RelayBoard
open BitVec Lib.Loops Lib.Journal

def stateValue (on : Bool) : SkValue := .number (if on then 1 else 0)

def noteOf (input : InputCfg) (active : Bool) : SkValue := .json (notificationJson input active)

namespace SkPublisher

def relayPath (s : SkPublisher) (t : Tree) (i : Channel) : SkPath := s.makePath t false i .state

def notifPath (s : SkPublisher) (t : Tree) (i : Channel) : SkPath := s.makeNotifPath t i .state

section Paths

variable (s : SkPublisher) (u : Tree) (j : Channel)

@[simp] theorem relayPath_tree : (s.relayPath u j).tree = u := rfl

@[simp] theorem notifPath_tree : (s.notifPath u j).tree = u := rfl

end Paths

section Loops

variable (s : SkPublisher) (p : SkPath)

theorem newest_onTrees (f : Tree → List Publish)
    (hother : ∀ t, t ≠ p.tree → newest (Publish.on p) (f t) = none) :
    newest (Publish.on p) (s.onTrees f) =
      if s.treeOn p.tree then newest (Publish.on p) (f p.tree) else none := by
  have hmem : p.tree ∈ [Tree.switches, Tree.controls] := by cases p.tree <;> simp
  unfold onTrees
  rw [newest_flatMap_own _ _ _ p.tree hmem]
  · split_ifs <;> rfl
  · intro t _ ht
    split_ifs
    · exact hother t ht
    · rfl

theorem newest_onChannels (f : Channel → List Publish)
    (hother : ∀ i, i ≠ p.channel → newest (Publish.on p) (f i) = none) :
    newest (Publish.on p) (onChannels f) = newest (Publish.on p) (f p.channel) :=
  newest_flatMap_own _ _ _ p.channel (List.mem_finRange _) (fun i _ => hother i)

theorem newest_onTrees_none (f : Tree → List Publish)
    (h : ∀ t, newest (Publish.on p) (f t) = none) :
    newest (Publish.on p) (s.onTrees f) = none := by
  rw [newest_onTrees s p f (fun t _ => h t), h, ite_self]

theorem newest_onChannels_none (f : Channel → List Publish)
    (h : ∀ i, newest (Publish.on p) (f i) = none) :
    newest (Publish.on p) (onChannels f) = none := by
  rw [newest_onChannels p f (fun i _ => h i), h]

theorem newest_onBoth (g : Tree → Channel → List Publish) (v : Option SkValue)
    (h : ∀ t i, newest (Publish.on p) (g t i) =
      if t = p.tree ∧ i = p.channel then v else none) :
    newest (Publish.on p) (s.onTrees fun t => onChannels (g t)) =
      if s.treeOn p.tree then v else none := by
  rw [newest_onTrees]
  · rw [newest_onChannels]
    · simp [h]
    · intro i hi
      rw [h, if_neg (fun hb => hi hb.2)]
  · intro t ht
    apply newest_onChannels_none
    intro i
    rw [h, if_neg (fun hb => ht hb.1)]

end Loops

section Groups

variable (s : SkPublisher) (t : Tree) (i : Channel) (input : Bool) {p : SkPath}

theorem newest_publishState (on : Bool) :
    newest (Publish.on p) (s.publishState t input i on) =
      if s.makePath t input i .state = p then some (stateValue on) else none := by
  rw [publishState, newest_singleton]
  rfl

theorem newest_publishNotification (active : Bool) :
    newest (Publish.on p) (s.publishNotification t i active) =
      if s.notifPath t i = p then some (noteOf (s.bank.inputs i) active)
      else none := by
  rw [publishNotification, newest_singleton]
  rfl

variable (hp : p.leaf = .state)
include hp

theorem other_leaf (leaf : Leaf) (h : leaf ≠ .state) : s.makePath t input i leaf ≠ p := by
  rintro rfl
  exact h hp

theorem newest_publishCounters (io : SkIo) :
    newest (Publish.on p) (s.publishCounters io t input i) = none := by
  simp [publishCounters, newest_cons, Publish.on, other_leaf s t i input hp]

theorem newest_publishDescription :
    newest (Publish.on p) (s.publishDescription t input i) = none := by
  cases t <;> simp [publishDescription, newest_cons, Publish.on, other_leaf s _ i input hp]

theorem newest_declareNames : newest (Publish.on p) (s.declareNames t input i) = none := by
  unfold declareNames
  split_ifs <;>
    simp [newest_cons, Publish.on, other_leaf s _ i input hp]

theorem newest_declareAll : newest (Publish.on p) s.declareAll = none := by
  apply newest_onTrees_none
  intro t
  apply newest_onChannels_none
  intro i
  rw [newest_append, newest_declareNames s t i false hp, Option.or_none]
  split_ifs
  · exact newest_declareNames s t i true hp
  · rfl

end Groups

theorem newest_registerPuts (putErr : SkPath → Option EspErr) (paths : List (SkPath × Channel))
    (p : SkPath) : newest (Publish.on p) (registerPuts putErr paths).1 = none := by
  induction paths with
  | nil => rfl
  | cons path paths ih =>
    rw [registerPuts]
    split
    · rfl
    · rw [newest_cons, ih]
      rfl

theorem makePath_eq_relayPath (s : SkPublisher) (t u : Tree) (i j : Channel) (input : Bool) :
    s.makePath t input i .state = s.relayPath u j ↔ input = false ∧ t = u ∧ i = j := by
  cases input <;> simp [makePath, relayPath]

theorem notifPath_eq_notifPath (s : SkPublisher) (t u : Tree) (i j : Channel) :
    s.notifPath t i = s.notifPath u j ↔ t = u ∧ i = j := by
  simp [notifPath, makeNotifPath, makePath]

theorem notifPath_ne_relayPath (s : SkPublisher) (t u : Tree) (i j : Channel) :
    s.notifPath t i ≠ s.relayPath u j := by
  simp [notifPath, makeNotifPath, relayPath, makePath]

theorem makePath_ne_notifPath (s : SkPublisher) (t u : Tree) (i j : Channel) (input : Bool)
    (leaf : Leaf) : s.makePath t input i leaf ≠ s.notifPath u j := by
  simp [notifPath, makeNotifPath, makePath]

section Relays

variable (s : SkPublisher) (io : SkIo) (u : Tree) (j : Channel)

theorem newest_channelStates_relay (t : Tree) (i : Channel) :
    newest (Publish.on (s.relayPath u j)) (s.channelStates io t i) =
      if t = u ∧ i = j then some (stateValue (io.relayMask.has j)) else none := by
  have hp : (s.relayPath u j).leaf = .state := rfl
  simp only [channelStates, newest_append, apply_ite (newest _), newest_nil, newest_publishState,
    newest_publishNotification, newest_publishCounters s t i _ hp, makePath_eq_relayPath,
    notifPath_ne_relayPath]
  by_cases hown : t = u ∧ i = j
  · obtain ⟨rfl, rfl⟩ := hown
    simp
  · simp [hown]

theorem newest_channelAll_relay (t : Tree) (i : Channel) :
    newest (Publish.on (s.relayPath u j)) (s.channelAll io t i) =
      if t = u ∧ i = j then some (stateValue (io.relayMask.has j)) else none := by
  have hp : (s.relayPath u j).leaf = .state := rfl
  simp only [channelAll, newest_append, apply_ite (newest _), newest_nil, newest_publishState,
    newest_publishNotification, newest_publishCounters s t i _ hp,
    newest_publishDescription s t i _ hp, makePath_eq_relayPath, notifPath_ne_relayPath]
  by_cases hown : t = u ∧ i = j
  · obtain ⟨rfl, rfl⟩ := hown
    simp
  · simp [hown]

theorem newest_publishAll_relay :
    newest (Publish.on (s.relayPath u j)) (s.publishAllLocked io).2 =
      if s.treeOn u then some (stateValue (io.relayMask.has j)) else none :=
  newest_onBoth s (s.relayPath u j) _ _ (newest_channelAll_relay s io u j)

theorem newest_publishStates_relay :
    newest (Publish.on (s.relayPath u j)) (s.publishStatesLocked io).2 =
      if s.treeOn u then some (stateValue (io.relayMask.has j)) else none :=
  newest_onBoth s (s.relayPath u j) _ _ (newest_channelStates_relay s io u j)

end Relays

section Notifications

variable (s : SkPublisher) (io : SkIo) (u : Tree) (j : Channel)

theorem newest_channelStates_notif (t : Tree) (i : Channel) :
    newest (Publish.on (s.notifPath u j)) (s.channelStates io t i) =
      if t = u ∧ i = j then
        if io.inputsReady && io.inputMask.has j && s.alarmConfigured j then
          some (noteOf (s.bank.inputs j) true) else none
      else none := by
  have hp : (s.notifPath u j).leaf = .state := rfl
  simp only [channelStates, newest_append, apply_ite (newest _), newest_nil, newest_publishState,
    newest_publishNotification, newest_publishCounters s t i _ hp, makePath_ne_notifPath,
    notifPath_eq_notifPath]
  by_cases hown : t = u ∧ i = j
  · obtain ⟨rfl, rfl⟩ := hown
    cases hon : s.inputsOn <;> cases hr : io.inputsReady <;> simp [alarmConfigured, hon]
  · simp [hown]

theorem newest_channelAll_notif (t : Tree) (i : Channel) :
    newest (Publish.on (s.notifPath u j)) (s.channelAll io t i) =
      if t = u ∧ i = j then
        if io.inputsReady && s.alarmConfigured j then
          some (noteOf (s.bank.inputs j) (io.inputMask.has j)) else none
      else none := by
  have hp : (s.notifPath u j).leaf = .state := rfl
  simp only [channelAll, newest_append, apply_ite (newest _), newest_nil, newest_publishState,
    newest_publishNotification, newest_publishCounters s t i _ hp,
    newest_publishDescription s t i _ hp, makePath_ne_notifPath, notifPath_eq_notifPath]
  by_cases hown : t = u ∧ i = j
  · obtain ⟨rfl, rfl⟩ := hown
    cases hon : s.inputsOn <;> cases hr : io.inputsReady <;> simp [alarmConfigured, hon]
  · simp [hown]

theorem newest_publishAll_notif :
    newest (Publish.on (s.notifPath u j)) (s.publishAllLocked io).2 =
      if s.treeOn u then
        if io.inputsReady && s.alarmConfigured j then
          some (noteOf (s.bank.inputs j) (io.inputMask.has j)) else none
      else none :=
  newest_onBoth s (s.notifPath u j) _ _ (newest_channelAll_notif s io u j)

theorem newest_publishStates_notif :
    newest (Publish.on (s.notifPath u j)) (s.publishStatesLocked io).2 =
      if s.treeOn u then
        if io.inputsReady && io.inputMask.has j && s.alarmConfigured j then
          some (noteOf (s.bank.inputs j) true) else none
      else none :=
  newest_onBoth s (s.notifPath u j) _ _ (newest_channelStates_notif s io u j)

end Notifications

section Updates

variable (cfg : BoardConfig) (io : SkIo) (s : SkPublisher)

theorem updateChannel_state (i : Channel) :
    (s.updateChannel cfg io i).1 = { s with bank := { s.bank with
      relayNames := Function.update s.bank.relayNames i (cfg.bank.relayNames i)
      inputs := Function.update s.bank.inputs i (cfg.bank.inputs i) } } := by
  simp only [updateChannel, withAlarm, withNames, Function.update_idem]

theorem updateChannels_state :
    (s.updateChannels cfg io).1 = { s with bank := { s.bank with
      relayNames := cfg.bank.relayNames
      inputs := cfg.bank.inputs } } := by
  have hloop : ∀ (is : List Channel) (r : SkPublisher × List Publish),
      (is.foldl (fun r i => updatePass cfg io i r) r).1 = { r.1 with bank := { r.1.bank with
          relayNames := fun i =>
            if i ∈ is then cfg.bank.relayNames i else r.1.bank.relayNames i
          inputs := fun i => if i ∈ is then cfg.bank.inputs i else r.1.bank.inputs i } } := by
    intro is
    induction is with
    | nil => intro r; simp
    | cons j is ih =>
      intro r
      rw [List.foldl_cons, ih, updatePass, updateChannel_state]
      simp only [SkPublisher.mk.injEq, BankCfg.mk.injEq, true_and, and_true]
      constructor
      · funext i
        by_cases hj : i = j <;> by_cases hmem : i ∈ is <;> simp [hj, hmem]
      · funext i
        by_cases hj : i = j <;> by_cases hmem : i ∈ is <;> simp [hj, hmem]
  unfold updateChannels forEach
  rw [hloop]
  simp

theorem updateConfig_state :
    (s.skBridgeUpdateConfig cfg io).1 =
      { s.withTimer (RelayBoard.skBridgeUpdateConfig cfg.toDeviceConfig s.toSkBridge) with
        bank := { s.bank with
          skRepublishS := cfg.bank.skRepublishS
          relayNames := cfg.bank.relayNames
          inputs := cfg.bank.inputs } } := by
  unfold skBridgeUpdateConfig withTimer
  dsimp only
  rw [updateChannels_state]
  dsimp only
  by_cases h : s.bank.skRepublishS = cfg.bank.skRepublishS
  · rw [if_neg (by simp [h]), ← h]
  · rw [if_pos (by simp [h])]

def configuredBy (i : Channel) : Bool := s.inputsOn && (cfg.bank.inputs i).alarm != .off

/-- A save that publishes the notification of input `i`. -/
def renotifies (i : Channel) : Bool :=
  s.alarmSettingChanged cfg i && (s.alarmConfigured i || s.configuredBy cfg i) && s.started &&
    s.inputsOn && io.inputsReady && io.inputMask.has i

theorem newest_renamed (i : Channel) (relayRenamed inputRenamed : Bool) {p : SkPath}
    (hp : p.leaf = .state) : newest (Publish.on p) (s.onTrees fun t =>
      (if relayRenamed then s.declareNames t false i else []) ++
        if inputRenamed && s.inputsOn then s.declareNames t true i else []) = none := by
  apply newest_onTrees_none
  intro t
  simp only [newest_append, apply_ite (newest _), newest_nil, newest_declareNames s t i _ hp,
    ite_self, Option.or_none]

theorem newest_updateChannel (i : Channel) {p : SkPath} (hp : p.leaf = .state) :
    newest (Publish.on p) (s.updateChannel cfg io i).2 =
      if s.notifPath p.tree i = p then
        if s.treeOn p.tree && s.renotifies cfg io i then
          some (noteOf (cfg.bank.inputs i) (s.configuredBy cfg i)) else none
      else none := by
  have hold : (s.withNames cfg i).alarmConfigured i = s.alarmConfigured i := by
    simp [alarmConfigured, withNames, inputsOn, inputBankUsable]
  have hchanged : (s.withNames cfg i).alarmSettingChanged cfg i = s.alarmSettingChanged cfg i := by
    simp [alarmSettingChanged, withNames]
  have hnew : ((s.withNames cfg i).withAlarm cfg i).alarmConfigured i = s.configuredBy cfg i := by
    simp [alarmConfigured, configuredBy, withNames, withAlarm, inputsOn, inputBankUsable]
  have hown : ((s.withNames cfg i).withAlarm cfg i).bank.inputs i = cfg.bank.inputs i := by
    simp [withNames, withAlarm]
  have hnotified : newest (Publish.on p)
      (((s.withNames cfg i).withAlarm cfg i).onTrees fun t =>
        ((s.withNames cfg i).withAlarm cfg i).publishNotification t i (s.configuredBy cfg i)) =
      if s.treeOn p.tree = true then
        if s.notifPath p.tree i = p then
          some (noteOf (cfg.bank.inputs i) (s.configuredBy cfg i)) else none
      else none := by
    rw [newest_onTrees]
    · rw [newest_publishNotification, hown]
      rfl
    · intro t ht
      rw [newest_publishNotification, if_neg]
      rintro rfl
      exact ht rfl
  unfold updateChannel
  dsimp only
  rw [newest_append, newest_renamed _ _ _ _ hp, Option.or_none, hold, hchanged, hnew,
    apply_ite (newest _), hnotified]
  change (if s.renotifies cfg io i = true then _ else _) = _
  cases s.renotifies cfg io i <;> cases s.treeOn p.tree <;> simp

/-- A pass has done for its own input what there was to do, and nothing for
another. -/
theorem updateChannel_renotifies (i j : Channel) :
    (s.updateChannel cfg io i).1.renotifies cfg io j =
      if j = i then false else s.renotifies cfg io j := by
  rw [updateChannel_state]
  by_cases hj : j = i
  · simp [renotifies, alarmSettingChanged, hj]
  · simp [renotifies, alarmSettingChanged, alarmConfigured, configuredBy, inputsOn,
      inputBankUsable, hj]

theorem newest_updateChannels_relay (u : Tree) (j : Channel) :
    newest (Publish.on (s.relayPath u j)) (s.updateChannels cfg io).2 = none := by
  have hp : (s.relayPath u j).leaf = .state := rfl
  refine forEach_frame (updatePass cfg io)
    (fun r => newest (Publish.on (s.relayPath u j)) r.2) (fun i r => ?_) (s, [])
  have hne : r.1.notifPath (s.relayPath u j).tree i ≠ s.relayPath u j := by
    intro h
    cases congrArg SkPath.notification h
  rw [updatePass, newest_append, newest_updateChannel cfg io _ _ hp, if_neg hne, Option.none_or]

theorem newest_updateChannels_notif (u : Tree) (j : Channel) :
    newest (Publish.on (s.notifPath u j)) (s.updateChannels cfg io).2 =
      if s.treeOn u && s.renotifies cfg io j then
        some (noteOf (cfg.bank.inputs j) (s.configuredBy cfg j)) else none := by
  have hp : (s.notifPath u j).leaf = .state := rfl
  have hpass : ∀ i (r : SkPublisher × List Publish),
      (updatePass cfg io i r).1.notifPath u j = r.1.notifPath u j ∧
      (updatePass cfg io i r).1.treeOn u = r.1.treeOn u ∧
      (updatePass cfg io i r).1.configuredBy cfg j = r.1.configuredBy cfg j := by
    intro i r
    rw [updatePass, updateChannel_state]
    exact ⟨rfl, rfl, rfl⟩
  -- What the own pass publishes depends on nothing that another pass changes.
  have hown := forEach_own (updatePass cfg io) (fun r => (r.1.notifPath u j, r.1.treeOn u,
    r.1.configuredBy cfg j, r.1.renotifies cfg io j,
    newest (Publish.on (s.notifPath u j)) r.2)) j ?_ ?_ (s, [])
  · have hlast := congrArg (fun v => v.2.2.2.2) hown
    dsimp only at hlast
    rw [updateChannels, hlast, updatePass, newest_append, newest_updateChannel cfg io _ _ hp]
    simp [notifPath, makeNotifPath, makePath]
  · intro i hi r
    obtain ⟨hpath, htree, hconf⟩ := hpass i r
    have hne : r.1.notifPath u i ≠ s.notifPath u j := fun h => hi (congrArg SkPath.channel h)
    have hnew : newest (Publish.on (s.notifPath u j)) (updatePass cfg io i r).2 =
        newest (Publish.on (s.notifPath u j)) r.2 := by
      rw [updatePass, newest_append, newest_updateChannel cfg io _ _ hp]
      exact (congrArg (Option.or · _) (if_neg hne)).trans Option.none_or
    have hre : (updatePass cfg io i r).1.renotifies cfg io j = r.1.renotifies cfg io j := by
      rw [updatePass, updateChannel_renotifies, if_neg (Ne.symm hi)]
    rw [hpath, htree, hconf, hnew, hre]
  · intro r q h
    simp only [Prod.mk.injEq] at h
    obtain ⟨hpath, htree, hconf, hre, hnew⟩ := h
    have hpath' : r.1.notifPath (s.notifPath u j).tree j = q.1.notifPath (s.notifPath u j).tree j :=
      hpath
    have htree' : r.1.treeOn (s.notifPath u j).tree = q.1.treeOn (s.notifPath u j).tree := htree
    obtain ⟨hr₁, hr₂, hr₃⟩ := hpass j r
    obtain ⟨hq₁, hq₂, hq₃⟩ := hpass j q
    rw [hr₁, hr₂, hr₃, hq₁, hq₂, hq₃, hpath, htree, hconf]
    simp only [updatePass, newest_append, newest_updateChannel cfg io _ _ hp,
      updateChannel_renotifies, hpath', htree', hconf, hre, hnew]

theorem newest_updateConfig (p : SkPath) (hp : p.leaf = .state) :
    newest (Publish.on p) (s.skBridgeUpdateConfig cfg io).2 =
      newest (Publish.on p) (s.updateChannels cfg io).2 := by
  unfold skBridgeUpdateConfig
  dsimp only
  by_cases h : (s.updateChannels cfg io).1.bank.skRepublishS = cfg.bank.skRepublishS
  · rw [if_neg (by simp [withTimer, h])]
  · rw [if_pos (by simp [withTimer, h]), newest_append]
    split_ifs
    · rw [newest_declareAll _ hp, Option.none_or]
    · rfl

end Updates

/-- What only `sk_bridge_start` decides. -/
structure Keeps (s s' : SkPublisher) : Prop where
  started : s'.started = s.started
  trees : s'.treeOn = s.treeOn
  bankId : s'.bank.bankId = s.bank.bankId
  inputBankId : s'.bank.inputBankId = s.bank.inputBankId

theorem Keeps.refl (s : SkPublisher) : Keeps s s := ⟨rfl, rfl, rfl, rfl⟩

theorem Keeps.relayPath {s s' : SkPublisher} (h : Keeps s s') (u : Tree) (j : Channel) :
    s'.relayPath u j = s.relayPath u j := by
  simp [SkPublisher.relayPath, makePath, h.bankId]

theorem Keeps.notifPath {s s' : SkPublisher} (h : Keeps s s') (u : Tree) (j : Channel) :
    s'.notifPath u j = s.notifPath u j := by
  simp [SkPublisher.notifPath, makeNotifPath, makePath, h.inputBankId]

theorem Keeps.inputsOn {s s' : SkPublisher} (h : Keeps s s') : s'.inputsOn = s.inputsOn := by
  simp [SkPublisher.inputsOn, inputBankUsable, h.bankId, h.inputBankId]

theorem updateConfig_keeps (cfg : BoardConfig) (io : SkIo) (s : SkPublisher) :
    Keeps s (s.skBridgeUpdateConfig cfg io).1 := by
  rw [updateConfig_state]
  exact ⟨rfl, rfl, rfl, rfl⟩

theorem withTimer_keeps (timer : SkBridge) (s : SkPublisher) (h : timer.cfg = s.cfg) :
    Keeps s (s.withTimer timer) := by
  refine ⟨rfl, ?_, rfl, rfl⟩
  funext t
  cases t <;> simp [treeOn, withTimer, h]

theorem streamTimer_keeps (connected : Bool) (now : Ms) (s : SkPublisher) :
    Keeps s (s.withTimer (RelayBoard.skBridgeStreamChanged connected now s.toSkBridge)) := by
  apply withTimer_keeps
  unfold RelayBoard.skBridgeStreamChanged
  split_ifs <;> rfl

theorem tickTimer_keeps (now : Ms) (s : SkPublisher) :
    Keeps s (s.withTimer (RelayBoard.skBridgeTick now s.toSkBridge).2) :=
  s.withTimer_keeps _ (skBridgeTick_keeps now s.toSkBridge).1

theorem streamChanged_keeps (connected : Bool) (io : SkIo) (s : SkPublisher) :
    Keeps s (s.skBridgeStreamChanged connected io).1 := by
  have hk := s.streamTimer_keeps connected io.now
  unfold skBridgeStreamChanged
  dsimp only
  split_ifs
  · exact ⟨hk.started, hk.trees, hk.bankId, hk.inputBankId⟩
  · exact hk

theorem tick_keeps (io : SkIo) (s : SkPublisher) : Keeps s (s.skBridgeTick io).2.1 := by
  have hk := s.tickTimer_keeps io.now
  unfold skBridgeTick
  dsimp only
  split_ifs
  · exact ⟨hk.started, hk.trees, hk.bankId, hk.inputBankId⟩
  · exact hk

end SkPublisher

def SkOp.isStart : SkOp → Bool
  | .start _ _ => true
  | _ => false

theorem perform_keeps (op : SkOp) (hop : op.isStart = false) (io : SkIo) (s : SkPublisher) :
    s.Keeps (op.perform io s).state := by
  cases op with
  | start cfg putErr => cases hop
  | updateConfig cfg => exact s.updateConfig_keeps cfg io
  | relayChanged channel => exact .refl s
  | inputChanged i on => exact .refl s
  | streamChanged connected => exact s.streamChanged_keeps connected io
  | tick => exact s.tick_keeps io

end RelayBoard
