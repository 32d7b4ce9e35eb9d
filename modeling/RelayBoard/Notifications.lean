import RelayBoard.SkReports

/-!
# Alarm notifications on SignalK

The server keeps the last notification published for an input. It should be
raised, with the severity and the message of the settings in force, while the
input is on and has an alarm, and normal otherwise. The message falls back to
the input's name, and a save that only renames a raised input publishes
nothing: every other sequence of calls keeps the notifications right.
-/

set_option autoImplicit false

namespace RelayBoard
open BitVec Lib.Loops Lib.Runs Lib.Journal

namespace SkPublisher

theorem newest_start_notif (cfg : BoardConfig) (putErr : SkPath → Option EspErr) (io : SkIo)
    (s : SkPublisher) (u : Tree) (j : Channel)
    (hu : (s.skBridgeStart cfg putErr io).1.treeOn u = true) :
    newest (Publish.on ((s.skBridgeStart cfg putErr io).1.notifPath u j))
        (s.skBridgeStart cfg putErr io).2.1 =
      if io.inputsReady && (s.takeConfig cfg).alarmConfigured j then
        some (noteOf (cfg.bank.inputs j) (io.inputMask.has j)) else none := by
  have hall := newest_publishAll_notif (s.takeConfig cfg) io u j
  have hu' : (s.takeConfig cfg).treeOn u = true := hu
  rw [if_pos hu'] at hall
  have hdeclared := newest_declareAll (s.takeConfig cfg)
    (p := (s.skBridgeStart cfg putErr io).1.notifPath u j) rfl
  unfold skBridgeStart at hdeclared ⊢
  dsimp only at hdeclared ⊢
  rw [newest_append, newest_append, newest_registerPuts, Option.none_or, hdeclared,
    Option.or_none]
  exact hall

theorem newest_inputChanged_notif (i j : Channel) (on : Bool) (u : Tree) (s : SkPublisher)
    (hs : s.started = true) (hu : s.treeOn u = true) :
    newest (Publish.on (s.notifPath u j)) (s.skBridgeInputChanged i on) =
      if i = j ∧ s.alarmConfigured j = true then some (noteOf (s.bank.inputs j) on) else none := by
  have hp : (s.notifPath u j).leaf = .state := rfl
  have hstate : ∀ t, newest (Publish.on (s.notifPath u j))
      (s.publishDescription t true i ++ s.publishState t true i on) = none := by
    intro t
    rw [newest_append, newest_publishDescription s t i true hp, newest_publishState,
      if_neg (makePath_ne_notifPath s t u i j true .state)]
    rfl
  have hnote : newest (Publish.on (s.notifPath u j))
      (s.onTrees fun t => s.publishNotification t i on) =
        if i = j then some (noteOf (s.bank.inputs j) on) else none := by
    rw [newest_onTrees]
    · simp only [newest_publishNotification, notifPath_eq_notifPath, notifPath_tree, hu, if_true,
        true_and]
      by_cases hij : i = j
      · rw [if_pos hij, if_pos hij, hij]
      · rw [if_neg hij, if_neg hij]
    · intro t ht
      rw [newest_publishNotification, if_neg]
      intro h
      exact ht ((notifPath_eq_notifPath s t u i j).mp h).1
  unfold skBridgeInputChanged
  rw [newest_append, apply_ite (newest _), apply_ite (newest _), newest_onTrees_none s _ _ hstate,
    hnote, hs]
  by_cases hij : i = j
  · subst hij
    cases s.alarmConfigured i <;> simp
  · simp [hij]

theorem newest_streamChanged_notif (connected : Bool) (io : SkIo) (s : SkPublisher) (u : Tree)
    (j : Channel) (hu : s.treeOn u = true) :
    newest (Publish.on (s.notifPath u j)) (s.skBridgeStreamChanged connected io).2 =
      if connected && s.started then
        if io.inputsReady && s.alarmConfigured j then
          some (noteOf (s.bank.inputs j) (io.inputMask.has j)) else none
      else none := by
  have hk := s.streamTimer_keeps connected io.now
  unfold skBridgeStreamChanged
  dsimp only
  rw [apply_ite Prod.snd, apply_ite (newest _), ← hk.notifPath, newest_publishAll_notif, hk.trees,
    if_pos hu]
  rfl

theorem newest_tick_notif (io : SkIo) (s : SkPublisher) (u : Tree) (j : Channel)
    (hu : s.treeOn u = true) :
    newest (Publish.on (s.notifPath u j)) (s.skBridgeTick io).2.2 =
      if (s.withTimer (RelayBoard.skBridgeTick io.now s.toSkBridge).2).republishDue io.now then
        if io.inputsReady && io.inputMask.has j && s.alarmConfigured j then
          some (noteOf (s.bank.inputs j) true) else none
      else none := by
  have hk := s.tickTimer_keeps io.now
  unfold skBridgeTick
  dsimp only
  rw [apply_ite Prod.snd, apply_ite (newest _), ← hk.notifPath, newest_publishStates_notif,
    hk.trees, if_pos hu]
  rfl

theorem newest_update_notif (cfg : BoardConfig) (io : SkIo) (s : SkPublisher) (u : Tree)
    (j : Channel) (hu : s.treeOn u = true) :
    newest (Publish.on (s.notifPath u j)) (s.skBridgeUpdateConfig cfg io).2 =
      if s.renotifies cfg io j then some (noteOf (cfg.bank.inputs j) (s.configuredBy cfg j))
      else none := by
  rw [s.newest_updateConfig cfg io _ rfl, newest_updateChannels_notif, hu, Bool.true_and]

theorem newest_relayChanged_notif (channel : ℕ) (io : SkIo) (s : SkPublisher) (u : Tree)
    (j : Channel) :
    newest (Publish.on (s.notifPath u j)) (s.skBridgeRelayChanged channel io) = none := by
  unfold skBridgeRelayChanged
  split_ifs with hc hs
  · rfl
  · apply newest_onTrees_none
    intro t
    rw [newest_publishState, if_neg (makePath_ne_notifPath s t u _ j false .state)]
  · rfl

end SkPublisher

/-- The bridge among the inputs: their mask, and the input settings it was last
handed, at the start or by a save. -/
structure AlarmWorld where
  bridge : SkPublisher
  inputs : Mask
  settings : Channel → InputCfg

/-- A call of the bridge; `sk_bridge_input_changed` comes with the change it
tells of. -/
abbrev AlarmCall := SkOp × SkIo

def SkOp.inputsAfter (m : Mask) : SkOp → Mask
  | .inputChanged i on => if on then m ||| single i else m &&& ~~~single i
  | _ => m

def SkOp.settingsAfter (old : Channel → InputCfg) : SkOp → Channel → InputCfg
  | .start cfg _ => cfg.bank.inputs
  | .updateConfig cfg => cfg.bank.inputs
  | _ => old

/-- Every configuration that the bridge starts with has its own input bank. -/
def SkOp.Usable : SkOp → Prop
  | .start cfg _ => inputBankUsable cfg.bank = true
  | _ => True

namespace AlarmWorld

def io (w : AlarmWorld) (c : AlarmCall) : SkIo :=
  { c.2 with inputsReady := true, inputMask := c.1.inputsAfter w.inputs }

def step (w : AlarmWorld) (c : AlarmCall) : AlarmWorld where
  bridge := (c.1.perform (w.io c) w.bridge).state
  inputs := c.1.inputsAfter w.inputs
  settings := c.1.settingsAfter w.settings

def publishes (w : AlarmWorld) (c : AlarmCall) : List Publish :=
  (c.1.perform (w.io c) w.bridge).published

def boot (inputs : Mask) : AlarmWorld := ⟨.zero, inputs, fun _ => .zero⟩

/-- The last notification of an input says what it should: raised as the
settings have it while the input is on with an alarm, otherwise normal if one
was ever published. -/
def Right (input : InputCfg) (on : Bool) (last : Option SkValue) : Prop :=
  if on = true ∧ input.alarm ≠ .off then last = some (noteOf input true)
  else last = none ∨ last = some (noteOf input false)

def Fresh (w : AlarmWorld) (sent : List Publish) : Prop :=
  ∀ u, w.bridge.treeOn u = true → ∀ j,
    Right (w.settings j) (w.inputs.has j) (newest (Publish.on (w.bridge.notifPath u j)) sent)

/-- A save that gives an input another name and the same alarm, with no message
of its own. -/
def renames (old new : InputCfg) : Bool :=
  new.alarm == old.alarm && new.alarmMsg == old.alarmMsg && new.alarmMsg.bytes == [] &&
    new.name != old.name

/-- A save renames no input that is on with an alarm whose message is its name;
a start takes no alarm away from an input whose notification stands raised. -/
def Keeps (w : AlarmWorld) (sent : List Publish) (c : AlarmCall) : Prop :=
  match c.1 with
  | .updateConfig cfg => w.bridge.started = true → ∀ j, w.inputs.has j = true →
      (w.settings j).alarm ≠ .off → renames (w.settings j) (cfg.bank.inputs j) = false
  | .start cfg _ => ∀ u, (w.bridge.takeConfig cfg).treeOn u = true → ∀ j,
      (cfg.bank.inputs j).alarm = .off →
      newest (Publish.on ((w.bridge.takeConfig cfg).notifPath u j)) sent = none ∨
        newest (Publish.on ((w.bridge.takeConfig cfg).notifPath u j)) sent =
          some (noteOf (cfg.bank.inputs j) false)
  | _ => True

instance (c : AlarmCall) : Decidable c.1.Usable :=
  match c with
  | ⟨.start cfg _, _⟩ => inferInstanceAs (Decidable (inputBankUsable cfg.bank = true))
  | ⟨.updateConfig _, _⟩ => inferInstanceAs (Decidable True)
  | ⟨.relayChanged _, _⟩ => inferInstanceAs (Decidable True)
  | ⟨.inputChanged _ _, _⟩ => inferInstanceAs (Decidable True)
  | ⟨.streamChanged _, _⟩ => inferInstanceAs (Decidable True)
  | ⟨.tick, _⟩ => inferInstanceAs (Decidable True)

instance (input : InputCfg) (on : Bool) (last : Option SkValue) : Decidable (Right input on last) :=
  inferInstanceAs (Decidable (if on = true ∧ input.alarm ≠ .off then last = some (noteOf input true)
    else last = none ∨ last = some (noteOf input false)))

instance (w : AlarmWorld) (sent : List Publish) (c : AlarmCall) : Decidable (w.Keeps sent c) :=
  match c with
  | ⟨.start _ _, _⟩ => inferInstanceAs (Decidable (∀ _, _ → ∀ _, _ → _ ∨ _))
  | ⟨.updateConfig _, _⟩ => inferInstanceAs (Decidable (_ → ∀ _, _ → _ → _ = false))
  | ⟨.relayChanged _, _⟩ => inferInstanceAs (Decidable True)
  | ⟨.inputChanged _ _, _⟩ => inferInstanceAs (Decidable True)
  | ⟨.streamChanged _, _⟩ => inferInstanceAs (Decidable True)
  | ⟨.tick, _⟩ => inferInstanceAs (Decidable True)

instance (w : AlarmWorld) (sent : List Publish) : Decidable (w.Fresh sent) :=
  inferInstanceAs (Decidable (∀ _, _ → ∀ _, _))

/-- A published notification is right if it is raised just when it should be. -/
theorem right_of_published (input : InputCfg) (on active : Bool) (old : Option SkValue)
    (h : active = true ↔ on = true ∧ input.alarm ≠ .off) :
    Right input on ((some (noteOf input active)).or old) := by
  unfold Right
  rw [Option.some_or]
  cases active with
  | true => rw [if_pos (h.mp rfl)]
  | false => rw [if_neg (fun hc => nomatch h.mpr hc)]; exact .inr rfl

/-- Settings with the same notification are as right as the old ones. -/
theorem Right.of_same {old new : InputCfg} {on : Bool} {last : Option SkValue}
    (h : Right old on last) (halarm : new.alarm = old.alarm)
    (hnote : on = true → new.alarm ≠ .off → noteOf new true = noteOf old true) :
    Right new on last := by
  unfold Right at h ⊢
  by_cases hc : on = true ∧ new.alarm ≠ .off
  · rw [if_pos hc, hnote hc.1 hc.2]
    rwa [if_pos ⟨hc.1, halarm ▸ hc.2⟩] at h
  · rw [if_neg hc]
    rwa [if_neg (fun ho => hc ⟨ho.1, halarm ▸ ho.2⟩)] at h

structure Inv (w : AlarmWorld) (sent : List Publish) : Prop where
  settings : w.settings = w.bridge.bank.inputs
  usable : w.bridge.started = true → w.bridge.inputsOn = true
  trees : w.bridge.started = false → ∀ u, w.bridge.treeOn u = false
  fresh : Fresh w sent

/-- For a call that is not a start it is enough to follow each input on each
enabled tree. -/
theorem step_inv_of (w : AlarmWorld) (sent : List Publish) (c : AlarmCall) (h : Inv w sent)
    (hop : c.1.isStart = false)
    (hsettings : c.1.settingsAfter w.settings = (w.step c).bridge.bank.inputs)
    (hright : w.bridge.started = true → w.bridge.inputsOn = true → ∀ u,
      w.bridge.treeOn u = true → ∀ j, Right (w.settings j) (w.inputs.has j)
        (newest (Publish.on (w.bridge.notifPath u j)) sent) →
      Right (c.1.settingsAfter w.settings j) ((c.1.inputsAfter w.inputs).has j)
        ((newest (Publish.on (w.bridge.notifPath u j)) (w.publishes c)).or
          (newest (Publish.on (w.bridge.notifPath u j)) sent))) :
    Inv (w.step c) (sent ++ w.publishes c) := by
  have hk := perform_keeps c.1 hop (w.io c) w.bridge
  refine ⟨hsettings, fun hs => hk.inputsOn.trans (h.usable (hk.started.symm.trans hs)),
    fun hs u => (congrFun hk.trees u).trans (h.trees (hk.started.symm.trans hs) u),
    fun u hu j => ?_⟩
  have hu' : w.bridge.treeOn u = true := (congrFun hk.trees u).symm.trans hu
  have hs : w.bridge.started = true := by
    cases hs : w.bridge.started with
    | true => rfl
    | false => exact absurd hu' (by rw [h.trees hs u]; exact Bool.false_ne_true)
  change Right (c.1.settingsAfter w.settings j) ((c.1.inputsAfter w.inputs).has j)
    (newest (Publish.on ((c.1.perform (w.io c) w.bridge).state.notifPath u j))
      (sent ++ w.publishes c))
  rw [hk.notifPath, newest_append]
  exact hright hs (h.usable hs) u hu' j (h.fresh u hu' j)

/-- A quiet input is right under any settings that leave it quiet. -/
theorem Right.of_quiet {old new : InputCfg} {on : Bool} {last : Option SkValue}
    (h : Right old on last) (hold : ¬(on = true ∧ old.alarm ≠ .off))
    (hnew : ¬(on = true ∧ new.alarm ≠ .off)) : Right new on last := by
  unfold Right at h ⊢
  rw [if_neg hold] at h
  rw [if_neg hnew]
  exact h

/-- With alarm and message unchanged the notification changes only by a rename. -/
theorem noteOf_same {old new : InputCfg} (halarm : new.alarm = old.alarm)
    (hmsg : new.alarmMsg = old.alarmMsg) (hname : renames old new = false) :
    noteOf new true = noteOf old true := by
  have hmessage : alarmMessage (nameMax + 16) new = alarmMessage (nameMax + 16) old := by
    unfold alarmMessage
    rw [hmsg]
    by_cases hempty : old.alarmMsg.bytes = []
    · have hsame : new.name = old.name := by simpa [renames, halarm, hmsg, hempty] using hname
      rw [hsame]
    · rw [if_pos hempty, if_pos hempty]
  simp only [noteOf, notificationJson, halarm, hmessage]

/-- A save tells of an input that is on and whose alarm it changes, unless the
input has none before and after. -/
theorem renotifies_iff (w : AlarmWorld) (cfg : BoardConfig) (io : SkIo)
    (hs : w.bridge.started = true) (hon : w.bridge.inputsOn = true) (j : Channel) :
    w.bridge.renotifies cfg (w.io (.updateConfig cfg, io)) j = true ↔
      w.bridge.alarmSettingChanged cfg j = true ∧ w.inputs.has j = true ∧
        ((w.bridge.bank.inputs j).alarm ≠ .off ∨ (cfg.bank.inputs j).alarm ≠ .off) := by
  simp only [SkPublisher.renotifies, SkPublisher.alarmConfigured, SkPublisher.configuredBy,
    AlarmWorld.io, SkOp.inputsAfter, hs, hon, Bool.true_and, Bool.and_true, Bool.and_eq_true,
    Bool.or_eq_true, bne_iff_ne]
  tauto

theorem updateConfig_inv (w : AlarmWorld) (sent : List Publish) (cfg : BoardConfig) (io : SkIo)
    (h : Inv w sent) (hkeeps : Keeps w sent (.updateConfig cfg, io)) :
    Inv (w.step (.updateConfig cfg, io)) (sent ++ w.publishes (.updateConfig cfg, io)) := by
  refine w.step_inv_of sent _ h rfl ?_ ?_
  · change cfg.bank.inputs = (w.bridge.skBridgeUpdateConfig cfg _).1.bank.inputs
    rw [SkPublisher.updateConfig_state]
  · intro hs hon u hu j hright
    have hnew := w.bridge.newest_update_notif cfg (w.io (.updateConfig cfg, io)) u j hu
    change Right (cfg.bank.inputs j) (w.inputs.has j) ((newest _
      (w.bridge.skBridgeUpdateConfig cfg (w.io (.updateConfig cfg, io))).2).or _)
    have hre := w.renotifies_iff cfg io hs hon j
    have hrename := hkeeps hs j
    rw [h.settings] at hright hrename
    rw [hnew]
    by_cases hc : w.bridge.renotifies cfg (w.io (.updateConfig cfg, io)) j = true
    · rw [if_pos hc]
      refine right_of_published _ _ _ _ ?_
      simp [SkPublisher.configuredBy, hon, (hre.mp hc).2.1]
    · rw [if_neg hc, Option.none_or]
      by_cases hchanged : w.bridge.alarmSettingChanged cfg j = true
      · have hquiet : ∀ a : InputAlarm, a = (w.bridge.bank.inputs j).alarm ∨
            a = (cfg.bank.inputs j).alarm → ¬(w.inputs.has j = true ∧ a ≠ .off) := by
          rintro a (rfl | rfl) ⟨hmask, ha⟩
          · exact hc (hre.mpr ⟨hchanged, hmask, .inl ha⟩)
          · exact hc (hre.mpr ⟨hchanged, hmask, .inr ha⟩)
        exact hright.of_quiet (hquiet _ (.inl rfl)) (hquiet _ (.inr rfl))
      · have hsame : (cfg.bank.inputs j).alarm = (w.bridge.bank.inputs j).alarm ∧
            (cfg.bank.inputs j).alarmMsg = (w.bridge.bank.inputs j).alarmMsg := by
          have hboth : (w.bridge.bank.inputs j).alarm = (cfg.bank.inputs j).alarm ∧
              (w.bridge.bank.inputs j).alarmMsg = (cfg.bank.inputs j).alarmMsg := by
            simpa [SkPublisher.alarmSettingChanged] using hchanged
          exact ⟨hboth.1.symm, hboth.2.symm⟩
        exact hright.of_same hsame.1 (fun hmask ha =>
          noteOf_same hsame.1 hsame.2 (hrename hmask (hsame.1 ▸ ha)))

theorem inputChanged_inv (w : AlarmWorld) (sent : List Publish) (i : Channel) (on : Bool)
    (io : SkIo) (h : Inv w sent) :
    Inv (w.step (.inputChanged i on, io)) (sent ++ w.publishes (.inputChanged i on, io)) := by
  refine w.step_inv_of sent _ h rfl h.settings ?_
  intro hs hon u hu j hright
  have hnew := w.bridge.newest_inputChanged_notif i j on u hs hu
  have hmask : (SkOp.inputsAfter w.inputs (.inputChanged i on)).has j =
      if j = i then on else w.inputs.has j := by
    unfold SkOp.inputsAfter
    by_cases hj : j = i <;> cases on <;> simp [hj]
  change Right (w.settings j) ((SkOp.inputsAfter w.inputs (.inputChanged i on)).has j)
    ((newest _ (w.bridge.skBridgeInputChanged i on)).or _)
  rw [hnew, hmask, h.settings]
  rw [h.settings] at hright
  by_cases hj : j = i
  · subst hj
    rw [if_pos rfl]
    by_cases hoff : (w.bridge.bank.inputs j).alarm = .off
    · rw [if_neg (by simp [SkPublisher.alarmConfigured, hoff]), Option.none_or]
      unfold Right at hright ⊢
      rw [if_neg (fun hc => hc.2 hoff)] at hright ⊢
      exact hright
    · rw [if_pos (by simp [SkPublisher.alarmConfigured, hon, hoff])]
      exact right_of_published _ _ _ _ (by simp [hoff])
  · rw [if_neg hj, if_neg (fun hc => hj hc.1.symm), Option.none_or]
    exact hright

theorem streamChanged_inv (w : AlarmWorld) (sent : List Publish) (connected : Bool) (io : SkIo)
    (h : Inv w sent) : Inv (w.step (.streamChanged connected, io))
      (sent ++ w.publishes (.streamChanged connected, io)) := by
  refine w.step_inv_of sent _ h rfl ?_ ?_
  · change w.settings = (w.bridge.skBridgeStreamChanged connected _).1.bank.inputs
    unfold SkPublisher.skBridgeStreamChanged
    rw [h.settings, apply_ite Prod.fst]
    split_ifs <;> rfl
  · intro hs hon u hu j hright
    have hnew := w.bridge.newest_streamChanged_notif connected
      (w.io (.streamChanged connected, io)) u j hu
    change Right (w.settings j) (w.inputs.has j) ((newest _
      (w.bridge.skBridgeStreamChanged connected (w.io (.streamChanged connected, io))).2).or _)
    rw [hnew, h.settings]
    rw [h.settings] at hright
    by_cases hoff : (w.bridge.bank.inputs j).alarm = .off
    · simpa [SkPublisher.alarmConfigured, hoff] using hright
    · cases connected with
      | false => simpa using hright
      | true =>
        have hconf : w.bridge.alarmConfigured j = true := by
          simp [SkPublisher.alarmConfigured, hon, hoff]
        rw [hs, Bool.true_and, if_pos rfl, hconf, if_pos (by simp [AlarmWorld.io])]
        exact right_of_published _ _ _ _ (by simp [hoff, AlarmWorld.io, SkOp.inputsAfter])

theorem tick_inv (w : AlarmWorld) (sent : List Publish) (io : SkIo) (h : Inv w sent) :
    Inv (w.step (.tick, io)) (sent ++ w.publishes (.tick, io)) := by
  refine w.step_inv_of sent _ h rfl ?_ ?_
  · change w.settings = (w.bridge.skBridgeTick _).2.1.bank.inputs
    unfold SkPublisher.skBridgeTick
    dsimp only
    rw [h.settings, apply_ite Prod.fst]
    split_ifs <;> rfl
  · intro hs hon u hu j hright
    have hnew := w.bridge.newest_tick_notif (w.io (.tick, io)) u j hu
    change Right (w.settings j) (w.inputs.has j)
      ((newest _ (w.bridge.skBridgeTick (w.io (.tick, io))).2.2).or _)
    rw [hnew, h.settings]
    rw [h.settings] at hright
    split_ifs with hdue hc
    · simp only [Bool.and_eq_true] at hc
      have hmask : w.inputs.has j = true := hc.1.2
      have hoff : (w.bridge.bank.inputs j).alarm ≠ .off := by
        simpa [SkPublisher.alarmConfigured, hon] using hc.2
      exact right_of_published _ _ _ _ (by simp [hmask, hoff])
    · exact hright
    · exact hright

theorem start_inv (w : AlarmWorld) (sent : List Publish) (cfg : BoardConfig)
    (putErr : SkPath → Option EspErr) (io : SkIo) (husable : inputBankUsable cfg.bank = true)
    (hkeeps : Keeps w sent (.start cfg putErr, io)) :
    Inv (w.step (.start cfg putErr, io)) (sent ++ w.publishes (.start cfg putErr, io)) := by
  refine ⟨rfl, fun _ => husable, (fun hs => nomatch hs), fun u hu j => ?_⟩
  have hnew := w.bridge.newest_start_notif cfg putErr (w.io (.start cfg putErr, io)) u j hu
  change Right (cfg.bank.inputs j) (w.inputs.has j) (newest (Publish.on
    ((w.bridge.skBridgeStart cfg putErr (w.io (.start cfg putErr, io))).1.notifPath u j))
    (sent ++ (w.bridge.skBridgeStart cfg putErr (w.io (.start cfg putErr, io))).2.1))
  rw [newest_append, hnew]
  by_cases hoff : (cfg.bank.inputs j).alarm = .off
  · have hold := hkeeps u hu j hoff
    rw [if_neg (by simp [SkPublisher.alarmConfigured, SkPublisher.takeConfig, hoff]),
      Option.none_or]
    unfold Right
    rw [if_neg (fun hc => hc.2 hoff)]
    exact hold
  · have hconf : (w.bridge.takeConfig cfg).alarmConfigured j = true := by
      simp [SkPublisher.alarmConfigured, SkPublisher.takeConfig, SkPublisher.inputsOn, husable,
        hoff]
    rw [hconf, if_pos (by simp [AlarmWorld.io])]
    exact right_of_published _ _ _ _ (by simp [hoff, AlarmWorld.io, SkOp.inputsAfter])

theorem step_inv (w : AlarmWorld) (sent : List Publish) (c : AlarmCall) (husable : c.1.Usable)
    (h : Inv w sent) (hkeeps : Keeps w sent c) : Inv (w.step c) (sent ++ w.publishes c) := by
  obtain ⟨op, io⟩ := c
  cases op with
  | start cfg putErr => exact w.start_inv sent cfg putErr io husable hkeeps
  | updateConfig cfg => exact w.updateConfig_inv sent cfg io h hkeeps
  | relayChanged channel =>
    refine w.step_inv_of sent _ h rfl h.settings (fun _ _ u _ j hright => ?_)
    change Right (w.settings j) (w.inputs.has j)
      ((newest _ (w.bridge.skBridgeRelayChanged channel _)).or _)
    rw [SkPublisher.newest_relayChanged_notif, Option.none_or]
    exact hright
  | inputChanged i on => exact w.inputChanged_inv sent i on io h
  | streamChanged connected => exact w.streamChanged_inv sent connected io h
  | tick => exact w.tick_inv sent io h

end AlarmWorld

open AlarmWorld in
/-- In every run without such a save or start the notifications are right after
each call. -/
theorem run_notifications_right (inputs : Mask) (cs : List AlarmCall)
    (husable : ∀ c ∈ cs, c.1.Usable)
    (hkeeps : ∀ e past, e :: past <:+ history AlarmWorld.step (.boot inputs) cs →
      e.1.Keeps (journal publishes past) e.2) :
    Fresh (run AlarmWorld.step (.boot inputs) cs)
      (journal publishes (history AlarmWorld.step (.boot inputs) cs)) := by
  have hstart : Inv (.boot inputs) (journal publishes []) := by
    refine ⟨rfl, (fun hs => nomatch hs), fun _ u => ?_, fun u hu => ?_⟩
    · cases u <;> rfl
    · cases u <;> cases hu
  refine (run_induction_past AlarmWorld.step (I := fun w past => Inv w (journal publishes past))
    (P := fun w past c => c.1.Usable ∧ w.Keeps (journal publishes past) c) (.boot inputs) hstart
    (fun w past c hI hP => w.step_inv _ c hP.1 hI hP.2) cs (fun e past he => ⟨?_, ?_⟩)).fresh
  · exact husable e.2 (input_of_history _ _ _ e (he.subset (List.mem_cons_self ..)))
  · exact hkeeps e past he

/-- Whatever the calls, the notifications are right after each. -/
def NotificationsRight : Prop :=
  ∀ (inputs : Mask) (cs : List AlarmCall), (∀ c ∈ cs, c.1.Usable) →
    (run AlarmWorld.step (.boot inputs) cs).Fresh
      (journal AlarmWorld.publishes (history AlarmWorld.step (.boot inputs) cs))

def bilgeConfig (name : String) : BoardConfig :=
  { DeviceConfig.schemaDefault with
    bank := BankCfg.modifyInput { BankCfg.zero with inputBankId := 1#8 } 1
      (fun _ => ⟨.cut nameMax (ascii name), .warn, .empty nameMax⟩) }

/-- The input trips, and a save renames it. -/
def renamedRun : List AlarmCall :=
  [(.start (bilgeConfig "Bilge") fun _ => none, SkIo.quiet), (.inputChanged 0 true, SkIo.quiet),
    (.updateConfig (bilgeConfig "Aft bilge"), SkIo.quiet)]

/-- The server still shows "Bilge active". -/
theorem renamed_notification_stale : ¬NotificationsRight := by
  intro h
  have hstale := h 0#8 renamedRun (by decide +kernel) .switches (by decide +kernel) 0
  exact absurd hstale (by decide +kernel)

def renamedOffRun : List AlarmCall :=
  [(.start (bilgeConfig "Bilge") fun _ => none, SkIo.quiet), (.inputChanged 0 true, SkIo.quiet),
    (.inputChanged 0 false, SkIo.quiet), (.updateConfig (bilgeConfig "Aft bilge"), SkIo.quiet),
    (.inputChanged 0 true, SkIo.quiet)]

theorem renamed_off_right : (run AlarmWorld.step (.boot 0#8) renamedOffRun).Fresh
    (journal AlarmWorld.publishes (history AlarmWorld.step (.boot 0#8) renamedOffRun)) :=
  run_notifications_right 0#8 renamedOffRun (by decide +kernel)
    (forall_past_of_tails (by decide +kernel))

end RelayBoard
