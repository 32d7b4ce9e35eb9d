import RelayBoard.Counters
import RelayBoard.Lib.Journal
import RelayBoard.SkBridge
import RelayBoard.SkPaths

/-!
# Publishing to SignalK

All of `sk_bridge.c` but its handling of PUT requests. Each public function
runs under the bridge's lock from beginning to end, so a call is one step; what
it reads through `sk_bridge_io_t` is read once. `sk_lost` is called after the
lock is given back. The calls of the SignalK client are recorded in order.
-/

set_option autoImplicit false

namespace RelayBoard
open BitVec Lib.Loops Lib.Journal

/-- What `sk_bridge_io_t` answers during a call. -/
structure SkIo where
  relayMask : Mask
  inputsReady : Bool
  inputMask : Mask
  now : Ms
  relayCounters : Channel → CountersChannel
  inputCounters : Channel → CountersChannel

def SkIo.quiet : SkIo := ⟨0, false, 0, 0, fun _ => ⟨0, 0⟩, fun _ => ⟨0, 0⟩⟩

inductive SkValue where
  | number (n : ℕ)
  | string (text : List Byte)
  | json (text : List Byte)
  deriving DecidableEq, Repr

/-- The calls of `sk_api_t`. -/
inductive Publish where
  | value (path : SkPath) (v : SkValue)
  | declareMeta (path : SkPath) (json : List Byte) (periodMs : Ms)
  | putRegister (path : SkPath) (channel : Channel)
  deriving DecidableEq, Repr

def Publish.on (path : SkPath) : Publish → Option SkValue
  | .value p v => if p = path then some v else none
  | _ => none

/-- The rest of the static struct of `sk_bridge.c`. -/
structure SkPublisher extends SkBridge where
  bank : BankCfg
  started : Bool
  republishedAt : Ms

/-- Static storage after `sk_bridge_init`. -/
def SkPublisher.zero : SkPublisher := ⟨.zero, .zero, false, 0#32⟩

def InputAlarm.stateStr : InputAlarm → List Byte
  | .warn => ascii "warn"
  | .alarm => ascii "alarm"
  | .emergency => ascii "emergency"
  | .off => ascii "normal"

/-- The Notification object of `publish_notification`. -/
def notificationJson (input : InputCfg) (active : Bool) : List Byte :=
  if active then
    let msg := jsonEscape (2 * nameMax + 16) (alarmMessage (nameMax + 16) input)
    snprintf (2 * nameMax + 96) (ascii "\x7b\"state\":\"" ++ input.alarm.stateStr ++
      ascii "\",\"method\":[\"visual\",\"sound\"],\"message\":\"" ++ msg ++ ascii "\"\x7d")
  else snprintf (2 * nameMax + 96)
    (ascii "\x7b\"state\":\"normal\",\"method\":[],\"message\":\"\"\x7d")

/-- The metadata of `declare_names`. -/
def nameMeta (name : List Byte) : List Byte :=
  snprintf 160 (ascii "\x7b\"displayName\":\"" ++ jsonEscape (2 * nameMax + 8) name ++
    ascii ("\",\"manufacturer\":\x7b\"name\":\"Waveshare\"," ++
      "\"model\":\"ESP32-S3-ETH-8DI-8RO-C\"\x7d\x7d"))

namespace SkPublisher

section Publishing

variable (s : SkPublisher)

def treeOn : Tree → Bool
  | .switches => s.cfg.publishSwitchesTree
  | .controls => s.cfg.publishControlsTree

def inputsOn : Bool := inputBankUsable s.bank

def makePath (t : Tree) (input : Bool) (i : Channel) (leaf : Leaf) : SkPath :=
  ⟨false, t, input, if input then s.bank.inputBankId else s.bank.bankId, i, leaf⟩

def makeNotifPath (t : Tree) (i : Channel) (leaf : Leaf) : SkPath :=
  { s.makePath t true i leaf with notification := true }

def nameOf (input : Bool) (i : Channel) : List Byte :=
  if input then (s.bank.inputs i).name.bytes else (s.bank.relayNames i).bytes

def alarmConfigured (i : Channel) : Bool := s.inputsOn && (s.bank.inputs i).alarm != .off

def publishState (t : Tree) (input : Bool) (i : Channel) (on : Bool) : List Publish :=
  [.value (s.makePath t input i .state) (.number (if on then 1 else 0))]

def publishNotification (t : Tree) (i : Channel) (active : Bool) : List Publish :=
  [.value (s.makeNotifPath t i .state) (.json (notificationJson (s.bank.inputs i) active))]

/-- `(uint32_t)s.cfg.sk_republish_s * 1000`. -/
def everyMs : Ms := s.bank.skRepublishS.setWidth 32 * 1000#32

def declareNames (t : Tree) (input : Bool) (i : Channel) : List Publish :=
  .declareMeta (s.makePath t input i .state) (nameMeta (s.nameOf input i)) s.everyMs ::
    (if t = .controls then
      [.value (s.makePath t input i .name) (.string (s.nameOf input i))] else []) ++
    [.declareMeta (s.makePath t input i .runTime) (ascii "\x7b\"units\":\"s\"\x7d") 0#32]

def publishCounters (io : SkIo) (t : Tree) (input : Bool) (i : Channel) : List Publish :=
  let counters := if input then io.inputCounters i else io.relayCounters i
  [.value (s.makePath t input i .cycles) (.number counters.cycles.toNat),
    .value (s.makePath t input i .runTime) (.number counters.runtimeS.toNat)]

def publishDescription (t : Tree) (input : Bool) (i : Channel) : List Publish :=
  match t with
  | .switches => [.value (s.makePath t input i .order) (.number (i.val + 1))]
  | .controls =>
    [.value (s.makePath t input i .type) (.string (ascii "switch")),
      .value (s.makePath t input i .manufacturerName) (.string (ascii "Waveshare")),
      .value (s.makePath t input i .manufacturerModel)
        (.string (ascii "ESP32-S3-ETH-8DI-8RO-C"))]

def onTrees (f : Tree → List Publish) : List Publish :=
  [.switches, .controls].flatMap fun t => if s.treeOn t then f t else []

def onChannels (f : Channel → List Publish) : List Publish := (List.finRange 8).flatMap f

def channelStates (io : SkIo) (t : Tree) (i : Channel) : List Publish :=
  s.publishState t false i (io.relayMask.has i) ++ s.publishCounters io t false i ++
    if s.inputsOn && io.inputsReady then
      s.publishState t true i (io.inputMask.has i) ++ s.publishCounters io t true i ++
        if io.inputMask.has i && s.alarmConfigured i then s.publishNotification t i true else []
    else []

def channelAll (io : SkIo) (t : Tree) (i : Channel) : List Publish :=
  s.publishDescription t false i ++ s.publishState t false i (io.relayMask.has i) ++
    s.publishCounters io t false i ++
    if s.inputsOn && io.inputsReady then
      s.publishDescription t true i ++ s.publishState t true i (io.inputMask.has i) ++
        s.publishCounters io t true i ++
        if s.alarmConfigured i then s.publishNotification t i (io.inputMask.has i) else []
    else []

def publishStatesLocked (io : SkIo) : SkPublisher × List Publish :=
  ({ s with republishedAt := io.now }, s.onTrees fun t => onChannels (s.channelStates io t))

def publishAllLocked (io : SkIo) : SkPublisher × List Publish :=
  ({ s with republishedAt := io.now }, s.onTrees fun t => onChannels (s.channelAll io t))

def declareAll : List Publish :=
  s.onTrees fun t => onChannels fun i =>
    s.declareNames t false i ++ if s.inputsOn then s.declareNames t true i else []

end Publishing

/-- The loop that registers the PUT handlers stops at the first error. -/
def registerPuts (putErr : SkPath → Option EspErr) :
    List (SkPath × Channel) → List Publish × EspResult Unit
  | [] => ([], .ok ())
  | (path, i) :: rest =>
    match putErr path with
    | some e => ([.putRegister path i], .error e)
    | none =>
      let r := registerPuts putErr rest
      (.putRegister path i :: r.1, r.2)

def putPaths (s : SkPublisher) : List (SkPath × Channel) :=
  [.switches, .controls].flatMap fun t =>
    if s.treeOn t then (List.finRange 8).map fun i => (s.makePath t false i .state, i) else []

def withTimer (timer : SkBridge) (s : SkPublisher) : SkPublisher := { s with toSkBridge := timer }

/-- `s.cfg = *cfg`. -/
def takeConfig (cfg : BoardConfig) (s : SkPublisher) : SkPublisher :=
  { s.withTimer (RelayBoard.skBridgeStart cfg.toDeviceConfig s.toSkBridge) with bank := cfg.bank }

def skBridgeStart (cfg : BoardConfig) (putErr : SkPath → Option EspErr) (io : SkIo)
    (s : SkPublisher) : SkPublisher × List Publish × EspResult Unit :=
  let s := s.takeConfig cfg
  let declared := s.declareAll
  let (s, published) := s.publishAllLocked io
  let (registered, err) := registerPuts putErr s.putPaths
  ({ s with started := true }, declared ++ published ++ registered, err)

/-- The two `memcpy` of names in `sk_bridge_update_config`. -/
def withNames (cfg : BoardConfig) (i : Channel) (s : SkPublisher) : SkPublisher :=
  { s with bank := { s.bank with
    relayNames := Function.update s.bank.relayNames i (cfg.bank.relayNames i)
    inputs := Function.update s.bank.inputs i
      { s.bank.inputs i with name := (cfg.bank.inputs i).name } } }

/-- The alarm settings of an input that already has its new name. -/
def withAlarm (cfg : BoardConfig) (i : Channel) (s : SkPublisher) : SkPublisher :=
  { s with bank := { s.bank with
    inputs := Function.update s.bank.inputs i (cfg.bank.inputs i) } }

def alarmSettingChanged (cfg : BoardConfig) (i : Channel) (s : SkPublisher) : Bool :=
  (s.bank.inputs i).alarm != (cfg.bank.inputs i).alarm ||
    (s.bank.inputs i).alarmMsg != (cfg.bank.inputs i).alarmMsg

/-- One pass of the loop in `sk_bridge_update_config`. -/
def updateChannel (cfg : BoardConfig) (io : SkIo) (i : Channel) (s : SkPublisher) :
    SkPublisher × List Publish :=
  let relayRenamed := s.bank.relayNames i != cfg.bank.relayNames i
  let inputRenamed := (s.bank.inputs i).name != (cfg.bank.inputs i).name
  let named := s.withNames cfg i
  let renamed := named.onTrees fun t =>
    (if relayRenamed then named.declareNames t false i else []) ++
      if inputRenamed && named.inputsOn then named.declareNames t true i else []
  let oldConfigured := named.alarmConfigured i
  let changed := named.alarmSettingChanged cfg i
  let next := named.withAlarm cfg i
  let newConfigured := next.alarmConfigured i
  let notified :=
    if changed && (oldConfigured || newConfigured) && next.started && next.inputsOn &&
        io.inputsReady && io.inputMask.has i then
      next.onTrees fun t => next.publishNotification t i newConfigured
    else []
  (next, renamed ++ notified)

/-- The same behind what earlier passes have published. -/
def updatePass (cfg : BoardConfig) (io : SkIo) (i : Channel) (r : SkPublisher × List Publish) :
    SkPublisher × List Publish :=
  ((r.1.updateChannel cfg io i).1, r.2 ++ (r.1.updateChannel cfg io i).2)

def updateChannels (cfg : BoardConfig) (io : SkIo) (s : SkPublisher) :
    SkPublisher × List Publish :=
  forEach (updatePass cfg io) (s, [])

def skBridgeUpdateConfig (cfg : BoardConfig) (io : SkIo) (s : SkPublisher) :
    SkPublisher × List Publish :=
  let (s, sent) := s.updateChannels cfg io
  let s := s.withTimer (RelayBoard.skBridgeUpdateConfig cfg.toDeviceConfig s.toSkBridge)
  if s.bank.skRepublishS != cfg.bank.skRepublishS then
    let s := { s with bank := { s.bank with skRepublishS := cfg.bank.skRepublishS } }
    (s, sent ++ if s.started then s.declareAll else [])
  else (s, sent)

def skBridgeRelayChanged (channel : ℕ) (io : SkIo) (s : SkPublisher) : List Publish :=
  if h : channel < 1 ∨ 8 < channel then []
  else
    let i : Channel := ⟨channel - 1, index_lt_of_not h⟩
    if s.started then s.onTrees fun t => s.publishState t false i (io.relayMask.has i) else []

def skBridgeInputChanged (i : Channel) (on : Bool) (s : SkPublisher) : List Publish :=
  (if s.started && s.inputsOn then
    s.onTrees fun t => s.publishDescription t true i ++ s.publishState t true i on else []) ++
  if s.started && s.alarmConfigured i then
    s.onTrees fun t => s.publishNotification t i on else []

def skBridgeStreamChanged (connected : Bool) (io : SkIo) (s : SkPublisher) :
    SkPublisher × List Publish :=
  let s := s.withTimer (RelayBoard.skBridgeStreamChanged connected io.now s.toSkBridge)
  if connected && s.started then s.publishAllLocked io else (s, [])

def republishDue (now : Ms) (s : SkPublisher) : Bool :=
  s.started && s.connectedOnce && !s.down && s.everyMs != 0#32 &&
    decide (s.everyMs ≤ now - s.republishedAt)

/-- Whether the tick calls `sk_lost`, and what it leaves and publishes. -/
def skBridgeTick (io : SkIo) (s : SkPublisher) : Bool × SkPublisher × List Publish :=
  let (fire, timer) := RelayBoard.skBridgeTick io.now s.toSkBridge
  let s := s.withTimer timer
  (fire, if s.republishDue io.now then s.publishStatesLocked io else (s, []))

end SkPublisher

inductive SkOp where
  | start (cfg : BoardConfig) (putErr : SkPath → Option EspErr)
  | updateConfig (cfg : BoardConfig)
  | relayChanged (channel : ℕ)
  | inputChanged (i : Channel) (on : Bool)
  | streamChanged (connected : Bool)
  | tick

structure SkResult where
  state : SkPublisher
  published : List Publish
  lost : Bool

def SkOp.perform (op : SkOp) (io : SkIo) (s : SkPublisher) : SkResult :=
  match op with
  | .start cfg putErr => let r := s.skBridgeStart cfg putErr io; ⟨r.1, r.2.1, false⟩
  | .updateConfig cfg => let r := s.skBridgeUpdateConfig cfg io; ⟨r.1, r.2, false⟩
  | .relayChanged channel => ⟨s, s.skBridgeRelayChanged channel io, false⟩
  | .inputChanged i on => ⟨s, s.skBridgeInputChanged i on, false⟩
  | .streamChanged connected => let r := s.skBridgeStreamChanged connected io; ⟨r.1, r.2, false⟩
  | .tick => let r := s.skBridgeTick io; ⟨r.2.1, r.2.2, r.1⟩

end RelayBoard
