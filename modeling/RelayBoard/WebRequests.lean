import RelayBoard.GroupCommands
import RelayBoard.Lib.Scanning
import RelayBoard.Text

/-!
# Requests of the relay page

What a request to `web_ui.c` does: which URIs name a channel, what a body has to
say, which relays are set or counters reset, and what is answered. A URI is
parsed in memory that ends with its zero, a body by a JSON library.
-/

set_option autoImplicit false

namespace RelayBoard
open Lib Lib.Scanning

/-- The channel at the pointer, what has to follow it, and then the end of the
path. -/
def parseChannelAt (suffix p : List Byte) : Option ℕ := do
  let c ← p[0]?
  if c < 0x31#8 ∨ 0x30#8 + BitVec.ofNat 8 boardChannels < c then return 0
  let p := p.drop 1
  if !(← startsWith suffix p) then return 0
  let stop ← p[suffix.length]?
  if stop ≠ 0x00#8 ∧ stop ≠ 0x3f#8 then return 0
  return (c - 0x30#8).toNat

/-- `web_ui_parse_channel`, and with `/counters/reset` after the channel
`web_ui_parse_reset_channel`; 0 for a URI that names no channel. -/
def parseUri (pre suffix uri : List Byte) : Option ℕ := do
  if !(← startsWith pre uri) then return 0
  if (← uri[pre.length]?) ≠ 0x2f#8 then return 0
  parseChannelAt suffix (uri.drop (pre.length + 1))

def resetSuffix : List Byte := ascii "/counters/reset"

def webUiParseChannel (pre uri : List Byte) : Option ℕ := parseUri pre [] uri

def webUiParseResetChannel (pre uri : List Byte) : Option ℕ := parseUri pre resetSuffix uri

def apiPath : List Byte := ascii "/api/v1/relays"

def inputsPath : List Byte := ascii "/api/v1/inputs"

/-- The path ends with channel `i` and the suffix; a query may follow. -/
def ChannelAt (suffix : List Byte) (i : Channel) (text : List Byte) : Prop :=
  ∃ query, text = digitChar (i.val + 1) :: (suffix ++ query) ∧
    (query = [] ∨ query.head? = some 0x3f#8)

/-- The URI names channel `i`. -/
def NamesChannel (pre suffix : List Byte) (i : Channel) (uri : List Byte) : Prop :=
  ∃ rest, uri = pre ++ 0x2f#8 :: rest ∧ ChannelAt suffix i rest

theorem digit_range : ∀ c : Byte, ¬(c < 0x31#8 ∨ 0x30#8 + BitVec.ofNat 8 boardChannels < c) →
    ∃ i : Channel, c = digitChar (i.val + 1) ∧ (c - 0x30#8).toNat = i.val + 1 := by
  decide +kernel

theorem range_digit : ∀ i : Channel, ¬(digitChar (i.val + 1) < 0x31#8 ∨
    0x30#8 + BitVec.ofNat 8 boardChannels < digitChar (i.val + 1)) ∧
      (digitChar (i.val + 1) - 0x30#8).toNat = i.val + 1 := by
  decide +kernel

theorem digitChar_inj : ∀ i j : Channel,
    digitChar (i.val + 1) = digitChar (j.val + 1) → i = j := by
  decide +kernel

/-- A channel is read exactly where there is one, and the read ends within the
text. -/
theorem parseChannelAt_terminated (suffix text : List Byte) (hsuffix : 0#8 ∉ suffix)
    (htext : 0#8 ∉ text) : ∃ n, parseChannelAt suffix (terminated text) = some n ∧
      n ≤ 8 ∧ ∀ i : Channel, n = i.val + 1 ↔ ChannelAt suffix i text := by
  have hnone : parseChannelAt suffix (terminated text) = some 0 →
      (∀ i : Channel, ¬ChannelAt suffix i text) →
      ∃ n, parseChannelAt suffix (terminated text) = some n ∧
        n ≤ 8 ∧ ∀ i : Channel, n = i.val + 1 ↔ ChannelAt suffix i text :=
    fun h hno => ⟨0, h, Nat.zero_le _, fun i => iff_of_false (by omega) (hno i)⟩
  cases text with
  | nil => exact hnone (by rfl) fun i ⟨query, h, _⟩ => by cases h
  | cons c text =>
    by_cases hc : c < 0x31#8 ∨ 0x30#8 + BitVec.ofNat 8 boardChannels < c
    · refine hnone ?_ fun i ⟨query, h, _⟩ => ?_
      · simp [parseChannelAt, hc]
      · obtain ⟨rfl, -⟩ := List.cons.inj h
        exact (range_digit i).1 hc
    · obtain ⟨i, rfl, hi⟩ := digit_range c hc
      obtain ⟨b, hstarts, hb⟩ := startsWith_terminated suffix text hsuffix
      cases b with
      | false =>
        refine hnone ?_ fun j ⟨query, h, _⟩ => ?_
        · simp [parseChannelAt, hstarts]
        · exact Bool.false_ne_true (hb.mpr ⟨query, (List.cons.inj h).2⟩)
      | true =>
        obtain ⟨query, rfl⟩ := hb.mp rfl
        obtain ⟨stop, hstop, hend⟩ := terminated_head query fun h => htext (by simp [h])
        have hread : (terminated (suffix ++ query))[suffix.length]? = some stop := by
          rw [terminated_append, List.getElem?_append_right le_rfl, Nat.sub_self, hstop]
        have hquery : (stop ≠ 0x00#8 ∧ stop ≠ 0x3f#8) ↔
            ¬(query = [] ∨ query.head? = some 0x3f#8) := by
          rw [not_or, ← hend]
          refine and_congr_right fun hne => not_congr ?_
          cases query with
          | nil => exact absurd (hend.mpr rfl) hne
          | cons d query =>
            obtain rfl : d = stop := Option.some.inj hstop
            simp
        by_cases hq : query = [] ∨ query.head? = some 0x3f#8
        · have hgo : ¬(stop ≠ 0x00#8 ∧ stop ≠ 0x3f#8) := fun h => hquery.mp h hq
          refine ⟨i.val + 1, ?_, i.isLt, fun j => ?_⟩
          · simp only [parseChannelAt, terminated_cons, List.getElem?_cons_zero, List.drop_one,
              List.tail_cons, Option.bind_eq_bind, Option.bind_some, if_neg hc, hstarts, hread,
              Bool.not_true, if_neg hgo, hi]
            rfl
          · constructor
            · intro h
              obtain rfl : i = j := Fin.ext (by omega)
              exact ⟨query, rfl, hq⟩
            · rintro ⟨other, h, -⟩
              rw [digitChar_inj i j (List.cons.inj h).1]
        · refine hnone ?_ fun j ⟨other, h, hother⟩ => ?_
          · have hno : stop ≠ 0x00#8 ∧ stop ≠ 0x3f#8 := hquery.mpr hq
            simp only [parseChannelAt, terminated_cons, List.getElem?_cons_zero, List.drop_one,
              List.tail_cons, Option.bind_eq_bind, Option.bind_some, if_neg hc, hstarts, hread,
              Bool.not_true, if_pos hno]
            rfl
          · obtain rfl := List.append_cancel_left (List.cons.inj h).2
            exact hq hother

/-- The URIs that are taken, each for its channel, and a read within every URI. -/
theorem parseUri_terminated (pre suffix text : List Byte) (hpre : 0#8 ∉ pre)
    (hsuffix : 0#8 ∉ suffix) (htext : 0#8 ∉ text) :
    ∃ n, parseUri pre suffix (terminated text) = some n ∧
      n ≤ 8 ∧ ∀ i : Channel, n = i.val + 1 ↔ NamesChannel pre suffix i text := by
  have hnone : parseUri pre suffix (terminated text) = some 0 →
      (∀ i : Channel, ¬NamesChannel pre suffix i text) →
      ∃ n, parseUri pre suffix (terminated text) = some n ∧
        n ≤ 8 ∧ ∀ i : Channel, n = i.val + 1 ↔ NamesChannel pre suffix i text :=
    fun h hno => ⟨0, h, Nat.zero_le _, fun i => iff_of_false (by omega) (hno i)⟩
  obtain ⟨b, hstarts, hb⟩ := startsWith_terminated pre text hpre
  cases b with
  | false =>
    refine hnone (by simp [parseUri, hstarts]) fun i ⟨rest, h, _⟩ => ?_
    exact Bool.false_ne_true (hb.mpr ⟨_, h⟩)
  | true =>
    obtain ⟨rest, rfl⟩ := hb.mp rfl
    obtain ⟨c, hc, hzero⟩ := terminated_head rest fun h => htext (by simp [h])
    have hread : (terminated (pre ++ rest))[pre.length]? = some c := by
      rw [terminated_append, List.getElem?_append_right le_rfl, Nat.sub_self, hc]
    by_cases hslash : c = 0x2f#8
    · cases rest with
      | nil =>
        rw [hslash] at hzero
        exact absurd (hzero.mpr rfl) (by decide)
      | cons d rest =>
        obtain rfl : d = 0x2f#8 := (Option.some.inj hc).trans hslash
        have hrest : (terminated (pre ++ 0x2f#8 :: rest)).drop (pre.length + 1) =
            terminated rest := by
          rw [terminated_append, List.drop_append, terminated_cons]
          simp
        obtain ⟨n, hparse, hn, hiff⟩ := parseChannelAt_terminated suffix rest hsuffix
          fun h => htext (by simp [h])
        refine ⟨n, ?_, hn, fun i => (hiff i).trans ?_⟩
        · simp [parseUri, hstarts, hread, hslash, hrest, hparse]
        · constructor
          · exact fun h => ⟨rest, rfl, h⟩
          · rintro ⟨other, h, hother⟩
            obtain rfl := (List.cons.inj (List.append_cancel_left h)).2
            exact hother
    · refine hnone (by simp [parseUri, hstarts, hread, hslash]) fun i ⟨other, h, _⟩ => ?_
      obtain rfl := List.append_cancel_left h
      exact hslash (Option.some.inj hc).symm

/-- A request as the handlers find it: whether its content type is JSON, and
what `cJSON_Parse` makes of the body unless that could not be read. -/
structure WebRequest where
  uri : List Byte
  json : Bool
  body : Option (Option Json.Value)

inductive WebCall where
  | setRelay (channel : ℕ) (on : Bool)
  | resetRelay (channel : ℕ)
  | resetInput (channel : ℕ)
  deriving DecidableEq, Repr

/-- `refused` is answered by `espos_httpd_require_json`, `failed` is a body that
could not be read. -/
inductive WebReply where
  | state (skipped : Mask)
  | error (status : ℕ) (code message : String)
  | refused
  | failed
  deriving DecidableEq, Repr

/-- Whether there is memory for a copy of the settings and for the text of an
answer. -/
structure WebMemory where
  settings : Bool
  answer : Bool
  deriving DecidableEq, Repr

structure WebPlan where
  calls : List WebCall
  reply : List (EspResult Unit) → WebMemory → WebReply

inductive WebRoute where
  | putOne
  | putAll
  | resetRelay
  | resetInput
  deriving DecidableEq, Repr

/-- Which of the callbacks in `web_ui_io_t` that may be missing are there. -/
structure WebIo where
  resetRelayCounters : Bool
  resetInputCounters : Bool

def noMemory : WebReply := .error 500 "no_memory" "out of memory"

/-- `send_state_ex` -/
def sendStateEx (memory : WebMemory) (allOnSkipped : Mask) : WebReply :=
  if !memory.settings then noMemory
  else if !memory.answer then noMemory
  else .state allOnSkipped

def sendState (memory : WebMemory) : WebReply := sendStateEx memory 0#8

def setFailed : WebReply :=
  .error 503 "relay_failed" "the relay chip did not respond; see the health page"

/-- `web_ui_parse_on` -/
def webUiParseOn (root : Option Json.Value) : Option Bool :=
  match objectItem root (ascii "on") with
  | some (.bool on) => some on
  | _ => none

/-- `read_on` -/
def readOn (req : WebRequest) : Except WebReply Bool :=
  if !req.json then .error .refused
  else
    match req.body with
    | none => .error .failed
    | some root =>
      match webUiParseOn root with
      | none => .error (.error 400 "bad_body" "expected \x7b\"on\": true|false\x7d")
      | some on => .ok on

/-- `put_one` -/
def putOne (req : WebRequest) : Option WebPlan := do
  let channel ← webUiParseChannel apiPath req.uri
  if channel = 0 then
    return ⟨[], fun _ _ => .error 404 "no_such_relay" "relays are numbered 1-8"⟩
  match readOn req with
  | .error reply => return ⟨[], fun _ _ => reply⟩
  | .ok on =>
    return ⟨[.setRelay channel on],
      fun errs memory => if putAllFirst errs = .ok () then sendState memory else setFailed⟩

/-- `put_all` -/
def putAll (cfg : DeviceConfig) (req : WebRequest) : WebPlan :=
  match readOn req with
  | .error reply => ⟨[], fun _ _ => reply⟩
  | .ok on =>
    ⟨(putAllTargets cfg on).map fun t => .setRelay (t.1.val + 1) t.2,
      fun errs memory =>
        if putAllFirst errs = .ok () then sendStateEx memory (putAllSkipped cfg on)
        else setFailed⟩

/-- `post_reset_counters` -/
def postResetCounters (pre : List Byte) (reset : ℕ → WebCall) (given : Bool) (req : WebRequest) :
    Option WebPlan := do
  let channel ← webUiParseResetChannel pre req.uri
  if channel = 0 ∨ !given then
    return ⟨[], fun _ _ => .error 404 "no_such_channel" "channels are numbered 1-8"⟩
  if !req.json then return ⟨[], fun _ _ => .refused⟩
  return ⟨[reset channel], fun _ memory => sendState memory⟩

def handle (io : WebIo) (cfg : DeviceConfig) (route : WebRoute) (req : WebRequest) :
    Option WebPlan :=
  match route with
  | .putOne => putOne req
  | .putAll => some (putAll cfg req)
  | .resetRelay => postResetCounters apiPath .resetRelay io.resetRelayCounters req
  | .resetInput => postResetCounters inputsPath .resetInput io.resetInputCounters req

/-- The body is an object whose first member named `on` is this truth value. -/
def BodySays (body : Option (Option Json.Value)) (on : Bool) : Prop :=
  ∃ before key after, body = some (some (.object (before ++ (key, .bool on) :: after))) ∧
    cText key = ascii "on" ∧ ∀ m ∈ before, cText m.1 ≠ ascii "on"

section Handlers

variable (io : WebIo) (cfg : DeviceConfig) (route : WebRoute) (text : List Byte) (json : Bool)
  (body : Option (Option Json.Value))

/-- What a request has to say for a call to be made. -/
def Asks : WebCall → Prop
  | .setRelay channel on => BodySays body on ∧ ∃ i : Channel, channel = i.val + 1 ∧
      (route = .putOne ∧ NamesChannel apiPath [] i text ∨
        route = .putAll ∧ (on = true → (cfg.relays i).interlock = 0))
  | .resetRelay channel => route = .resetRelay ∧ io.resetRelayCounters = true ∧
    ∃ i : Channel, channel = i.val + 1 ∧ NamesChannel apiPath resetSuffix i text
  | .resetInput channel => route = .resetInput ∧ io.resetInputCounters = true ∧
    ∃ i : Channel, channel = i.val + 1 ∧ NamesChannel inputsPath resetSuffix i text

def Accepts : Prop :=
  json = true ∧
    match route with
    | .putOne => (∃ on, BodySays body on) ∧ ∃ i, NamesChannel apiPath [] i text
    | .putAll => ∃ on, BodySays body on
    | .resetRelay => io.resetRelayCounters = true ∧ ∃ i, NamesChannel apiPath resetSuffix i text
    | .resetInput => io.resetInputCounters = true ∧ ∃ i, NamesChannel inputsPath resetSuffix i text

def WebCall.sets : WebCall → Bool
  | .setRelay _ _ => true
  | _ => false

def WebReply.isState : WebReply → Bool
  | .state _ => true
  | _ => false

/-- What a plan has to be for its request. -/
structure Serves (plan : WebPlan) : Prop where
  calls : ∀ call, call ∈ plan.calls ↔ json = true ∧ Asks io cfg route text body call
  reply : ∀ errs memory, errs.length = (plan.calls.filter WebCall.sets).length →
    ((plan.reply errs memory).isState = true ↔
      Accepts io route text json body ∧ (∀ err ∈ errs, err = .ok ()) ∧ memory = ⟨true, true⟩)

variable {io cfg route text json body}

theorem webUiParseOn_iff {root : Option Json.Value} {on : Bool} :
    webUiParseOn root = some on ↔ BodySays (some root) on := by
  have hmember : webUiParseOn root = some on ↔ objectItem root (ascii "on") = some (.bool on) := by
    unfold webUiParseOn
    split <;> rename_i h
    · rw [h]
      simp
    · refine iff_of_false (by simp) fun hon => h on hon
  rw [hmember, BodySays]
  rcases root with _ | root
  · exact iff_of_false (by simp [objectItem]) (by simp)
  cases root with
  | object members =>
    simp only [objectItem, Option.map_eq_some_iff, List.find?_eq_some_iff_append]
    constructor
    · rintro ⟨⟨key, v⟩, ⟨hkey, before, after, rfl, hbefore⟩, rfl⟩
      exact ⟨before, key, after, rfl, by simpa using hkey, fun m hm => by simpa using hbefore m hm⟩
    · rintro ⟨before, key, after, hmembers, hkey, hbefore⟩
      cases hmembers
      exact ⟨(key, .bool on), ⟨by simpa using hkey, before, after, rfl,
        fun m hm => by simpa using hbefore m hm⟩, rfl⟩
  | _ => exact iff_of_false (by simp [objectItem]) (by simp)

theorem bodySays_unique {on level : Bool} (h : BodySays body on) (h' : BodySays body level) :
    level = on := by
  obtain ⟨before, key, after, rfl, -⟩ := id h
  rw [← webUiParseOn_iff] at h h'
  exact Option.some.inj (h'.symm.trans h)

theorem readOn_ok {req : WebRequest} {on : Bool} :
    readOn req = .ok on ↔ req.json = true ∧ BodySays req.body on := by
  obtain ⟨uri, json, body⟩ := req
  unfold readOn
  cases json with
  | false => simp
  | true =>
    cases body with
    | none => simp [BodySays]
    | some root =>
      dsimp only
      rw [← webUiParseOn_iff]
      cases hon : webUiParseOn root <;> simp

theorem readOn_error {req : WebRequest} {reply : WebReply} (h : readOn req = .error reply) :
    reply.isState = false ∧ ¬(req.json = true ∧ ∃ on, BodySays req.body on) := by
  constructor
  · unfold readOn at h
    split_ifs at h
    · obtain rfl := Except.error.inj h
      rfl
    · split at h
      · obtain rfl := Except.error.inj h
        rfl
      · split at h
        · obtain rfl := Except.error.inj h
          rfl
        · cases h
  · rintro ⟨hjson, on, hon⟩
    rw [readOn_ok.mpr ⟨hjson, hon⟩] at h
    cases h

theorem parseUri_cases (pre suffix text : List Byte) (hpre : 0#8 ∉ pre) (hsuffix : 0#8 ∉ suffix)
    (htext : 0#8 ∉ text) :
    (parseUri pre suffix (terminated text) = some 0 ∧ ∀ i, ¬NamesChannel pre suffix i text) ∨
    ∃ i : Channel, parseUri pre suffix (terminated text) = some (i.val + 1) ∧
      ∀ j, NamesChannel pre suffix j text ↔ j = i := by
  obtain ⟨n, hparse, hn, hiff⟩ := parseUri_terminated pre suffix text hpre hsuffix htext
  cases n with
  | zero => exact .inl ⟨hparse, fun i hi => by simpa using (hiff i).mpr hi⟩
  | succ n =>
    refine .inr ⟨⟨n, hn⟩, hparse, fun j => (hiff j).symm.trans ?_⟩
    exact ⟨fun h => Fin.ext (Nat.succ_injective h).symm, fun h => by rw [h]⟩

theorem sendStateEx_isState (memory : WebMemory) (skipped : Mask) :
    (sendStateEx memory skipped).isState = true ↔ memory = ⟨true, true⟩ := by
  obtain ⟨settings, answer⟩ := memory
  cases settings <;> cases answer <;> simp [sendStateEx, noMemory, WebReply.isState]

theorem setReply_isState (errs : List (EspResult Unit)) (memory : WebMemory) (skipped : Mask) :
    (if putAllFirst errs = .ok () then sendStateEx memory skipped else setFailed).isState = true ↔
      (∀ err ∈ errs, err = .ok ()) ∧ memory = ⟨true, true⟩ := by
  rw [← putAllFirst_ok]
  split_ifs with h
  · rw [sendStateEx_isState, and_iff_right h]
  · exact iff_of_false (by simp [setFailed, WebReply.isState]) fun hall => h hall.1

variable (io cfg)

theorem serves_nothing {reply : WebReply}
    (hasks : ∀ call, ¬(json = true ∧ Asks io cfg route text body call))
    (haccepts : ¬Accepts io route text json body) (hreply : reply.isState = false) :
    Serves io cfg route text json body ⟨[], fun _ _ => reply⟩ :=
  ⟨fun call => iff_of_false (List.not_mem_nil) (hasks call),
    fun errs _ _ => iff_of_false (by simp [hreply]) fun h => haccepts h.1⟩

variable (text json body)

theorem asks_putOne (call : WebCall) : Asks io cfg .putOne text body call ↔
    ∃ (i : Channel) (on : Bool), call = .setRelay (i.val + 1) on ∧ BodySays body on ∧
      NamesChannel apiPath [] i text := by
  cases call with
  | setRelay channel level =>
    constructor
    · rintro ⟨hlevel, i, rfl, ⟨-, hi⟩ | ⟨hroute, -⟩⟩
      · exact ⟨i, level, rfl, hlevel, hi⟩
      · cases hroute
    · rintro ⟨i, on, hcall, hon, hi⟩
      cases hcall
      exact ⟨hon, i, rfl, .inl ⟨rfl, hi⟩⟩
  | resetRelay channel => simp [Asks]
  | resetInput channel => simp [Asks]

theorem asks_putAll (call : WebCall) : Asks io cfg .putAll text body call ↔
    ∃ (i : Channel) (on : Bool), call = .setRelay (i.val + 1) on ∧ BodySays body on ∧
      (on = true → (cfg.relays i).interlock = 0) := by
  cases call with
  | setRelay channel level =>
    constructor
    · rintro ⟨hlevel, i, rfl, ⟨hroute, -⟩ | ⟨-, hi⟩⟩
      · cases hroute
      · exact ⟨i, level, rfl, hlevel, hi⟩
    · rintro ⟨i, on, hcall, hon, hi⟩
      cases hcall
      exact ⟨hon, i, rfl, .inr ⟨rfl, hi⟩⟩
  | resetRelay channel => simp [Asks]
  | resetInput channel => simp [Asks]

theorem putOne_serves (htext : 0#8 ∉ text) :
    ∃ plan, putOne ⟨terminated text, json, body⟩ = some plan ∧
      Serves io cfg .putOne text json body plan := by
  unfold putOne webUiParseChannel
  rcases parseUri_cases apiPath [] text (by decide) (by simp) htext with
    ⟨hparse, hno⟩ | ⟨i, hparse, hi⟩ <;> rw [hparse]
  · refine ⟨_, rfl, serves_nothing io cfg (fun call h => ?_) (fun h => ?_) rfl⟩
    · obtain ⟨j, -, -, -, hj⟩ := (asks_putOne io cfg text body call).mp h.2
      exact hno j hj
    · obtain ⟨-, -, j, hj⟩ := h
      exact hno j hj
  · cases hread : readOn ⟨terminated text, json, body⟩ with
    | error reply =>
      obtain ⟨hreply, hno⟩ := readOn_error hread
      refine ⟨⟨[], fun _ _ => reply⟩, by simp, serves_nothing io cfg (fun call h => ?_)
        (fun h => hno ⟨h.1, h.2.1⟩) hreply⟩
      obtain ⟨-, on, -, hon, -⟩ := (asks_putOne io cfg text body call).mp h.2
      exact hno ⟨h.1, on, hon⟩
    | ok on =>
      obtain ⟨rfl, hon⟩ := readOn_ok.mp hread
      refine ⟨_, by simp; rfl, ⟨fun call => ?_, fun errs memory herrs => ?_⟩⟩
      · rw [List.mem_singleton, asks_putOne]
        constructor
        · rintro rfl
          exact ⟨rfl, i, on, rfl, hon, (hi i).mpr rfl⟩
        · rintro ⟨-, j, level, rfl, hlevel, hj⟩
          obtain rfl := (hi j).mp hj
          obtain rfl := bodySays_unique hon hlevel
          rfl
      · have haccepts : Accepts io .putOne text true body := ⟨rfl, ⟨on, hon⟩, i, (hi i).mpr rfl⟩
        rw [and_iff_right haccepts]
        exact setReply_isState errs memory 0#8

theorem putAll_serves : Serves io cfg .putAll text json body
    (putAll cfg ⟨terminated text, json, body⟩) := by
  unfold putAll
  cases hread : readOn ⟨terminated text, json, body⟩ with
  | error reply =>
    obtain ⟨hreply, hno⟩ := readOn_error hread
    refine serves_nothing io cfg (fun call h => ?_) (fun h => hno h) hreply
    obtain ⟨-, on, -, hon, -⟩ := (asks_putAll io cfg text body call).mp h.2
    exact hno ⟨h.1, on, hon⟩
  | ok on =>
    obtain ⟨rfl, hon⟩ := readOn_ok.mp hread
    refine ⟨fun call => ?_, fun errs memory _ => ?_⟩
    · rw [List.mem_map, asks_putAll]
      constructor
      · rintro ⟨t, ht, rfl⟩
        obtain ⟨hlevel, hpair⟩ := (mem_putAllTargets cfg on t).mp ht
        exact ⟨rfl, t.1, t.2, rfl, hlevel ▸ hon, hlevel ▸ hpair⟩
      · rintro ⟨-, j, level, rfl, hlevel, hpair⟩
        obtain rfl := bodySays_unique hon hlevel
        exact ⟨(j, level), (mem_putAllTargets cfg level (j, level)).mpr ⟨rfl, hpair⟩, rfl⟩
    · have haccepts : Accepts io .putAll text true body := ⟨rfl, on, hon⟩
      rw [and_iff_right haccepts]
      exact setReply_isState errs memory (putAllSkipped cfg on)

theorem postResetCounters_serves {pre : List Byte} {reset : ℕ → WebCall} {given : Bool}
    (hpre : 0#8 ∉ pre) (hsets : ∀ channel, (reset channel).sets = false) (htext : 0#8 ∉ text)
    (hasks : ∀ call, Asks io cfg route text body call ↔ given = true ∧
      ∃ i : Channel, call = reset (i.val + 1) ∧ NamesChannel pre resetSuffix i text)
    (haccepts : Accepts io route text json body ↔
      json = true ∧ given = true ∧ ∃ i, NamesChannel pre resetSuffix i text) :
    ∃ plan, postResetCounters pre reset given ⟨terminated text, json, body⟩ = some plan ∧
      Serves io cfg route text json body plan := by
  unfold postResetCounters webUiParseResetChannel
  rcases parseUri_cases pre resetSuffix text hpre (by decide) htext with
    ⟨hparse, hno⟩ | ⟨i, hparse, hi⟩ <;> rw [hparse]
  · refine ⟨_, rfl, serves_nothing io cfg (fun call h => ?_) (fun h => ?_) rfl⟩
    · obtain ⟨-, j, -, hj⟩ := (hasks call).mp h.2
      exact hno j hj
    · obtain ⟨-, -, j, hj⟩ := haccepts.mp h
      exact hno j hj
  · cases given with
    | false =>
      refine ⟨_, by simp; rfl, serves_nothing io cfg (fun call h => ?_) (fun h => ?_) rfl⟩
      · cases ((hasks call).mp h.2).1
      · cases (haccepts.mp h).2.1
    | true =>
      cases json with
      | false =>
        refine ⟨_, by simp; rfl, serves_nothing io cfg (fun call h => ?_) (fun h => ?_) rfl⟩
        · cases h.1
        · cases (haccepts.mp h).1
      | true =>
        refine ⟨_, by simp; rfl, ⟨fun call => ?_, fun errs memory herrs => ?_⟩⟩
        · rw [List.mem_singleton, and_iff_right rfl, hasks, and_iff_right rfl]
          constructor
          · rintro rfl
            exact ⟨i, rfl, (hi i).mpr rfl⟩
          · rintro ⟨j, rfl, hj⟩
            rw [(hi j).mp hj]
        · obtain rfl : errs = [] := by simpa [hsets] using herrs
          have haccepted := haccepts.mpr ⟨rfl, rfl, i, (hi i).mpr rfl⟩
          rw [and_iff_right haccepted, and_iff_right (by simp)]
          exact sendStateEx_isState memory 0#8

variable (route)

/-- For every request the handlers read no further than the end of its URI, and
make a call exactly if the content type is JSON, the URI names the channel and
nothing else, and, to set relays, the body says whether on or off. The new
state is answered exactly if the request was carried out, no relay failed and
there was memory for the answer. -/
theorem web_requests_guarded (htext : 0#8 ∉ text) :
    ∃ plan, handle io cfg route ⟨terminated text, json, body⟩ = some plan ∧
      Serves io cfg route text json body plan := by
  cases route with
  | putOne => exact putOne_serves io cfg text json body htext
  | putAll => exact ⟨_, rfl, putAll_serves io cfg text json body⟩
  | resetRelay =>
    refine postResetCounters_serves io cfg text json body (by decide) (fun _ => rfl) htext
      (fun call => ?_) Iff.rfl
    cases call <;> simp [Asks]
  | resetInput =>
    refine postResetCounters_serves io cfg text json body (by decide) (fun _ => rfl) htext
      (fun call => ?_) Iff.rfl
    cases call <;> simp [Asks]

end Handlers

/-- Relay 3 is switched on, and without memory a 500 answered. -/
theorem web_requests_guarded_relayThree :
    ∃ plan, handle ⟨true, true⟩ DeviceConfig.schemaDefault .putOne
      ⟨terminated (ascii "/api/v1/relays/3?now"), true,
        some (some (.object [(ascii "on", .bool true)]))⟩ = some plan ∧
      .setRelay 3 true ∈ plan.calls ∧ (plan.reply [.ok ()] ⟨true, false⟩).isState = false := by
  obtain ⟨plan, hplan, hserves⟩ := web_requests_guarded ⟨true, true⟩ DeviceConfig.schemaDefault
    .putOne (ascii "/api/v1/relays/3?now") true
    (some (some (.object [(ascii "on", .bool true)]))) (by decide)
  have hsays : BodySays (some (some (.object [(ascii "on", .bool true)]))) true :=
    ⟨[], ascii "on", [], rfl, by decide, by simp⟩
  have hnames : NamesChannel apiPath [] 2 (ascii "/api/v1/relays/3?now") :=
    ⟨ascii "3?now", by decide, ascii "?now", by decide, .inr rfl⟩
  refine ⟨plan, hplan, (hserves.calls _).mpr ⟨rfl, hsays, 2, rfl, .inl ⟨rfl, hnames⟩⟩, ?_⟩
  cases hplan
  rfl

end RelayBoard
