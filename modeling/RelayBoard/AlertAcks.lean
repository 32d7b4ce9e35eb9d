import RelayBoard.HonestAlerts

/-!
# Acknowledging an alert

A response that repeats the header of a channel's status acknowledges it, and
its statuses say so until it is cleared. Nothing else acknowledges. The
occurrence number comes round after 255 alerts of a channel, and only then can
a response to an earlier alert be taken for one to the open alert.
-/

set_option autoImplicit false

namespace RelayBoard
open BitVec Lib Lib.Loops Lib.Runs Lib.Journal Lib.LittleEndian

def responderOf (data : List Byte) : IsoName := get 64 ((data.drop 16).take 8)

/-- A response with the header of the channel's status and command 0. -/
structure Echoes (a : N2kAlerts) (i : Channel) (data : List Byte) : Prop where
  long : alertResponseLen ≤ data.length
  header : data.take 16 = (n2kAlertEncode (a.n2kAlertsStatusOf i false)).take 16
  command : byteAt data 24 &&& 0x03#8 = 0#8

theorem occurrenceOf_eq_iff (m n : ℕ) :
    occurrenceOf (m + 1) = occurrenceOf (n + 1) ↔ m % 255 = n % 255 := by
  unfold occurrenceOf
  rw [if_neg (Nat.succ_ne_zero m), if_neg (Nat.succ_ne_zero n), Nat.add_sub_cancel,
    Nat.add_sub_cancel]
  have hm : m % 255 < 255 := Nat.mod_lt _ (by decide)
  have hn : n % 255 < 255 := Nat.mod_lt _ (by decide)
  constructor
  · intro h
    have hnat := congrArg BitVec.toNat h
    simp only [BitVec.toNat_ofNat] at hnat
    omega
  · intro h
    rw [h]

theorem typeOf_nibble (level : InputAlarm) :
    n2kAlertsTypeOf level &&& 0x0f#8 = n2kAlertsTypeOf level := by
  cases level <;> rfl

theorem typeOf_inj {l m : InputAlarm} (hl : l ≠ .off) (hm : m ≠ .off)
    (h : n2kAlertsTypeOf l = n2kAlertsTypeOf m) : l = m := by
  revert hl hm h
  cases l <;> cases m <;> decide

namespace N2kAlerts

variable {a : N2kAlerts} {i : Channel} {L : Ledger}

theorem decode_echo {data : List Byte} (h : Echoes a i data) :
    n2kAlertDecodeResponse data =
      some ⟨a.idOf i (a.ch i).level (a.ch i).occurrence, responderOf data, 0⟩ := by
  have hheader : decodeHeader data = a.idOf i (a.ch i).level (a.ch i).occurrence := by
    have hlength : (data.take 16).length = 16 := by
      rw [List.length_take]
      have hlong : 25 ≤ data.length := h.long
      omega
    rw [← List.take_append_drop 16 data, decodeHeader_append _ _ hlength, h.header,
      take_n2kAlertEncode, decode_encodeHeader]
    have hid : (a.n2kAlertsStatusOf i false).id = a.idOf i (a.ch i).level (a.ch i).occurrence := rfl
    rw [hid]
    simp only [idOf, typeOf_nibble]
    rfl
  unfold n2kAlertDecodeResponse
  rw [if_neg (Nat.not_lt.mpr h.long), hheader, h.command]
  rfl

theorem echo_accepted {data : List Byte} (hactive : (a.ch i).active = true)
    (hunacked : (a.ch i).acked = false) (h : Echoes a i data) :
    a.n2kAlertsOnResponse data = (true, a.acknowledge i (responderOf data)) := by
  have hdecode := decode_echo h
  rcases a.onResponse_cases data with ⟨r, j, hr, hack, hresult⟩ | ⟨hno, -⟩
  · cases hdecode.symm.trans hr
    have hij : i = j := (chanId_inj i j).mp hack.id
    subst hij
    exact hresult
  · exact absurd ⟨rfl, rfl, rfl, hactive, rfl, rfl, rfl, hunacked⟩ (hno _ i hdecode)

/-- Once acknowledged, every status of the alert says so. -/
theorem told_acknowledged (h : ChanInv (a.ch i) L) (hactive : (a.ch i).active = true)
    (hunacked : (a.ch i).acked = false) (name : IsoName) {more : List AlertOp}
    {past later : List ChanEvent} {st : Alert}
    (htrace : trace i (a.acknowledge i name) more = past ++ .told st :: later)
    (hwithin : ∀ e ∈ past, e.within = true) :
    st.state = alertStateAcknowledged ∧ st.ackName = name := by
  have hack : ChanInv ((a.acknowledge i name).ch i) (L.note (.acked name)) := by
    unfold acknowledge
    simp only [Function.update_self]
    exact (h.acknowledge hactive hunacked name).inv
  have hfollows := (run_kept_from hack more).follows
  obtain ⟨-, hstate, hname⟩ : AlertRule ((L.note (.acked name)).read past) (.told st) :=
    hfollows.at htrace
  have hacked : ((L.note (.acked name)).read past).acked = some name :=
    (acked_within (hfollows.before htrace) hwithin name).mpr (.inl rfl)
  rw [hacked] at hstate hname
  exact ⟨hstate, hname⟩

/-- An alert of the channel that the response speaks of, raised earlier or the
open one. -/
theorem earlier_acknowledged {es past later : List ChanEvent} {level : InputAlarm}
    {occurrence : Byte} {r : AlertResponse} (h : Kept .empty es (a.ch i))
    (hes : es = past ++ .raised level occurrence :: later) (hack : a.Acknowledges r i)
    (htype : r.id.type = n2kAlertsTypeOf level) (hoccurrence : r.id.occurrence = occurrence) :
    level = (a.ch i).level ∧ 255 ∣ later.countP ChanEvent.isRaise := by
  obtain ⟨-, hlevel, hnumber⟩ : AlertRule (Ledger.empty.read past) (.raised level occurrence) :=
    h.follows.at hes
  have hopened := h.inv.opened
  rw [if_pos hack.active] at hopened
  obtain ⟨since, before, hopen, -⟩ := open_of_opened hopened
  obtain ⟨-, hcurrent, -⟩ : AlertRule (Ledger.empty.read before)
      (.raised (a.ch i).level (a.ch i).occurrence) := h.follows.at hopen
  refine ⟨typeOf_inj hlevel hcurrent (htype.symm.trans hack.type), ?_⟩
  have hraises : (Ledger.empty.read es).raises =
      (Ledger.empty.read past).raises + later.countP ChanEvent.isRaise + 1 := by
    rw [hes, Ledger.read_append, Ledger.read_cons, read_raises]
    change _ + 1 + _ = _
    omega
  have hsame := h.inv.number
  rw [← hack.occurrence, hoccurrence, hnumber, hraises, occurrenceOf_eq_iff] at hsame
  omega

/-- In every run an echo acknowledges, for as long as the alert lasts; nothing
but a response to an open, unacknowledged alert does; and one that speaks of an
earlier alert does only for the same severity a multiple of 255 alerts later. -/
theorem run_alerts_acknowledged (cfg : AlertsCfg) (inst : Byte) (sourceName : IsoName) (now : Ms)
    (ops : List AlertOp) :
    let a₀ := n2kAlertsInit cfg inst sourceName now
    let a := run step a₀ ops
    (∀ i data, (a.ch i).active = true → (a.ch i).acked = false → Echoes a i data →
      a.n2kAlertsOnResponse data = (true, a.acknowledge i (responderOf data)) ∧
      ∀ more past st later,
        trace i (a.acknowledge i (responderOf data)) more = past ++ .told st :: later →
        (∀ e ∈ past, e.within = true) →
        st.state = alertStateAcknowledged ∧ st.ackName = responderOf data) ∧
    (∀ data, a.n2kAlertsOnResponse data = (false, a) ∨
      ∃ r i, n2kAlertDecodeResponse data = some r ∧ a.Acknowledges r i ∧
        a.n2kAlertsOnResponse data = (true, a.acknowledge i r.ackName)) ∧
    ∀ i past level occurrence later data r,
      trace i a₀ ops = past ++ .raised level occurrence :: later →
      n2kAlertDecodeResponse data = some r → r.id.id = BitVec.ofNat 16 (i.val + 1) →
      r.id.type = n2kAlertsTypeOf level → r.id.occurrence = occurrence →
      (a.n2kAlertsOnResponse data).1 = true →
      level = (a.ch i).level ∧ 255 ∣ later.countP ChanEvent.isRaise := by
  intro a₀ a
  have hkept := fun i => run_kept (i := i) cfg inst sourceName now ops
  refine ⟨fun i data hactive hunacked hecho => ⟨echo_accepted hactive hunacked hecho, ?_⟩, ?_, ?_⟩
  · intro more past st later htrace hwithin
    exact told_acknowledged (hkept i).inv hactive hunacked _ htrace hwithin
  · intro data
    rcases a.onResponse_cases data with hyes | ⟨-, hno⟩
    · exact .inr hyes
    · exact .inl hno
  · intro i past level occurrence later data r htrace hr hid htype hoccurrence haccepted
    rcases a.onResponse_cases data with ⟨r', j, hr', hack, -⟩ | ⟨-, hno⟩
    · cases hr.symm.trans hr'
      have hij : i = j := (chanId_inj i j).mp (hid.symm.trans hack.id)
      subst hij
      exact earlier_acknowledged (hkept i) htrace hack htype hoccurrence
    · rw [hno] at haccepted
      cases haccepted

/-- A response to any alert of the run but the channel's latest is rejected. -/
def EarlierRejected (a₀ : N2kAlerts) (ops : List AlertOp) : Prop :=
  ∀ i past level occurrence later data r,
    trace i a₀ ops = past ++ .raised level occurrence :: later →
    (∃ e ∈ later, ChanEvent.isRaise e = true) →
    n2kAlertDecodeResponse data = some r → r.id.id = BitVec.ofNat 16 (i.val + 1) →
    r.id.type = n2kAlertsTypeOf level → r.id.occurrence = occurrence →
    ((run step a₀ ops).n2kAlertsOnResponse data).1 = false

section Lap

theorem tick_alert (a : N2kAlerts) (inputsReady : Bool) (inputMask : Mask) (now : Ms)
    (i : Channel) :
    let c := (a.n2kAlertsTick inputsReady inputMask now).1.ch i
    let c' := (a.ch i).react (a.wants inputsReady inputMask i) (a.cfg.level i)
    c.active = c'.active ∧ c.level = c'.level ∧ c.occurrence = c'.occurrence ∧
      c.acked = c'.acked := by
  intro c c'
  have hsettled : (a.settle inputsReady inputMask now).ch i = c'.fallDue _ _ := rfl
  have hc : c = _ := tick_ch a inputsReady inputMask now i
  rw [hc, hsettled, ChanInv.fallDue_eq]
  split <;> exact ⟨rfl, rfl, rfl, rfl⟩

def alarmed : N2kAlerts :=
  n2kAlertsInit ⟨true, true, fun _ => .alarm, fun _ => []⟩ 1#8 7#64 0#32

def tripOn : AlertOp := .tick true 1#8 0#32

def tripOff : AlertOp := .tick true 0#8 0#32

def trips (n : ℕ) : List AlertOp := (List.replicate n [tripOn, tripOff]).flatten

/-- The state after `n` alerts of the first input, all over. -/
structure Rested (a : N2kAlerts) (n : ℕ) : Prop where
  cfg : a.cfg = alarmed.cfg
  inst : a.inst = alarmed.inst
  sourceName : a.sourceName = alarmed.sourceName
  active : (a.ch 0).active = false
  occurrence : (a.ch 0).occurrence = occurrenceOf n

structure Tripped (a : N2kAlerts) (n : ℕ) : Prop where
  cfg : a.cfg = alarmed.cfg
  inst : a.inst = alarmed.inst
  sourceName : a.sourceName = alarmed.sourceName
  active : (a.ch 0).active = true
  level : (a.ch 0).level = .alarm
  occurrence : (a.ch 0).occurrence = occurrenceOf n
  acked : (a.ch 0).acked = false

theorem tripped_of_rested {a : N2kAlerts} {n : ℕ} (h : Rested a n) :
    Tripped (a.step tripOn) (n + 1) := by
  obtain ⟨hactive, hlevel, hoccurrence, hacked⟩ := tick_alert a true 1#8 0#32 0
  obtain ⟨hcfg, hinst, hname⟩ := tick_frame a true 1#8 0#32
  have hwants : a.wants true 1#8 0 = true := by
    unfold wants
    rw [h.cfg]
    rfl
  have hcfgLevel : a.cfg.level 0 = .alarm := by rw [h.cfg]; rfl
  have hreact : (a.ch 0).react true .alarm = (a.ch 0).raiseAlert .alarm := by
    simp [AlertChan.react, AlertChan.clears, h.active]
  rw [hwants, hcfgLevel, hreact] at hactive hlevel hoccurrence hacked
  refine ⟨hcfg.trans h.cfg, hinst.trans h.inst, hname.trans h.sourceName, hactive, hlevel, ?_,
    hacked⟩
  rw [← nextOccurrence_occurrenceOf, ← h.occurrence]
  exact hoccurrence

theorem rested_of_tripped {a : N2kAlerts} {n : ℕ} (h : Tripped a n) :
    Rested (a.step tripOff) n := by
  obtain ⟨hactive, -, hoccurrence, -⟩ := tick_alert a true 0#8 0#32 0
  obtain ⟨hcfg, hinst, hname⟩ := tick_frame a true 0#8 0#32
  have hwants : a.wants true 0#8 0 = false := by
    unfold wants
    rw [h.cfg]
    rfl
  have hreact : (a.ch 0).react false (a.cfg.level 0) = (a.ch 0).beginClear := by
    simp [AlertChan.react, AlertChan.clears, h.active]
  rw [hwants, hreact] at hactive hoccurrence
  exact ⟨hcfg.trans h.cfg, hinst.trans h.inst, hname.trans h.sourceName, hactive,
    hoccurrence.trans h.occurrence⟩

theorem rested_trips (n : ℕ) : Rested (run step alarmed (trips n)) n := by
  induction n with
  | zero => exact ⟨rfl, rfl, rfl, rfl, rfl⟩
  | succ n ih =>
    have htrips : trips (n + 1) = trips n ++ [tripOn] ++ [tripOff] := by
      simp [trips, List.replicate_succ']
    rw [htrips, run_snoc, run_snoc]
    exact rested_of_tripped (tripped_of_rested ih)

theorem trace_append (i : Channel) (a : N2kAlerts) (xs ys : List AlertOp) :
    trace i a (xs ++ ys) = trace i a xs ++ trace i (run step a xs) ys := by
  unfold trace
  rw [history, historyFrom_append, journal_historyFrom]
  rfl

def lateResponse (i : Channel) : List Byte :=
  (n2kAlertEncode ((alarmed.step tripOn).n2kAlertsStatusOf i false)).take 16 ++ put 8 9#64 ++ [0]

/-- In time the response acknowledges the first alert, and the next status says so. -/
theorem run_alerts_acknowledged_first :
    let a := run step alarmed [tripOn]
    a.n2kAlertsOnResponse (lateResponse 0) = (true, a.acknowledge 0 9#64) ∧
      ∃ st, trace 0 (a.acknowledge 0 9#64) [.tick true 1#8 10000#32] = [.told st] ∧
        st.state = alertStateAcknowledged ∧ st.ackName = 9#64 := by
  intro a
  have hecho : Echoes a 0 (lateResponse 0) :=
    ⟨by decide +kernel, by decide +kernel, by decide +kernel⟩
  obtain ⟨hyes, htold⟩ := (run_alerts_acknowledged alarmed.cfg 1#8 7#64 0#32 [tripOn]).1 0
    (lateResponse 0) (by decide +kernel) (by decide +kernel) hecho
  have hname : responderOf (lateResponse 0) = 9#64 := by decide +kernel
  rw [hname] at hyes htold
  have hnext : trace 0 (a.acknowledge 0 9#64) [.tick true 1#8 10000#32] =
      [.told ((a.acknowledge 0 9#64).n2kAlertsStatusOf 0 false)] := by decide +kernel
  exact ⟨hyes, _, hnext, htold _ [] _ [] hnext (fun e he => absurd he List.not_mem_nil)⟩

theorem late_echoes {a : N2kAlerts} (h : Tripped a 256) : Echoes a 0 (lateResponse 0) := by
  have hid : (a.n2kAlertsStatusOf 0 false).id =
      ((alarmed.step tripOn).n2kAlertsStatusOf 0 false).id := by
    change a.idOf 0 (a.ch 0).level (a.ch 0).occurrence = _
    unfold idOf
    rw [h.sourceName, h.inst, h.level, h.occurrence]
    rfl
  refine ⟨by decide +kernel, ?_, by decide +kernel⟩
  rw [take_n2kAlertEncode, hid, ← take_n2kAlertEncode]
  decide +kernel

theorem trips_trace (n : ℕ) : ∃ later, trace 0 alarmed (trips (n + 2) ++ [tripOn]) =
    .raised .alarm 1#8 :: later ∧ .raised .alarm 2#8 ∈ later := by
  have hsplit : trips (n + 2) ++ [tripOn] =
      [tripOn, tripOff, tripOn] ++ (tripOff :: trips n ++ [tripOn]) := rfl
  have hfirst : trace 0 alarmed [tripOn, tripOff, tripOn] = .raised .alarm 1#8 ::
      (trace 0 alarmed [tripOn, tripOff, tripOn]).tail := by decide +kernel
  have htrace := trace_append 0 alarmed [tripOn, tripOff, tripOn] (tripOff :: trips n ++ [tripOn])
  rw [← hsplit, hfirst, List.cons_append] at htrace
  exact ⟨_, htrace, List.mem_append_left _ (by decide +kernel)⟩

/-- The 256th alert has the first one's occurrence number. -/
theorem late_accepted {a : N2kAlerts} (h : Tripped a 256) :
    ∃ r, n2kAlertDecodeResponse (lateResponse 0) = some r ∧ r.id.id = BitVec.ofNat 16 1 ∧
      r.id.type = n2kAlertsTypeOf .alarm ∧ r.id.occurrence = 1#8 ∧
      (a.n2kAlertsOnResponse (lateResponse 0)).1 = true := by
  have hecho := late_echoes h
  refine ⟨_, decode_echo hecho, rfl, congrArg n2kAlertsTypeOf h.level, h.occurrence, ?_⟩
  rw [echo_accepted h.active h.acked hecho]

/-- It takes the late response for its own. -/
theorem lapped_response_accepted : ¬EarlierRejected alarmed (trips 255 ++ [tripOn]) := by
  intro h
  obtain ⟨later, htrace, hagain⟩ := trips_trace 253
  have htripped : Tripped (run step alarmed (trips 255 ++ [tripOn])) 256 := by
    rw [run_snoc]
    exact tripped_of_rested (rested_trips 255)
  obtain ⟨r, hr, hid, htype, hoccurrence, hyes⟩ := late_accepted htripped
  have hno := h 0 [] .alarm 1#8 later (lateResponse 0) r htrace ⟨_, hagain, rfl⟩ hr hid htype
    hoccurrence
  rw [hyes] at hno
  cases hno

end Lap

end N2kAlerts

end RelayBoard
