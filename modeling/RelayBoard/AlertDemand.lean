import RelayBoard.AlertChannels

/-!
# What the inputs ask of the alerts

Which channel has something new to send depends on the inputs, the settings,
the clock and the responses alone, not on whose turn it was: an alert starts,
ends or changes its level, a period runs out, a message is reworded or an alert
is acknowledged. The account kept here is read off the operations; only of the
repeats of a cleared alert does it not know how many have been sent.
-/

set_option autoImplicit false

namespace RelayBoard
open Lib.Runs

/-- The level of the alert that the settings and the inputs want. -/
def AlertsCfg.wanted (cfg : AlertsCfg) (inputsReady : Bool) (inputMask : Mask) (i : Channel) :
    Option InputAlarm :=
  if cfg.enabled && cfg.inputsOn && inputsReady && cfg.level i != .off && inputMask.has i then
    some (cfg.level i)
  else none

/-- What has been asked of one channel: the alert wanted at the last tick, its
number, whether it was acknowledged, and whether an earlier one has ended, of
which repeats may be left to send. -/
structure AskedChan where
  wanted : Option InputAlarm
  occurrence : Byte
  acked : Bool
  repeats : Bool
  deriving DecidableEq

structure Asked where
  cfg : AlertsCfg
  inst : Byte
  sourceName : IsoName
  statusAt : Ms
  textAt : Ms
  ch : Channel → AskedChan

def AskedChan.turn (want : Option InputAlarm) (c : AskedChan) : AskedChan :=
  if want = c.wanted then c
  else
    { wanted := want
      occurrence := if want.isSome then AlertChan.nextOccurrence c.occurrence else c.occurrence
      acked := false
      repeats := c.wanted.isSome || c.repeats }

def AskedChan.withRepeats (more : Bool) (c : AskedChan) : AskedChan :=
  { c with repeats := c.repeats || more }

@[simp] theorem AskedChan.withRepeats_false (c : AskedChan) : c.withRepeats false = c := by
  rw [withRepeats, Bool.or_false]

/-- A tick gives the channel something to send. -/
def AskedChan.stirs (want : Option InputAlarm) (statusPeriod textPeriod : Bool)
    (c : AskedChan) : Bool :=
  want != c.wanted || statusPeriod && (want.isSome || c.repeats) || textPeriod && want.isSome

namespace Asked

def start (cfg : AlertsCfg) (inst : Byte) (sourceName : IsoName) (now : Ms) : Asked :=
  ⟨cfg, inst, sourceName, now, now, fun _ => ⟨none, 0, false, false⟩⟩

def statusPeriod (q : Asked) (now : Ms) : Bool := decide (alertsStatusPeriodMs ≤ now - q.statusAt)

def textPeriod (q : Asked) (now : Ms) : Bool := decide (alertsTextPeriodMs ≤ now - q.textAt)

def acknowledged (q : Asked) (data : List Byte) (i : Channel) : Bool :=
  (n2kAlertDecodeResponse data).any fun r =>
    r.id.sourceName == q.sourceName && r.id.inst == q.inst &&
      r.id.id == BitVec.ofNat 16 (i.val + 1) &&
      (q.ch i).wanted.any (fun level => r.id.type == n2kAlertsTypeOf level) &&
      r.id.occurrence == (q.ch i).occurrence && r.command == alertResponseAcknowledge &&
      !(q.ch i).acked

def next (q : Asked) : AlertOp → Asked
  | .tick inputsReady inputMask now =>
    { q with
      statusAt := if q.statusPeriod now then now else q.statusAt
      textAt := if q.textPeriod now then now else q.textAt
      ch := fun i => (q.ch i).turn (q.cfg.wanted inputsReady inputMask i) }
  | .setConfig cfg => { q with cfg := cfg }
  | .response data =>
    { q with
      ch := fun i => if q.acknowledged data i then { q.ch i with acked := true } else q.ch i }

/-- The operation gives the channel something to send. -/
def stirs (q : Asked) (i : Channel) : AlertOp → Bool
  | .tick inputsReady inputMask now =>
    (q.ch i).stirs (q.cfg.wanted inputsReady inputMask i) (q.statusPeriod now) (q.textPeriod now)
  | .setConfig cfg => (q.ch i).wanted.isSome && q.cfg.message i != cfg.message i
  | .response data => q.acknowledged data i

/-- One account knows at least of the repeats another one knows of, and agrees
with it in everything else. -/
structure Covers (q' q : Asked) : Prop where
  frame : q'.cfg = q.cfg ∧ q'.inst = q.inst ∧ q'.sourceName = q.sourceName
  periods : q'.statusAt = q.statusAt ∧ q'.textAt = q.textAt
  ch : ∀ i, ∃ more, q'.ch i = (q.ch i).withRepeats more

variable {q q' q'' : Asked}

theorem Covers.refl (q : Asked) : Covers q q :=
  ⟨⟨rfl, rfl, rfl⟩, ⟨rfl, rfl⟩, fun i => ⟨false, by simp⟩⟩

theorem Covers.trans (h : Covers q'' q') (k : Covers q' q) : Covers q'' q := by
  obtain ⟨⟨hcfg, hinst, hname⟩, ⟨hstatus, htext⟩, hch⟩ := h
  refine ⟨⟨hcfg.trans k.frame.1, hinst.trans k.frame.2.1, hname.trans k.frame.2.2⟩,
    ⟨hstatus.trans k.periods.1, htext.trans k.periods.2⟩, fun i => ?_⟩
  obtain ⟨more, hi⟩ := k.ch i
  obtain ⟨more', hi'⟩ := hch i
  exact ⟨more || more', by simp [hi', hi, AskedChan.withRepeats, Bool.or_assoc]⟩

theorem Covers.periods_over (h : Covers q' q) (now : Ms) :
    q'.statusPeriod now = q.statusPeriod now ∧ q'.textPeriod now = q.textPeriod now := by
  unfold statusPeriod textPeriod
  rw [h.periods.1, h.periods.2]
  exact ⟨rfl, rfl⟩

theorem Covers.acknowledged (h : Covers q' q) (data : List Byte) (i : Channel) :
    q'.acknowledged data i = q.acknowledged data i := by
  obtain ⟨more, hi⟩ := h.ch i
  rw [Asked.acknowledged, Asked.acknowledged, hi, h.frame.2.1, h.frame.2.2]
  rfl

theorem Covers.next (h : Covers q' q) (op : AlertOp) : Covers (q'.next op) (q.next op) := by
  cases op with
  | tick inputsReady inputMask now =>
    obtain ⟨hstatus, htext⟩ := h.periods_over now
    refine ⟨h.frame, ?_, fun i => ?_⟩
    · change (if q'.statusPeriod now then now else q'.statusAt) =
          (if q.statusPeriod now then now else q.statusAt) ∧
        (if q'.textPeriod now then now else q'.textAt) =
          if q.textPeriod now then now else q.textAt
      rw [hstatus, htext, h.periods.1, h.periods.2]
      exact ⟨rfl, rfl⟩
    · obtain ⟨more, hi⟩ := h.ch i
      refine ⟨more, ?_⟩
      simp only [Asked.next, AskedChan.turn, AskedChan.withRepeats, hi, h.frame.1]
      split_ifs <;> simp [Bool.or_assoc]
  | setConfig cfg => exact ⟨⟨rfl, h.frame.2⟩, h.periods, h.ch⟩
  | response data =>
    refine ⟨h.frame, h.periods, fun i => ?_⟩
    obtain ⟨more, hi⟩ := h.ch i
    refine ⟨more, ?_⟩
    simp only [Asked.next, h.acknowledged data i, hi]
    split_ifs <;> rfl

/-- What the smaller account takes for something to send, the larger one does
too. -/
theorem Covers.stirs (h : Covers q' q) (op : AlertOp) (i : Channel)
    (hs : q.stirs i op = true) : q'.stirs i op = true := by
  obtain ⟨more, hi⟩ := h.ch i
  cases op with
  | tick inputsReady inputMask now =>
    obtain ⟨hstatus, htext⟩ := h.periods_over now
    simp only [Asked.stirs, AskedChan.stirs, AskedChan.withRepeats, hi, h.frame.1, hstatus, htext,
      Bool.or_eq_true, Bool.and_eq_true] at hs ⊢
    tauto
  | setConfig cfg =>
    simp only [Asked.stirs, hi, h.frame.1] at hs ⊢
    exact hs
  | response data => exact (h.acknowledged data i).trans hs

end Asked

namespace AlertChan

variable (c : AlertChan) (want : Bool) (level : InputAlarm)

def asked : AskedChan :=
  ⟨if c.active then some c.level else none, c.occurrence, c.acked, c.clearLeft != 0⟩

theorem react_asked :
    (c.react want level).asked = c.asked.turn (if want then some level else none) := by
  cases hactive : c.active <;> cases want
  · simp [react, clears, asked, AskedChan.turn, hactive]
  · simp [react, clears, asked, AskedChan.turn, raiseAlert, hactive]
  · simp [react, clears, asked, AskedChan.turn, beginClear, alertsClearRepeats, hactive]
  · by_cases hlevel : c.level = level
    · simp [react, clears, asked, AskedChan.turn, hactive, hlevel]
    · simp [react, clears, asked, AskedChan.turn, beginClear, raiseAlert, alertsClearRepeats,
        hactive, hlevel, Ne.symm hlevel]

theorem fallDue_asked (statusPeriod textPeriod : Bool) :
    (c.fallDue statusPeriod textPeriod).asked = c.asked := by
  rw [ChanInv.fallDue_eq]
  rfl

theorem sent_asked : ∃ more, c.asked = c.sent.asked.withRepeats more := by
  refine ⟨c.clearLeft != 0, ?_⟩
  unfold asked sent AskedChan.withRepeats
  simp only [AskedChan.mk.injEq, true_and]
  by_cases hleft : c.clearLeft = 0
  · simp [hleft]
  · simp [hleft]

/-- A channel with nothing due has something due after the first loop of a tick
exactly if the tick stirs it. -/
theorem due_of_idle (h : c.due = false) (statusPeriod textPeriod : Bool) :
    ((c.react want level).fallDue statusPeriod textPeriod).due =
      c.asked.stirs (if want then some level else none) statusPeriod textPeriod := by
  obtain ⟨htext, hstatus⟩ := (Bool.or_eq_false_iff).mp h
  rw [ChanInv.fallDue_eq]
  cases hactive : c.active <;> cases want
  · simp [react, clears, asked, AskedChan.stirs, due, hactive, htext, hstatus]
  · simp [react, clears, asked, AskedChan.stirs, due, raiseAlert, hactive]
  · simp [react, clears, asked, AskedChan.stirs, due, beginClear, hactive]
  · by_cases hlevel : c.level = level
    · simp [react, clears, asked, AskedChan.stirs, due, hactive, hlevel, htext, hstatus,
        Bool.or_comm]
    · simp [react, clears, asked, AskedChan.stirs, due, beginClear, raiseAlert, hactive, hlevel,
        Ne.symm hlevel]

end AlertChan

namespace N2kAlerts

def asked (a : N2kAlerts) : Asked :=
  ⟨a.cfg, a.inst, a.sourceName, a.statusAt, a.textAt, fun i => (a.ch i).asked⟩

variable (a : N2kAlerts)

theorem wanted_eq (inputsReady : Bool) (inputMask : Mask) (i : Channel) :
    (if a.wants inputsReady inputMask i then some (a.cfg.level i) else none) =
      a.cfg.wanted inputsReady inputMask i := rfl

theorem acknowledged_iff (data : List Byte) (i : Channel) :
    a.asked.acknowledged data i = true ↔
      ∃ r, n2kAlertDecodeResponse data = some r ∧ a.Acknowledges r i := by
  unfold Asked.acknowledged
  cases n2kAlertDecodeResponse data with
  | none => simp
  | some r =>
    simp only [Option.any_some, Bool.and_eq_true, beq_iff_eq, Bool.not_eq_true', Option.some.injEq,
      exists_eq_left', asked, AlertChan.asked]
    cases hactive : (a.ch i).active
    · refine iff_of_false (by simp) fun hack => ?_
      rw [hack.active] at hactive
      cases hactive
    · simp only [ite_true, Option.any_some, beq_iff_eq]
      constructor
      · rintro ⟨⟨⟨⟨⟨⟨hname, hinst⟩, hid⟩, htype⟩, hocc⟩, hcommand⟩, hunacked⟩
        exact ⟨hname, hinst, hid, hactive, htype, hocc, hcommand, hunacked⟩
      · intro hack
        exact ⟨⟨⟨⟨⟨⟨hack.sourceName, hack.inst⟩, hack.id⟩, hack.type⟩, hack.occurrence⟩,
          hack.command⟩, hack.unacked⟩

theorem response_asked (data : List Byte) :
    (∃ j name, (∀ i, a.asked.acknowledged data i = decide (i = j)) ∧
      a.n2kAlertsOnResponse data = (true, a.acknowledge j name)) ∨
    (∀ i, a.asked.acknowledged data i = false) ∧ a.n2kAlertsOnResponse data = (false, a) := by
  have hack := a.acknowledged_iff data
  rcases a.onResponse_cases data with ⟨r, j, hr, hacks, hresult⟩ | ⟨hnone, hresult⟩
  · refine .inl ⟨j, r.ackName, fun i => ?_, hresult⟩
    rw [Bool.eq_iff_iff, hack, decide_eq_true_iff]
    constructor
    · rintro ⟨r', hr', hacks'⟩
      cases hr.symm.trans hr'
      exact (chanId_inj i j).mp (hacks'.id.symm.trans hacks.id)
    · rintro rfl
      exact ⟨r, hr, hacks⟩
  · refine .inr ⟨fun i => ?_, hresult⟩
    rw [← Bool.not_eq_true, hack]
    rintro ⟨r, hr, hacks⟩
    exact hnone r i hr hacks

theorem acknowledge_ch (i j : Channel) (name : IsoName) : (a.acknowledge j name).ch i =
    if i = j then { a.ch i with acked := true, ackName := name, statusDue := true }
    else a.ch i := by
  unfold acknowledge
  split_ifs with hij
  · subst hij
    exact Function.update_self ..
  · exact Function.update_of_ne hij ..

theorem step_covered (op : AlertOp) : Asked.Covers (a.asked.next op) (a.step op).asked := by
  cases op with
  | tick inputsReady inputMask now =>
    have hframe := a.tick_frame inputsReady inputMask now
    refine ⟨⟨hframe.1.symm, hframe.2.1.symm, hframe.2.2.symm⟩, ?_, fun i => ?_⟩
    · change _ = (a.n2kAlertsTick inputsReady inputMask now).1.statusAt ∧
        _ = (a.n2kAlertsTick inputsReady inputMask now).1.textAt
      unfold n2kAlertsTick
      dsimp only
      split <;> exact ⟨rfl, rfl⟩
    · have hsettled : ((a.settle inputsReady inputMask now).ch i).asked =
          (a.ch i).asked.turn (a.cfg.wanted inputsReady inputMask i) := by
        change AlertChan.asked (AlertChan.fallDue _ _ _) = _
        rw [AlertChan.fallDue_asked, AlertChan.react_asked, wanted_eq]
      change ∃ more, (a.ch i).asked.turn (a.cfg.wanted inputsReady inputMask i) =
        ((a.n2kAlertsTick inputsReady inputMask now).1.ch i).asked.withRepeats more
      rw [← hsettled, tick_ch]
      split_ifs
      · exact AlertChan.sent_asked _
      · exact ⟨false, by simp⟩
  | setConfig cfg =>
    refine ⟨⟨rfl, rfl, rfl⟩, ⟨rfl, rfl⟩, fun i => ⟨false, ?_⟩⟩
    rw [AskedChan.withRepeats_false]
    change (a.ch i).asked = AlertChan.asked (if _ then _ else _)
    split_ifs <;> rfl
  | response data =>
    change Asked.Covers _ (a.n2kAlertsOnResponse data).2.asked
    rcases a.response_asked data with ⟨j, name, hacks, hresult⟩ | ⟨hnone, hresult⟩ <;> rw [hresult]
    · refine ⟨⟨rfl, rfl, rfl⟩, ⟨rfl, rfl⟩, fun i => ⟨false, ?_⟩⟩
      rw [AskedChan.withRepeats_false]
      change (if a.asked.acknowledged data i then { (a.ch i).asked with acked := true }
        else (a.ch i).asked) = ((a.acknowledge j name).ch i).asked
      rw [hacks, acknowledge_ch]
      by_cases hij : i = j
      · rw [if_pos (decide_eq_true hij), if_pos hij]
        rfl
      · rw [if_neg (by simpa using hij), if_neg hij]
    · refine ⟨⟨rfl, rfl, rfl⟩, ⟨rfl, rfl⟩, fun i => ⟨false, ?_⟩⟩
      rw [AskedChan.withRepeats_false]
      exact if_neg (by rw [hnone i]; exact Bool.false_ne_true)

theorem run_covered {a : N2kAlerts} {q : Asked} (h : Asked.Covers q a.asked)
    (ops : List AlertOp) : Asked.Covers (run Asked.next q ops) (run step a ops).asked := by
  induction ops using List.reverseRecOn with
  | nil => exact h
  | append_singleton ops op ih =>
    rw [run_snoc, run_snoc]
    exact (ih.next op).trans (step_covered _ op)

theorem start_covered (cfg : AlertsCfg) (inst : Byte) (sourceName : IsoName) (now : Ms) :
    Asked.Covers (.start cfg inst sourceName now) (n2kAlertsInit cfg inst sourceName now).asked :=
  .refl _

end N2kAlerts

end RelayBoard
