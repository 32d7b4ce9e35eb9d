import RelayBoard.AlertChannels

/-!
# What the alert messages say is so

A text or an active status goes out only in a tick that wants the alert, at
the severity in its type. It says acknowledged, and by whom, just when a
response was accepted since the alert was raised. A normal status is of an
alert that was raised and has been cleared, and not of the open one. The
messages of one tick are of one channel.
-/

set_option autoImplicit false

namespace RelayBoard
open BitVec Lib Lib.Loops Lib.Runs Lib.Journal

def AlertMsg.isNormal : AlertMsg → Bool
  | .status st => st.state == alertStateNormal
  | .text _ _ _ => false

/-- The tick finds the input's alarm wanted, at the severity of the message. -/
def WantedAt (a : N2kAlerts) (i : Channel) (m : AlertMsg) : AlertOp → Prop
  | .tick inputsReady inputMask _ =>
    a.cfg.enabled = true ∧ a.cfg.inputsOn = true ∧ inputsReady = true ∧ inputMask.has i = true ∧
      a.cfg.level i ≠ .off ∧ m.id.type = n2kAlertsTypeOf (a.cfg.level i)
  | _ => False

def ToldRight (past : List ChanEvent) (st : Alert) : Prop :=
  ∃ p since, Open past p since ∧ st.reports p ∧
    (st.state = alertStateAcknowledged ↔ ∃ name, .acked name ∈ since) ∧
    (st.state = alertStateActive ↔ ∀ name, .acked name ∉ since) ∧
    ∀ name, .acked name ∈ since → st.ackName = name

def NormalRight (past : List ChanEvent) (st : Alert) : Prop :=
  (∃ p during since, Ended past p during since ∧ st.reports p) ∧
    ∀ p since, Open past p since → ¬st.reports p

/-- Within an alert's time the ledger's acknowledgement is the accepted one. -/
theorem acked_within {L : Ledger} {es : List ChanEvent}
    (h : Traces.Follows Ledger.note AlertRule L es) (hwithin : ∀ e ∈ es, e.within = true)
    (name : IsoName) : (L.read es).acked = some name ↔ L.acked = some name ∨ .acked name ∈ es := by
  induction es generalizing L with
  | nil => simp
  | cons e es ih =>
    obtain ⟨he, hes⟩ := List.forall_mem_cons.mp hwithin
    rw [Ledger.read_cons, ih h.2 hes, List.mem_cons]
    cases e with
    | raised level occurrence => cases he
    | cleared => cases he
    | acked other =>
      have hnone : L.acked = none := h.1.2
      simp [Ledger.note, hnone, eq_comm]
    | _ => simp [Ledger.note]

theorem acked_open {es since : List ChanEvent} {p : InputAlarm × Byte}
    (h : Traces.Follows Ledger.note AlertRule Ledger.empty es) (hopen : Open es p since)
    (name : IsoName) : (Ledger.empty.read es).acked = some name ↔ .acked name ∈ since := by
  obtain ⟨before, hes, hwithin⟩ := hopen
  have hsince : Traces.Follows Ledger.note AlertRule
      ((Ledger.empty.read before).note (.raised p.1 p.2)) since := (h.after hes).2
  rw [hes, Ledger.read_append, Ledger.read_cons, acked_within hsince hwithin]
  simp [Ledger.note]

theorem told_right {past : List ChanEvent} {st : Alert}
    (h : Traces.Follows Ledger.note AlertRule Ledger.empty past)
    (hst : AlertRule (Ledger.empty.read past) (.told st)) : ToldRight past st := by
  obtain ⟨⟨p, hp, hrep⟩, hstate, hname⟩ := hst
  obtain ⟨since, hopen⟩ := open_of_opened hp
  have hacked := acked_open h hopen
  refine ⟨p, since, hopen, hrep, ?_⟩
  cases hack : (Ledger.empty.read past).acked with
  | none =>
    simp only [hack, reduceCtorEq, false_iff] at hacked
    rw [hack] at hstate
    have hactive : st.state = alertStateActive := hstate
    refine ⟨?_, ?_, fun name hmem => absurd hmem (hacked name)⟩
    · rw [hactive]
      exact ⟨fun hne => absurd hne (by decide), fun ⟨name, hmem⟩ => absurd hmem (hacked name)⟩
    · exact ⟨fun _ => hacked, fun _ => hactive⟩
  | some name =>
    rw [hack] at hstate hname
    have hacknowledged : st.state = alertStateAcknowledged := hstate
    have hmem : .acked name ∈ since := (hacked name).mp hack
    refine ⟨⟨fun _ => ⟨name, hmem⟩, fun _ => hacknowledged⟩, ?_, fun other hother => ?_⟩
    · rw [hacknowledged]
      exact ⟨fun hne => absurd hne (by decide), fun hno => absurd hmem (hno name)⟩
    · have hsame := (hacked other).mpr hother
      rw [hack] at hsame
      exact hname.trans (Option.some.inj hsame)

theorem normal_right {past : List ChanEvent} {st : Alert}
    (hst : AlertRule (Ledger.empty.read past) (.normal st)) : NormalRight past st := by
  obtain ⟨⟨p, hp, hrep⟩, hother⟩ := hst
  obtain ⟨during, since, hended⟩ := ended_of_ended hp
  exact ⟨⟨p, during, since, hended, hrep⟩,
    fun q later hopen => hother q (opened_of_open hopen _)⟩

namespace N2kAlerts

section Tick

variable (a : N2kAlerts) (inputsReady : Bool) (inputMask : Mask) (now : Ms) (i : Channel)

theorem react_active {c : AlertChan} {want : Bool} {level : InputAlarm}
    (h : (c.react want level).active = true) :
    want = true ∧ (c.react want level).level = level := by
  revert h
  unfold AlertChan.react
  cases hclears : c.clears want level with
  | true => cases want <;> simp [AlertChan.beginClear, AlertChan.raiseAlert]
  | false =>
    cases hc : c.active with
    | true => simpa [AlertChan.clears, hc] using hclears
    | false => cases want <;> simp [AlertChan.raiseAlert, hc]

theorem settle_active (h : ((a.settle inputsReady inputMask now).ch i).active = true) :
    a.wants inputsReady inputMask i = true ∧
      ((a.settle inputsReady inputMask now).ch i).level = a.cfg.level i := by
  unfold settle at h ⊢
  dsimp only at h ⊢
  rw [ChanInv.fallDue_eq] at h ⊢
  exact react_active h

/-- Every message of a channel is its own; unless normal, it is of its open
alert. -/
theorem messages_own {L : Ledger} (h : ChanInv (a.ch i) L) {m : AlertMsg}
    (hm : m ∈ a.messages i) : m.id.id = BitVec.ofNat 16 (i.val + 1) ∧
      (m.isNormal = false → (a.ch i).active = true ∧
        m.id.type = n2kAlertsTypeOf (a.ch i).level) := by
  unfold messages at hm
  simp only [List.mem_append, List.mem_ite_nil_right, List.mem_singleton] at hm
  rcases hm with ⟨htext, rfl⟩ | ⟨-, ⟨-, rfl⟩ | ⟨hactive, rfl⟩⟩
  · exact ⟨rfl, fun _ => ⟨h.text htext, rfl⟩⟩
  · exact ⟨rfl, fun hno => Bool.noConfusion (hno : true = false)⟩
  · exact ⟨rfl, fun _ => ⟨hactive, rfl⟩⟩

theorem sends_wanted {L : Channel → Ledger} (h : ∀ i, ChanInv (a.ch i) (L i)) (op : AlertOp) :
    ∃ i, ∀ m ∈ a.sends op, m.id.id = BitVec.ofNat 16 (i.val + 1) ∧
      (m.isNormal = false → WantedAt a i m op) := by
  cases op with
  | setConfig cfg => exact ⟨0, fun m hm => absurd hm List.not_mem_nil⟩
  | response data => exact ⟨0, fun m hm => absurd hm List.not_mem_nil⟩
  | tick inputsReady inputMask now =>
    change ∃ i, ∀ m ∈ (a.n2kAlertsTick inputsReady inputMask now).2, _
    unfold n2kAlertsTick
    dsimp only
    cases (a.settle inputsReady inputMask now).turn with
    | none => exact ⟨0, fun m hm => absurd hm List.not_mem_nil⟩
    | some i =>
      refine ⟨i, fun m hm => ?_⟩
      obtain ⟨hid, hopen⟩ := messages_own _ i (settle_kept (h i) inputsReady inputMask now).inv hm
      refine ⟨hid, fun hno => ?_⟩
      obtain ⟨hactive, htype⟩ := hopen hno
      obtain ⟨hwants, hlevel⟩ := settle_active a inputsReady inputMask now i hactive
      simp only [wants, Bool.and_eq_true, bne_iff_ne] at hwants
      obtain ⟨⟨⟨⟨henabled, hinputs⟩, hready⟩, hoff⟩, hon⟩ := hwants
      exact ⟨henabled, hinputs, hready, hon, hoff, htype.trans (by rw [hlevel])⟩

end Tick

/-- In every run the channels keep their rules, and every message that is sent
is honest. -/
theorem run_alerts_honest (cfg : AlertsCfg) (inst : Byte) (sourceName : IsoName) (now : Ms)
    (ops : List AlertOp) :
    let a₀ := n2kAlertsInit cfg inst sourceName now
    let a := run step a₀ ops
    (∀ i, ((a.ch i).acked = true → (a.ch i).active = true) ∧
      ((a.ch i).textDue = true → (a.ch i).active = true) ∧
      ((a.ch i).statusDue = true → (a.ch i).active = true ∨ 0 < (a.ch i).clearLeft) ∧
      (a.ch i).clearLeft ≤ 3) ∧
    (∀ op, ∃ i, ∀ m ∈ a.sends op, m.id.id = BitVec.ofNat 16 (i.val + 1) ∧
      (m.isNormal = false → WantedAt a i m op)) ∧
    ∀ i past st later,
      (trace i a₀ ops = past ++ .told st :: later → ToldRight past st) ∧
      (trace i a₀ ops = past ++ .normal st :: later → NormalRight past st) := by
  intro a₀ a
  have hkept := fun i => run_kept (i := i) cfg inst sourceName now ops
  refine ⟨fun i => ?_, sends_wanted a fun i => (hkept i).inv, fun i past st later => ⟨?_, ?_⟩⟩
  · exact ⟨(hkept i).inv.acked, (hkept i).inv.text, (hkept i).inv.status, (hkept i).inv.left⟩
  · exact fun htrace => told_right ((hkept i).follows.before htrace) ((hkept i).follows.at htrace)
  · exact fun htrace => normal_right ((hkept i).follows.at htrace)

end N2kAlerts

end RelayBoard
