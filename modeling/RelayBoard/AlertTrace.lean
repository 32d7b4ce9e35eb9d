import RelayBoard.Lib.Traces
import RelayBoard.N2kAlerts

/-!
# One channel's alerts, event by event

What happens to a channel in a run: alerts raised and cleared, the statuses
sent of them, acknowledgements, and moments at which nothing is left to do. A
ledger kept along these events knows how many alerts there were, which is
open, who acknowledged it and which was cleared last.
-/

set_option autoImplicit false

namespace RelayBoard
open BitVec Lib Lib.Loops Lib.Runs Lib.Journal

inductive ChanEvent where
  | raised (level : InputAlarm) (occurrence : Byte)
  | cleared
  | told (st : Alert)
  | normal (st : Alert)
  | acked (name : IsoName)
  | idle
  deriving DecidableEq

def AlertChan.idle (c : AlertChan) : Bool := !c.active && c.clearLeft == 0 && !c.due

/-- The alert is raised, once a cleared one is out of the way. -/
def AlertChan.raises (want : Bool) (level : InputAlarm) (c : AlertChan) : Bool :=
  want && (!c.active || c.level != level)

/-- What the first loop of a tick does to a channel. -/
def AlertChan.turns (want : Bool) (level : InputAlarm) (c : AlertChan) : List ChanEvent :=
  (if c.clears want level then [.cleared] else []) ++
    if c.raises want level then [.raised level (nextOccurrence c.occurrence)] else []

def ChanEvent.ofMsg (i : Channel) : AlertMsg → Option ChanEvent
  | .status st =>
    if st.id.id = BitVec.ofNat 16 (i.val + 1) then
      some (if st.state = alertStateNormal then .normal st else .told st)
    else none
  | .text _ _ _ => none

namespace N2kAlerts

def acks (a : N2kAlerts) (data : List Byte) (i : Channel) : List ChanEvent :=
  match n2kAlertDecodeResponse data with
  | none => []
  | some r =>
    if (a.n2kAlertsOnResponse data).1 && r.id.id = BitVec.ofNat 16 (i.val + 1) then
      [.acked r.ackName]
    else []

def events (i : Channel) (a : N2kAlerts) (op : AlertOp) : List ChanEvent :=
  (match op with
    | .tick inputsReady inputMask _ =>
      (a.ch i).turns (a.wants inputsReady inputMask i) (a.cfg.level i)
    | .response data => a.acks data i
    | .setConfig _ => []) ++
  (a.sends op).filterMap (ChanEvent.ofMsg i) ++
  if ((a.step op).ch i).idle then [.idle] else []

def trace (i : Channel) (a : N2kAlerts) (ops : List AlertOp) : List ChanEvent :=
  journal (events i) (history step a ops)

end N2kAlerts

/-- What is known of a channel: the number of alerts raised; the open alert's
level and occurrence, whether a status of it has been sent, who acknowledged
it; the alert cleared last; an alert of which a status was sent, cleared and
not yet reported normal; whether such an alert has been overtaken by a later
one's clear. -/
structure Ledger where
  raises : ℕ
  opened : Option (InputAlarm × Byte)
  told : Bool
  acked : Option IsoName
  ended : Option (InputAlarm × Byte)
  owed : Option (InputAlarm × Byte)
  lost : Bool

/-- The status reports the alert of this level and occurrence. -/
def Alert.reports (st : Alert) (p : InputAlarm × Byte) : Prop :=
  st.id.type = n2kAlertsTypeOf p.1 ∧ st.id.occurrence = p.2

instance (st : Alert) (p : InputAlarm × Byte) : Decidable (st.reports p) :=
  inferInstanceAs (Decidable (_ ∧ _))

namespace Ledger

def empty : Ledger := ⟨0, none, false, none, none, none, false⟩

def note (L : Ledger) : ChanEvent → Ledger
  | .raised level occurrence =>
    { L with
      raises := L.raises + 1
      opened := some (level, occurrence)
      told := false
      acked := none }
  | .cleared =>
    { L with
      opened := none
      told := false
      ended := L.opened
      owed := if L.told then L.opened else L.owed
      lost := L.lost || L.owed.isSome }
  | .told _ => { L with told := true }
  | .normal st => { L with owed := L.owed.filter fun p => ¬st.reports p }
  | .acked name => { L with acked := some name }
  | .idle => L

def read (L : Ledger) (es : List ChanEvent) : Ledger := Traces.read note L es

@[simp] theorem read_nil (L : Ledger) : L.read [] = L := rfl

@[simp] theorem read_cons (L : Ledger) (e : ChanEvent) (es : List ChanEvent) :
    L.read (e :: es) = (L.note e).read es := rfl

theorem read_append (L : Ledger) (xs ys : List ChanEvent) :
    L.read (xs ++ ys) = (L.read xs).read ys := Traces.read_append L xs ys

end Ledger

/-- The occurrence number the n-th alert of a channel gets. -/
def occurrenceOf (n : ℕ) : Byte := BitVec.ofNat 8 (if n = 0 then 0 else (n - 1) % 255 + 1)

/-- How each event goes with what the ledger holds by then. -/
def AlertRule (L : Ledger) : ChanEvent → Prop
  | .raised level occurrence =>
    L.opened = none ∧ level ≠ .off ∧ occurrence = occurrenceOf (L.raises + 1)
  | .cleared => ∃ p, L.opened = some p
  | .told st =>
    (∃ p, L.opened = some p ∧ st.reports p) ∧
      st.state = (if L.acked.isSome then alertStateAcknowledged else alertStateActive) ∧
      st.ackName = L.acked.getD alertNameNone
  | .normal st =>
    (∃ p, L.ended = some p ∧ st.reports p) ∧ ∀ q, L.opened = some q → ¬st.reports q
  | .acked _ => (∃ p, L.opened = some p) ∧ L.acked = none
  | .idle => L.opened = none ∧ (L.lost = false → L.owed = none)

/-- The alert stays the open one through the event. -/
def ChanEvent.within : ChanEvent → Bool
  | .raised _ _ => false
  | .cleared => false
  | _ => true

/-- An alert raised and not cleared since. -/
def Open (es : List ChanEvent) (p : InputAlarm × Byte) (since : List ChanEvent) : Prop :=
  ∃ before, es = before ++ .raised p.1 p.2 :: since ∧ ∀ e ∈ since, e.within = true

/-- An alert that was open until it was cleared. -/
def Ended (es : List ChanEvent) (p : InputAlarm × Byte) (during since : List ChanEvent) : Prop :=
  ∃ upto, es = upto ++ .cleared :: since ∧ Open upto p during

section Reading

theorem open_snoc {es since : List ChanEvent} {p : InputAlarm × Byte} (h : Open es p since)
    {e : ChanEvent} (he : e.within = true) : Open (es ++ [e]) p (since ++ [e]) := by
  obtain ⟨before, rfl, hall⟩ := h
  refine ⟨before, by simp, ?_⟩
  intro x hx
  rcases List.mem_append.mp hx with hx | hx
  · exact hall x hx
  · rwa [List.mem_singleton.mp hx]

theorem ended_snoc {es during since : List ChanEvent} {p : InputAlarm × Byte}
    (h : Ended es p during since) (e : ChanEvent) : Ended (es ++ [e]) p during (since ++ [e]) := by
  obtain ⟨upto, rfl, hopen⟩ := h
  exact ⟨upto, by simp, hopen⟩

theorem read_within (L : Ledger) (es : List ChanEvent) (h : ∀ e ∈ es, e.within = true) :
    (L.read es).opened = L.opened ∧ (L.read es).ended = L.ended := by
  induction es generalizing L with
  | nil => exact ⟨rfl, rfl⟩
  | cons e es ih =>
    obtain ⟨he, hes⟩ := List.forall_mem_cons.mp h
    obtain ⟨hopened, hended⟩ := ih (L.note e) hes
    rw [Ledger.read_cons, hopened, hended]
    cases e with
    | raised level occurrence => cases he
    | cleared => cases he
    | _ => exact ⟨rfl, rfl⟩

def ChanEvent.isRaise : ChanEvent → Bool
  | .raised _ _ => true
  | _ => false

theorem read_raises (L : Ledger) (es : List ChanEvent) :
    (L.read es).raises = L.raises + es.countP ChanEvent.isRaise := by
  induction es generalizing L with
  | nil => rfl
  | cons e es ih =>
    rw [Ledger.read_cons, ih, List.countP_cons]
    cases e with
    | raised level occurrence =>
      change L.raises + 1 + _ = L.raises + (_ + 1)
      omega
    | _ => rfl

theorem opened_of_open {es since : List ChanEvent} {p : InputAlarm × Byte}
    (h : Open es p since) (L : Ledger) : (L.read es).opened = some p := by
  obtain ⟨before, rfl, hall⟩ := h
  rw [Ledger.read_append, Ledger.read_cons, (read_within _ since hall).1]
  rfl

theorem open_of_opened {es : List ChanEvent} {p : InputAlarm × Byte}
    (h : (Ledger.empty.read es).opened = some p) : ∃ since, Open es p since := by
  induction es using List.reverseRecOn with
  | nil => cases h
  | append_singleton es e ih =>
    rw [Ledger.read_append, Ledger.read_cons, Ledger.read_nil] at h
    cases e with
    | raised level occurrence =>
      cases h
      exact ⟨[], es, rfl, by simp⟩
    | cleared => cases h
    | _ =>
      obtain ⟨since, hopen⟩ := ih h
      exact ⟨since ++ [_], open_snoc hopen rfl⟩

/-- The alert the ledger saw cleared last was open until then. -/
theorem ended_of_ended {es : List ChanEvent} {p : InputAlarm × Byte}
    (h : (Ledger.empty.read es).ended = some p) : ∃ during since, Ended es p during since := by
  induction es using List.reverseRecOn with
  | nil => cases h
  | append_singleton es e ih =>
    rw [Ledger.read_append, Ledger.read_cons, Ledger.read_nil] at h
    cases e with
    | cleared =>
      obtain ⟨during, hopen⟩ := open_of_opened h
      exact ⟨during, [], es, rfl, hopen⟩
    | _ =>
      obtain ⟨during, since, hended⟩ := ih h
      exact ⟨during, since ++ [_], ended_snoc hended _⟩

end Reading

namespace N2kAlerts

section Tick

variable (a : N2kAlerts) (inputsReady : Bool) (inputMask : Mask) (now : Ms) (i : Channel)

theorem chanId_inj (i j : Channel) :
    BitVec.ofNat 16 (i.val + 1) = BitVec.ofNat 16 (j.val + 1) ↔ i = j := by
  revert i j
  decide

def statuses (a : N2kAlerts) (i : Channel) : List ChanEvent :=
  if (a.ch i).statusDue then
    (if (a.ch i).clearLeft != 0 then [.normal (a.n2kAlertsStatusOf i true)] else []) ++
      if (a.ch i).active then [.told (a.n2kAlertsStatusOf i false)] else []
  else []

theorem statusOf_id (clearing : Bool) :
    (a.n2kAlertsStatusOf i clearing).id.id = BitVec.ofNat 16 (i.val + 1) := by
  cases clearing <;> rfl

theorem ofMsg_clearing (j : Channel) :
    ChanEvent.ofMsg j (.status (a.n2kAlertsStatusOf i true)) =
      if i = j then some (.normal (a.n2kAlertsStatusOf i true)) else none := by
  simp only [ChanEvent.ofMsg, statusOf_id, chanId_inj]
  rfl

theorem ofMsg_active (j : Channel) :
    ChanEvent.ofMsg j (.status (a.n2kAlertsStatusOf i false)) =
      if i = j then some (.told (a.n2kAlertsStatusOf i false)) else none := by
  have hstate : (a.n2kAlertsStatusOf i false).state ≠ alertStateNormal := by
    change (if (a.ch i).acked then alertStateAcknowledged else alertStateActive) ≠ _
    split_ifs <;> decide
  simp only [ChanEvent.ofMsg, statusOf_id, chanId_inj, if_neg hstate]

theorem ofMsg_text (j : Channel) (id : AlertId) (description location : List Byte) :
    ChanEvent.ofMsg j (.text id description location) = none := rfl

theorem messages_events (j : Channel) :
    (a.messages i).filterMap (ChanEvent.ofMsg j) = if i = j then a.statuses i else [] := by
  unfold messages statuses
  simp only [List.filterMap_append, apply_ite (List.filterMap (ChanEvent.ofMsg j)),
    List.filterMap_cons, List.filterMap_nil, ofMsg_clearing, ofMsg_active, ofMsg_text]
  by_cases hij : i = j
  · simp [hij]
  · simp [hij]

/-- A tick settles every channel; the one whose turn it is has sent. -/
theorem tick_ch : ((a.n2kAlertsTick inputsReady inputMask now).1.ch i) =
    if (a.settle inputsReady inputMask now).turn = some i then
      ((a.settle inputsReady inputMask now).ch i).sent
    else (a.settle inputsReady inputMask now).ch i := by
  unfold n2kAlertsTick
  dsimp only
  cases hturn : (a.settle inputsReady inputMask now).turn with
  | none => rfl
  | some j =>
    by_cases hj : i = j
    · subst hj
      simp
    · simp [hj, Ne.symm hj]

theorem tick_statuses :
    (a.n2kAlertsTick inputsReady inputMask now).2.filterMap (ChanEvent.ofMsg i) =
      if (a.settle inputsReady inputMask now).turn = some i then
        (a.settle inputsReady inputMask now).statuses i
      else [] := by
  unfold n2kAlertsTick
  dsimp only
  cases hturn : (a.settle inputsReady inputMask now).turn with
  | none => rfl
  | some j =>
    dsimp only
    rw [messages_events]
    by_cases hj : j = i
    · subst hj
      simp
    · simp [hj]

end Tick

end N2kAlerts

end RelayBoard
