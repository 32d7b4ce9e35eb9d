import RelayBoard.HonestAlerts

/-!
# Every alert told of is reported normal

A channel has one place for an alert that is still to be reported normal. The
report waits while channels of lower number have messages due. A second alert
cleared meanwhile takes the place of the first, which is then never reported.
In runs where that does not happen, every alert of which a status was sent is
reported normal before its channel is idle.
-/

set_option autoImplicit false

namespace RelayBoard
open BitVec Lib Lib.Loops Lib.Runs Lib.Journal

/-- A report of each alert told of comes between its end and an idle moment. -/
def NormalsReported (es : List ChanEvent) : Prop :=
  ∀ before p during mid later,
    es = before ++ .raised p.1 p.2 :: during ++ .cleared :: mid ++ .idle :: later →
    (∀ e ∈ during, e.within = true) → (∃ st, .told st ∈ during) →
    ∃ st, .normal st ∈ mid ∧ st.reports p

def ChanEvent.isReport (p : InputAlarm × Byte) : ChanEvent → Bool
  | .normal st => decide (st.reports p)
  | _ => false

/-- The tick clears the channel's alert while an earlier one, told of and
cleared, has not been reported normal. -/
def Overtakes (i : Channel) (a : N2kAlerts) (L : Ledger) : AlertOp → Prop
  | .tick inputsReady inputMask _ =>
    (a.ch i).clears (a.wants inputsReady inputMask i) (a.cfg.level i) = true ∧ L.owed ≠ none
  | _ => False

instance (i : Channel) (a : N2kAlerts) (L : Ledger) : DecidablePred (Overtakes i a L) := fun op =>
  match op with
  | .tick _ _ _ => inferInstanceAs (Decidable (_ ∧ _))
  | .setConfig _ => inferInstanceAs (Decidable False)
  | .response _ => inferInstanceAs (Decidable False)

section Ledger

variable {L : Ledger} {es : List ChanEvent}

theorem lost_calm (h : ∀ e ∈ es, e ≠ .cleared) : (L.read es).lost = L.lost := by
  induction es generalizing L with
  | nil => rfl
  | cons e es ih =>
    obtain ⟨he, hes⟩ := List.forall_mem_cons.mp h
    rw [Ledger.read_cons, ih hes]
    cases e with
    | cleared => exact absurd rfl he
    | _ => rfl

theorem lost_before (h : (L.read es).lost = false) : L.lost = false := by
  induction es generalizing L with
  | nil => exact h
  | cons e es ih =>
    have hnote := ih h
    cases e with
    | cleared => exact (Bool.or_eq_false_iff.mp hnote).1
    | _ => exact hnote

/-- An owed alert stays owed until it is reported or overtaken. -/
theorem owed_stays {p : InputAlarm × Byte} (h : L.owed = some p)
    (hlost : (L.read es).lost = false) (hno : ∀ st, .normal st ∈ es → ¬st.reports p) :
    (L.read es).owed = some p := by
  induction es generalizing L with
  | nil => exact h
  | cons e es ih =>
    refine ih ?_ hlost (fun st hst => hno st (List.mem_cons_of_mem _ hst))
    cases e with
    | cleared =>
      have hnote : (L.lost || L.owed.isSome) = false := lost_before (L := L.note .cleared) hlost
      simp [h] at hnote
    | normal st =>
      change L.owed.filter _ = some p
      rw [h, Option.filter_some_pos]
      simpa using hno st (List.mem_cons_self ..)
    | _ => exact h

theorem told_within (hwithin : ∀ e ∈ es, e.within = true)
    (h : L.told = true ∨ ∃ st, .told st ∈ es) : (L.read es).told = true := by
  induction es generalizing L with
  | nil => simpa using h
  | cons e es ih =>
    obtain ⟨he, hes⟩ := List.forall_mem_cons.mp hwithin
    refine ih hes ?_
    rcases h with h | ⟨st, hst⟩
    · cases e with
      | raised level occurrence => cases he
      | cleared => cases he
      | told st => exact .inl rfl
      | _ => exact .inl h
    · rcases List.mem_cons.mp hst with rfl | hst
      · exact .inl rfl
      · exact .inr ⟨st, hst⟩

/-- Where no owed alert was overtaken, each was reported in time. -/
theorem normals_reported (h : Traces.Follows Ledger.note AlertRule .empty es)
    (hlost : (Ledger.empty.read es).lost = false) : NormalsReported es := by
  intro before p during mid later hes hwithin htold
  by_contra hno
  push Not at hno
  have hrule : AlertRule (Ledger.empty.read _) .idle := h.at hes
  rw [hes, Ledger.read_append] at hlost
  have hlostIdle := lost_before hlost
  have howed := hrule.2 hlostIdle
  rw [Ledger.read_append, Ledger.read_append, Ledger.read_cons] at howed hlostIdle
  rw [Ledger.read_cons] at howed hlostIdle
  have hopened : ((Ledger.empty.read before).note (.raised p.1 p.2)).opened = some p := rfl
  have hcleared : ((((Ledger.empty.read before).note (.raised p.1 p.2)).read during).note
      .cleared).owed = some p := by
    change (if _ then _ else _) = some p
    rw [told_within hwithin (.inr htold), if_pos rfl, (read_within _ during hwithin).1, hopened]
  rw [owed_stays hcleared hlostIdle hno] at howed
  cases howed

end Ledger

namespace N2kAlerts

section Run

variable {a : N2kAlerts} {i : Channel} {L : Ledger}

theorem ofMsg_calm {m : AlertMsg} {e : ChanEvent} (h : ChanEvent.ofMsg i m = some e) :
    e ≠ .cleared := by
  cases m with
  | text id description location => cases h
  | status st =>
    simp only [ChanEvent.ofMsg] at h
    split at h
    · cases h
      split
      · intro hno
        cases hno
      · intro hno
        cases hno
    · cases h

theorem acks_calm (data : List Byte) : ∀ e ∈ a.acks data i, e ≠ .cleared := by
  intro e he
  unfold acks at he
  cases hdecode : n2kAlertDecodeResponse data with
  | none => simp [hdecode] at he
  | some r =>
    rw [hdecode] at he
    obtain ⟨-, rfl⟩ := List.mem_ite_nil_right.mp he |>.imp_right List.mem_singleton.mp
    exact nofun

theorem events_lost (op : AlertOp) (hlost : L.lost = false) (h : ¬Overtakes i a L op) :
    (L.read (events i a op)).lost = false := by
  have hidle : ∀ e ∈ (if ((a.step op).ch i).idle then [ChanEvent.idle] else []), e ≠ .cleared := by
    intro e he
    obtain ⟨-, rfl⟩ := List.mem_ite_nil_right.mp he |>.imp_right List.mem_singleton.mp
    exact nofun
  have hsent : ∀ e ∈ (a.sends op).filterMap (ChanEvent.ofMsg i), e ≠ .cleared := by
    intro e he
    obtain ⟨m, -, hm⟩ := List.mem_filterMap.mp he
    exact ofMsg_calm hm
  unfold events
  rw [Ledger.read_append, lost_calm hidle, Ledger.read_append, lost_calm hsent]
  cases op with
  | setConfig cfg => exact hlost
  | response data =>
    rw [lost_calm (acks_calm data)]
    exact hlost
  | tick inputsReady inputMask now =>
    unfold AlertChan.turns
    rw [Ledger.read_append, lost_calm]
    · split
      · rename_i hclears
        have howed : L.owed = none := by
          by_contra hne
          exact h ⟨hclears, hne⟩
        change (L.lost || L.owed.isSome) = false
        rw [hlost, howed]
        rfl
      · exact hlost
    · intro e he
      obtain ⟨-, rfl⟩ := List.mem_ite_nil_right.mp he |>.imp_right List.mem_singleton.mp
      exact nofun

end Run

/-- In a run in which no tick overtakes an owed alert of the channel, every
alert told of is reported normal. -/
theorem run_normals_reported (cfg : AlertsCfg) (inst : Byte) (sourceName : IsoName) (now : Ms)
    (i : Channel) (ops : List AlertOp)
    (h : ∀ e past, e :: past <:+ history step (n2kAlertsInit cfg inst sourceName now) ops →
      ¬Overtakes i e.1 (Ledger.empty.read (journal (events i) past)) e.2) :
    NormalsReported (trace i (n2kAlertsInit cfg inst sourceName now) ops) := by
  obtain ⟨hfollows, -, hlost⟩ := Traces.run_follows step (events i)
    (I := fun a L => ChanInv (a.ch i) L ∧ L.lost = false) (P := fun a L op => ¬Overtakes i a L op)
    (n2kAlertsInit cfg inst sourceName now) .empty ⟨ChanInv.zero, rfl⟩
    (fun _ _ op hinv hop => ⟨(step_kept hinv.1 op).follows, (step_kept hinv.1 op).inv,
      events_lost op hinv.2 hop⟩) ops h
  exact normals_reported hfollows hlost

def bothInputs : N2kAlerts :=
  n2kAlertsInit ⟨true, true, fun _ => .alarm, fun _ => []⟩ 1#8 7#64 0#32

/-- The second input trips and is over while the first one is quiet. -/
def quietRun : List AlertOp :=
  [.tick true 2#8 10#32, .tick true 0#8 20#32, .tick true 2#8 30#32, .tick true 0#8 40#32,
    .tick true 0#8 1000#32, .tick true 0#8 2000#32]

/-- Two alerts of one channel, one after the other, both reported. -/
theorem quiet_normals_reported : NormalsReported (trace 1 bothInputs quietRun) ∧
    .idle ∈ trace 1 bothInputs quietRun :=
  ⟨run_normals_reported _ _ _ _ 1 quietRun (forall_past_of_tails (by decide +kernel)),
    by decide +kernel⟩

/-- The second input trips, then both take turns: each time the second one's
alert is cleared, or raised, the first one has a message due. -/
def overtakenRun : List AlertOp :=
  [.tick true 2#8 10#32, .tick true 1#8 20#32, .tick true 2#8 30#32, .tick true 1#8 40#32,
    .tick true 1#8 50#32, .tick true 1#8 1000#32, .tick true 1#8 1010#32, .tick true 1#8 2000#32,
    .tick true 1#8 2010#32]

/-- The second input's first alert was told of; only its second one, which was
not, is reported normal. -/
theorem overtaken_alert_unreported : ¬NormalsReported (trace 1 bothInputs overtakenRun) := by
  intro h
  let es := trace 1 bothInputs overtakenRun
  obtain ⟨st, hst, hrep⟩ := h [] (.alarm, 1#8) ((es.drop 1).take 1) ((es.drop 3).take 5) (es.drop 9)
    (by decide +kernel) (by decide +kernel)
    ⟨(bothInputs.step (.tick true 2#8 10#32)).n2kAlertsStatusOf 1 false, by decide +kernel⟩
  have hnone : ((es.drop 3).take 5).any (ChanEvent.isReport (.alarm, 1#8)) = false := by
    decide +kernel
  exact List.any_eq_false.mp hnone (.normal st) hst (decide_eq_true hrep)

end N2kAlerts

end RelayBoard
