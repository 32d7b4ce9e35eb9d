import RelayBoard.Lib.Priority
import RelayBoard.AlertDemand
import RelayBoard.AlertNormals

/-!
# Whose turn it is

Each tick serves one channel, the lowest that has messages due. A channel waits
through a tick for every time a lower one is due, and lower ones have something
new to send as often as their inputs change; so eight ticks are enough exactly
if what is asked of the lower channels leaves one of them free.
-/

set_option autoImplicit false

namespace RelayBoard
open Lib.Runs Lib.Priority

def AlertOp.isTick : AlertOp → Bool
  | .tick _ _ _ => true
  | _ => false

namespace AlertChan

theorem due_react {c : AlertChan} (h : c.due = true) (want : Bool) (level : InputAlarm) :
    (c.react want level).due = true := by
  unfold react
  dsimp only
  split_ifs
  · exact Bool.or_true _
  · exact Bool.or_true _
  · exact Bool.or_true _
  · exact h

theorem due_fallDue {c : AlertChan} (h : c.due = true) (statusPeriod textPeriod : Bool) :
    (c.fallDue statusPeriod textPeriod).due = true := by
  unfold fallDue
  dsimp only
  split_ifs
  · exact Bool.true_or _
  · exact Bool.or_true _
  · exact Bool.true_or _
  · exact h

end AlertChan

namespace N2kAlerts

def dues (a : N2kAlerts) (i : Channel) : Bool := (a.ch i).due

/-- The alerts as the second loop of a tick finds them, or as the operation
leaves them if it is not a tick. -/
def offered (a : N2kAlerts) : AlertOp → N2kAlerts
  | .tick inputsReady inputMask now => a.settle inputsReady inputMask now
  | op => a.step op

theorem dues_offered (a : N2kAlerts) (op : AlertOp) (i : Channel) (h : a.dues i = true) :
    (a.offered op).dues i = true := by
  cases op with
  | tick inputsReady inputMask now => exact AlertChan.due_fallDue (AlertChan.due_react h _ _) _ _
  | setConfig cfg =>
    change AlertChan.due (if _ then _ else _) = true
    split_ifs
    · exact Bool.true_or _
    · exact h
  | response data =>
    change ((a.n2kAlertsOnResponse data).2.ch i).due = true
    rcases a.onResponse_cases data with ⟨r, j, -, -, hresult⟩ | ⟨-, hresult⟩
    · rw [hresult]
      by_cases hij : i = j
      · subst hij
        simp [acknowledge, AlertChan.due]
      · change AlertChan.due (Function.update a.ch j _ i) = true
        rw [Function.update_of_ne hij]
        exact h
    · rw [hresult]
      exact h

theorem turn_eq_first (a : N2kAlerts) : a.turn = first a.dues := rfl

theorem dues_step (a : N2kAlerts) (op : AlertOp) : (a.step op).dues =
    if op.isTick = true then served (a.offered op).dues else (a.offered op).dues := by
  cases op with
  | tick inputsReady inputMask now =>
    rw [if_pos (show AlertOp.isTick _ = true from rfl)]
    funext i
    change ((a.n2kAlertsTick inputsReady inputMask now).1.ch i).due =
      served (a.settle inputsReady inputMask now).dues i
    rw [tick_ch, turn_eq_first]
    cases hfirst : first (a.settle inputsReady inputMask now).dues with
    | none =>
      rw [served_none hfirst]
      rfl
    | some k =>
      rw [served_some hfirst]
      by_cases hk : k = i
      · subst hk
        rw [if_pos rfl, Function.update_self]
        rfl
      · rw [if_neg (fun h => hk (Option.some.inj h)), Function.update_of_ne (Ne.symm hk)]
        rfl
  | setConfig cfg => rfl
  | response data => rfl

/-- The alerts as a server of eight channels in a fixed order. -/
def server : Server N2kAlerts AlertOp 8 where
  step := step
  due := dues
  offered a op := (a.offered op).dues
  round := AlertOp.isTick
  grows := dues_offered
  serve := dues_step

/-- The operation is a tick that sends the channel's messages. -/
def SendsFor (i : Channel) (a : N2kAlerts) : AlertOp → Prop
  | .tick inputsReady inputMask now => (a.settle inputsReady inputMask now).turn = some i
  | _ => False

instance (i : Channel) (a : N2kAlerts) (op : AlertOp) : Decidable (SendsFor i a op) :=
  match op with
  | .tick _ _ _ => inferInstanceAs (Decidable (_ = _))
  | .setConfig _ => inferInstanceAs (Decidable False)
  | .response _ => inferInstanceAs (Decidable False)

/-- What is due for the channel is sent in the run, or the channel comes to have
nothing due. -/
def Attended (i : Channel) (a : N2kAlerts) (ops : List AlertOp) : Prop :=
  (∃ e ∈ history step a ops, SendsFor i e.1 e.2) ∨
    ∃ js, js <+: ops ∧ (run step a js).dues i = false

theorem sendsFor_iff (i : Channel) (a : N2kAlerts) (op : AlertOp) :
    SendsFor i a op ↔ server.Serves i a op := by
  cases op with
  | tick inputsReady inputMask now => exact (and_iff_right rfl).symm
  | setConfig cfg => exact iff_of_false id (fun h => Bool.false_ne_true h.1)
  | response data => exact iff_of_false id (fun h => Bool.false_ne_true h.1)

theorem attended_iff {i : Channel} {a : N2kAlerts} (hdue : a.dues i = true)
    (ops : List AlertOp) :
    Attended i a ops ↔ ∃ js, js <+: ops ∧ server.demand i a js < server.rounds js := by
  refine Iff.trans ?_ (server.serves_iff ops hdue)
  constructor
  · rintro (⟨e, he, hsends⟩ | ⟨js, ⟨ks, rfl⟩, hnone⟩)
    · exact ⟨e, he, (sendsFor_iff i e.1 e.2).mp hsends⟩
    · by_contra hno
      have hstill := (server.waiting js hdue
        fun e he hs => hno ⟨e, mem_history_append he ks, hs⟩).1
      exact Bool.false_ne_true (hnone.symm.trans hstill)
  · rintro ⟨e, he, hserves⟩
    exact Or.inl ⟨e, he, (sendsFor_iff i e.1 e.2).mpr hserves⟩

/-- What an operation asks of a channel with nothing due is what is then due. -/
theorem dues_of_idle {a : N2kAlerts} {i : Channel} (h : a.dues i = false) (op : AlertOp) :
    (a.offered op).dues i = a.asked.stirs i op := by
  cases op with
  | tick inputsReady inputMask now =>
    exact ((a.ch i).due_of_idle _ _ h _ _).trans (by rw [wanted_eq]; rfl)
  | setConfig cfg =>
    change AlertChan.due (if _ then _ else _) = (_ && _)
    have hopen : (a.asked.ch i).wanted.isSome = (a.ch i).active := by
      change (if (a.ch i).active then some (a.ch i).level else none).isSome = _
      cases (a.ch i).active <;> rfl
    rw [hopen]
    split_ifs with hretext
    · exact hretext.symm
    · rw [Bool.not_eq_true] at hretext
      exact h.trans hretext.symm
  | response data =>
    change ((a.n2kAlertsOnResponse data).2.ch i).due = a.asked.acknowledged data i
    rcases a.response_asked data with ⟨j, name, hacks, hresult⟩ | ⟨hnone, hresult⟩
    · rw [hresult, hacks, acknowledge_ch]
      by_cases hij : i = j
      · rw [if_pos hij, decide_eq_true hij]
        exact Bool.or_true _
      · rw [if_neg hij, decide_eq_false hij]
        exact h
    · rw [hresult, hnone]
      exact h

/-- The channels below `i` that the operation gives something to send. -/
def asking (i : Channel) (q : Asked) (op : AlertOp) : ℕ :=
  (Finset.univ.filter fun j => j < i ∧ q.stirs j op = true).card

def fresh (i : Channel) (a : N2kAlerts) (op : AlertOp) : ℕ :=
  (Finset.univ.filter fun j => j < i ∧ a.dues j = false ∧ a.asked.stirs j op = true).card

/-- What a run asks of the channels below `i`, counted from its inputs alone. -/
def askedBelow (i : Channel) (q : Asked) (ops : List AlertOp) : ℕ :=
  ((history Asked.next q ops).map fun e => asking i e.1 e.2).sum

def freshBelow (i : Channel) (a : N2kAlerts) (ops : List AlertOp) : ℕ :=
  ((history step a ops).map fun e => fresh i e.1 e.2).sum

theorem fallen_eq (i : Channel) (a : N2kAlerts) (op : AlertOp) :
    fallen i a.dues (a.offered op).dues = fresh i a op := by
  unfold fallen fresh
  congr 1
  ext j
  simp only [Finset.mem_filter, Finset.mem_univ, true_and]
  refine and_congr_right fun _ => and_congr_right fun hidle => ?_
  rw [dues_of_idle hidle]

theorem demand_eq (i : Channel) (a : N2kAlerts) (ops : List AlertOp) :
    server.demand i a ops = below i a.dues + freshBelow i a ops := by
  unfold Server.demand freshBelow
  congr 2
  exact List.map_congr_left fun e _ => fallen_eq i e.1 e.2

theorem freshBelow_le {i : Channel} {a : N2kAlerts} {q : Asked} (h : Asked.Covers q a.asked)
    (ops : List AlertOp) : freshBelow i a ops ≤ askedBelow i q ops := by
  induction ops using List.reverseRecOn with
  | nil => exact Nat.le_refl 0
  | append_singleton ops op ih =>
    unfold freshBelow askedBelow at ih ⊢
    rw [history_snoc, history_snoc, List.map_cons, List.map_cons, List.sum_cons, List.sum_cons]
    refine Nat.add_le_add (Finset.card_le_card fun j hj => ?_) ih
    simp only [Finset.mem_filter, Finset.mem_univ, true_and] at hj ⊢
    exact ⟨hj.1, (run_covered h ops).stirs op j hj.2.2⟩

/-- From every state that operations lead to, a channel with something due is
attended to in every run of which some first part has more ticks than there
were lower channels due at its start and are lower ones asked something in it.
Counting only what is asked of channels that have nothing due, this is exact. -/
theorem run_attended (cfg : AlertsCfg) (inst : Byte) (sourceName : IsoName) (now : Ms)
    (past : List AlertOp) (i : Channel)
    (hdue : (run step (n2kAlertsInit cfg inst sourceName now) past).dues i = true)
    (ops : List AlertOp) :
    let a := run step (n2kAlertsInit cfg inst sourceName now) past
    let q := run Asked.next (.start cfg inst sourceName now) past
    (∀ js, js <+: ops → below i a.dues + askedBelow i q js < js.countP AlertOp.isTick →
      Attended i a ops) ∧
    (Attended i a ops ↔ ∃ js, js <+: ops ∧
      below i a.dues + freshBelow i a js < js.countP AlertOp.isTick) := by
  intro a q
  have hexact : Attended i a ops ↔ ∃ js, js <+: ops ∧
      below i a.dues + freshBelow i a js < js.countP AlertOp.isTick := by
    simp only [← demand_eq]
    exact attended_iff hdue ops
  refine ⟨fun js hjs hlt => hexact.mpr ⟨js, hjs, ?_⟩, hexact⟩
  have hcovered : Asked.Covers q a.asked :=
    run_covered (start_covered cfg inst sourceName now) past
  have hle : freshBelow i a js ≤ askedBelow i q js := freshBelow_le hcovered js
  omega

/-- Eight alarms trip together, and the first input goes off again: the eighth
channel has its turn within eight ticks. -/
theorem eight_alarms_attended :
    Attended 7 (run step bothInputs [.tick true 255#8 0#32])
      (List.replicate 8 (.tick true 254#8 10#32)) :=
  (run_attended _ _ _ _ [.tick true 255#8 0#32] 7 (by decide +kernel)
    (List.replicate 8 (.tick true 254#8 10#32))).1 _ List.prefix_rfl (by decide +kernel)

/-- Inputs 1 and 2 have tripped together; input 1's alert has been sent. -/
def bothTripped : List AlertOp := [.tick true 3#8 0#32]

/-- Ticks in which input 1 chatters, the first `n` of them. -/
def chatter (n : ℕ) : List AlertOp :=
  (List.range n).map fun k => .tick true (if k % 2 = 0 then 2#8 else 3#8) 10#32

/-- While it chatters for eight ticks, nothing is sent for the second channel. -/
theorem chatter_starves :
    (run step bothInputs bothTripped).dues 1 = true ∧
      (chatter 8).countP AlertOp.isTick = 8 ∧
      ¬Attended 1 (run step bothInputs bothTripped) (chatter 8) := by
  refine ⟨by decide +kernel, by decide +kernel, ?_⟩
  rintro (⟨e, he, hsends⟩ | ⟨js, hjs, hnone⟩)
  · have hnever : ∀ e ∈ history step (run step bothInputs bothTripped) (chatter 8),
        ¬SendsFor 1 e.1 e.2 := by
      decide +kernel
    exact hnever e he hsends
  · have halways : ∀ js ∈ (chatter 8).inits,
        (run step (run step bothInputs bothTripped) js).dues 1 = true := by
      decide +kernel
    rw [halways js ((List.mem_inits _ _).mpr hjs)] at hnone
    cases hnone

end N2kAlerts

end RelayBoard
