import RelayBoard.Lib.Delivery
import RelayBoard.Reports

/-!
# The counters' copy of the relays

`counters.c` keeps for every channel the on or off state it was last told, and
accrues runtime while that is on. `start_io` seeds it with the state after
boot; from then on it hears of the relays through the listener calls, which
run outside relay control's lock and carry the value seen inside it.
-/

set_option autoImplicit false

namespace RelayBoard
open BitVec Lib.Loops Lib.Runs Lib.Delivery

inductive CountersKind where
  | relay
  | input
  deriving DecidableEq, Repr

structure CountersChannel where
  cycles : BitVec 32
  runtimeS : BitVec 32
  deriving DecidableEq, Repr

structure Slot where
  seen : Bool
  on : Bool
  onSinceMs : Ms
  saved : CountersChannel
  deriving DecidableEq, Repr

/-- The static struct of `counters.c`, less the lock and the store. -/
structure Counters where
  relays : Channel → Slot
  inputs : Channel → Slot
  dirty : Bool
  lastSaveMs : Ms

def Counters.slots (s : Counters) : CountersKind → Channel → Slot
  | .relay => s.relays
  | .input => s.inputs

def Counters.setSlot (s : Counters) (kind : CountersKind) (i : Channel) (slot : Slot) : Counters :=
  match kind with
  | .relay => { s with relays := Function.update s.relays i slot }
  | .input => { s with inputs := Function.update s.inputs i slot }

def foldRunningLocked (now : Ms) (slot : Slot) : Slot × Bool :=
  let wholeS := (now - slot.onSinceMs) / 1000#32
  if !slot.on || wholeS = 0#32 then (slot, false)
  else
    ({ slot with
        saved := { slot.saved with runtimeS := slot.saved.runtimeS + wholeS }
        onSinceMs := slot.onSinceMs + wholeS * 1000#32 }, true)

/-- `counters_init` with what the store loads, if anything. -/
def countersInit (loaded : Option (CountersKind → Channel → CountersChannel)) (now : Ms) :
    Counters :=
  let slot := fun kind i => match loaded with
    | some data => ⟨false, false, 0#32, data kind i⟩
    | none => ⟨false, false, 0#32, ⟨0#32, 0#32⟩⟩
  ⟨slot .relay, slot .input, false, now⟩

def countersOnChange (kind : CountersKind) (channel : ℕ) (on : Bool) (now : Ms) (s : Counters) :
    Counters :=
  if h : channel < 1 ∨ 8 < channel then s
  else
    let i : Channel := ⟨channel - 1, index_lt_of_not h⟩
    let slot := s.slots kind i
    if !slot.seen then s.setSlot kind i { slot with seen := true, on := on, onSinceMs := now }
    else if on != slot.on then
      let slot :=
        if on then
          { slot with
            saved := { slot.saved with cycles := slot.saved.cycles + 1#32 }
            on := true
            onSinceMs := now }
        else { (foldRunningLocked now slot).1 with on := false }
      { s.setSlot kind i slot with dirty := true }
    else s

/-- What `start_io` does with the relays' state after boot. -/
def seedCounters (s : St) (now : Ms) (counters : Counters) : Counters :=
  forEach (fun (i : Channel) counters =>
    countersOnChange .relay (i.val + 1) (relayCtrlGet (i.val + 1) s) now counters) counters

/-- The part of `on_relay_change` that feeds the counters. -/
def onRelayChange (counters : Counters) (now : Ms) (n : Notice) : Counters :=
  countersOnChange .relay (n.relay.val + 1) n.on now counters

theorem countersOnChange_on (i j : Channel) (on : Bool) (now : Ms) (s : Counters) :
    ((countersOnChange .relay (i.val + 1) on now s).relays j).on =
      if j = i then on else (s.relays j).on := by
  have hi := i.isLt
  unfold countersOnChange
  rw [dif_neg (by omega)]
  simp only [Nat.add_sub_cancel, Fin.eta, Counters.slots, Counters.setSlot]
  by_cases hj : j = i
  · subst hj
    cases hseen : (s.relays j).seen
    · simp
    · cases on <;> cases hon : (s.relays j).on <;> simp [hon]
  · split_ifs <;> simp [hj]

theorem seedCounters_on (s : St) (now : Ms) (counters : Counters) (i : Channel) :
    ((seedCounters s now counters).relays i).on = (relayCtrlGetMask s).has i := by
  unfold seedCounters
  rw [forEach_own (fun (i : Channel) counters =>
    countersOnChange .relay (i.val + 1) (relayCtrlGet (i.val + 1) s) now counters)
    (fun c : Counters => (c.relays i).on) i]
  · rw [countersOnChange_on, if_pos rfl, relayCtrlGet_channel]
  · intro j hj c
    rw [countersOnChange_on, if_neg hj.symm]
  · intro c d _
    rw [countersOnChange_on, countersOnChange_on, if_pos rfl, if_pos rfl]

def Op.tasked : Op → Bool
  | .set _ _ _ => true
  | .toggle _ _ => true
  | .tick => true
  | .skLost => true
  | _ => false

abbrev TaskCall := { c : Call // c.op.tasked = true }

/-- Relay control as the core, the counters as the receiver, each of whose
calls reads the clock for itself. -/
def counterFeed : System World TaskCall Counters Ms Notice where
  change w c := (step w c.val, (result w c.val).notices)
  take counters now n := onRelayChange counters now n

theorem latest_notices (i : Channel) (ns : List Notice) (m : Mask) :
    latest Notice.relay Notice.on i ns (m.has i) = (applyNotices m ns).has i := by
  induction ns generalizing m with
  | nil => rfl
  | cons n ns ih =>
    rw [latest, List.foldl_cons, ← apply_has]
    exact ih (n.apply m)

/-- The notices of a task's call tell all that it changes. -/
theorem tasked_notices (w : World) (c : TaskCall) :
    applyNotices (relayCtrlGetMask w.s) (result w c.val).notices =
      relayCtrlGetMask (step w c.val).s := by
  obtain ⟨⟨op, time, faults, saveErr⟩, hop⟩ := c
  cases op with
  | init cfg => cases hop
  | updateConfig cfg => cases hop
  | set channel on src => exact notices_complete w _ rfl rfl
  | toggle channel src => exact notices_complete w _ rfl rfl
  | tick => exact notices_complete w _ rfl rfl
  | skLost => exact notices_complete w _ rfl rfl

theorem counterFeed_mirrors : Mirrors counterFeed (fun w i => (relayCtrlGetMask w.s).has i)
    (fun counters i => (counters.relays i).on) Notice.relay Notice.on where
  take counters now n i := countersOnChange_on n.relay i n.on now counters
  change w c i := by
    rw [latest_notices]
    exact congrArg (fun m => m.has i) (tasked_notices w c).symm

/-- The counters as `start_io` leaves them, loaded at `t₀` and seeded at `t₁`. -/
def feedStart (τ : Type) (w : World)
    (loaded : Option (CountersKind → Channel → CountersChannel)) (t₀ t₁ : Ms) :
    State World Counters τ Notice :=
  ⟨w, seedCounters w.s t₁ (countersInit loaded t₀), []⟩

/-- If no listener call for a relay is made while an older one for the same
relay is still to come, the counters agree with the report once all calls have
returned. -/
theorem run_counters_agree {τ : Type} [DecidableEq τ] (w : World)
    (loaded : Option (CountersKind → Channel → CountersChannel)) (t₀ t₁ : Ms)
    (es : List (Event TaskCall Ms τ))
    (hes : ∀ e ∈ history counterFeed.step (feedStart τ w loaded t₀ t₁) es,
      InOrder Notice.relay e.1 e.2)
    (hq : (run counterFeed.step (feedStart τ w loaded t₀ t₁) es).queue = []) (i : Channel) :
    ((run counterFeed.step (feedStart τ w loaded t₀ t₁) es).copy.relays i).on =
      relayCtrlGet (i.val + 1) (run counterFeed.step (feedStart τ w loaded t₀ t₁) es).core.s := by
  have hstart : Settling (fun w i => (relayCtrlGetMask w.s).has i)
      (fun counters i => (counters.relays i).on) Notice.relay Notice.on
      (feedStart τ w loaded t₀ t₁) :=
    fun i => seedCounters_on w.s t₁ (countersInit loaded t₀) i
  rw [relayCtrlGet_channel]
  exact settled (run_settling counterFeed_mirrors _ hstart es hes) hq i

/-- Whatever the order of the listener calls, the counters agree with the
report once all calls have returned. -/
def CountersAgree : Prop :=
  ∀ (w : World) (t₀ t₁ : Ms) (es : List (Event TaskCall Ms ℕ)),
    (∀ e ∈ history counterFeed.step (feedStart ℕ w none t₀ t₁) es, Idle e.1 e.2) →
    (run counterFeed.step (feedStart ℕ w none t₀ t₁) es).queue = [] →
    ∀ i : Channel, ((run counterFeed.step (feedStart ℕ w none t₀ t₁) es).copy.relays i).on =
      relayCtrlGet (i.val + 1) (run counterFeed.step (feedStart ℕ w none t₀ t₁) es).core.s

instance (s : State World Counters ℕ Notice) (e : Event TaskCall Ms ℕ) : Decidable (Idle s e) :=
  match e with
  | .call _ _ => inferInstanceAs (Decidable (∀ e ∈ _, _))
  | .deliver _ _ => inferInstanceAs (Decidable True)

/-- Task 1 switches relay 1 on and task 2 off again; task 2's listener call
comes first. -/
def overtakingRun : List (Event TaskCall Ms ℕ) :=
  [.call 1 ⟨.plain (.set 1 true .sk) 10, rfl⟩, .call 2 ⟨.plain (.set 1 false .web) 11, rfl⟩,
    .deliver 2 12#32, .deliver 1 13#32]

/-- The relay is off and its counter runs on. -/
theorem counter_runs_while_off : ¬CountersAgree := by
  intro h
  have hagree := h (step coldBoot (.plain (.init .schemaDefault) 0)) 0#32 1#32 overtakingRun
    (by decide +kernel) (by decide +kernel) 0
  exact absurd hagree (by decide +kernel)

instance (s : State World Counters ℕ Notice) (e : Event TaskCall Ms ℕ) :
    Decidable (InOrder Notice.relay s e) :=
  match e with
  | .call _ _ => inferInstanceAs (Decidable True)
  | .deliver t _ =>
    match h : s.queue.find? (fun e => e.1 = t) with
    | none => isTrue (fun m hm => by rw [h] at hm; cases hm)
    | some m =>
      decidable_of_iff (∀ e ∈ overtaken t s.queue, e.2.relay ≠ m.2.relay)
        ⟨fun hall m' hm' => by rw [h] at hm'; cases hm'; exact hall, fun hall => hall m h⟩

def orderedRun : List (Event TaskCall Ms ℕ) :=
  [.call 1 ⟨.plain (.set 1 true .sk) 10, rfl⟩, .deliver 1 12#32,
    .call 2 ⟨.plain (.set 1 false .web) 13, rfl⟩, .deliver 2 14#32]

theorem counters_agree_in_order :
    ((run counterFeed.step (feedStart ℕ coldBoot none 0#32 1#32) orderedRun).copy.relays 0).on =
      relayCtrlGet 1
        (run counterFeed.step (feedStart ℕ coldBoot none 0#32 1#32) orderedRun).core.s :=
  run_counters_agree coldBoot none 0#32 1#32 orderedRun (by decide +kernel) (by decide +kernel) 0

end RelayBoard
