import RelayBoard.CounterReadings

/-!
# How far the runtime is from the time on

Each on-period counts its whole seconds. The rest of a period is kept while it
runs and dropped when it ends, so a channel that is on for many short periods
loses up to a second with each. A period that is folded too late loses a turn of
the clock, and what is lost is not found again until the channel is reset.
-/

set_option autoImplicit false

namespace RelayBoard
open Lib.Runs Lib.Clock Lib.Metering

/-- The runtime read at `t` is less than a second away from the time the channel
has been on, that loaded included. -/
def Accurate (loaded : Option CountersData) (t₀ : Ms) (kind : CountersKind) (i : Channel)
    (ops : List CountersOp) (t : ℕ) : Prop :=
  let r := reference loaded kind i ops.reverse
  let trueMs := 1000 * r.loaded.runtimeS.toNat + r.meter.total t
  let readMs := 1000 *
    (countersGet kind (i.val + 1) (reading 32 t) (countersRun loaded t₀ ops)).runtimeS.toNat
  readMs < trueMs + 1000 ∧ trueMs < readMs + 1000

instance (loaded : Option CountersData) (t₀ : Ms) (kind : CountersKind) (i : Channel)
    (ops : List CountersOp) (t : ℕ) : Decidable (Accurate loaded t₀ kind i ops t) :=
  inferInstanceAs (Decidable (_ ∧ _))

theorem CounterReference.get_runtime (r : CounterReference) (t : ℕ) :
    (r.get t).runtimeS.toNat = (r.loaded.runtimeS.toNat + r.meter.whole 1000 t) % 2 ^ 32 := by
  rw [CounterReference.get, BitVec.toNat_add, BitVec.toNat_ofNat, Nat.add_mod_mod]

/-- What the clock shows of the running period since `stamp`. -/
def shown (m : Meter) (stamp t : ℕ) : ℕ :=
  if m.running.isSome then (t - stamp) % 2 ^ 32 else 0

/-- What the slot has counted and what the clock shows besides fall short of the
time on by a turn of the clock. -/
def Behind (r : CounterReference) (t : ℕ) (slot : Slot) : Prop :=
  ∃ counted stamp, slot.saved.runtimeS = r.loaded.runtimeS + BitVec.ofNat 32 counted ∧
    (r.meter.running.isSome = true → slot.onSinceMs = reading 32 stamp) ∧ stamp ≤ t ∧
    1000 * counted + shown r.meter stamp t + 2 ^ 32 ≤ r.meter.total t

namespace Behind

variable {r : CounterReference} {t t' : ℕ} {slot : Slot}

theorem total_running {m : Meter} {since : ℕ} (hrunning : m.running = some since) (u : ℕ) :
    m.total u = (u - since) + sumOf id m.finished := by
  rw [Meter.total, m.periods_running u since hrunning, sumOf_cons]
  rfl

theorem total_idle {m : Meter} (hidle : m.running = none) (u : ℕ) :
    m.total u = sumOf id m.finished := by
  rw [Meter.total, m.periods_idle u hidle]

theorem shown_running {m : Meter} {since : ℕ} (hrunning : m.running = some since)
    (stamp u : ℕ) : shown m stamp u = (u - stamp) % 2 ^ 32 := by
  rw [shown, hrunning]
  rfl

theorem shown_idle {m : Meter} (hidle : m.running = none) (stamp u : ℕ) :
    shown m stamp u = 0 := by
  rw [shown, hidle]
  rfl

theorem live_shown {stamp : ℕ} (hs : stamp ≤ t) (hstamp : slot.onSinceMs = reading 32 stamp) :
    (reading 32 t - slot.onSinceMs) / 1000#32 = BitVec.ofNat 32 ((t - stamp) % 2 ^ 32 / 1000) := by
  have hlt : (t - stamp) % 2 ^ 32 / 1000 < 2 ^ 32 := by omega
  apply BitVec.eq_of_toNat_eq
  rw [hstamp, BitVec.toNat_udiv, reading_sub_toNat 32 _ _ hs, BitVec.toNat_ofNat,
    BitVec.toNat_ofNat, Nat.mod_eq_of_lt hlt]

theorem mono (h : Behind r t slot) (hfollows : SlotFollows r t slot) (hle : t ≤ t') :
    Behind r t' slot := by
  obtain ⟨counted, stamp, hruntime, hstamp, hs, hshort⟩ := h
  refine ⟨counted, stamp, hruntime, hstamp, hs.trans hle, ?_⟩
  cases hrunning : r.meter.running with
  | none =>
    rw [shown_idle hrunning, total_idle hrunning] at hshort ⊢
    exact hshort
  | some since =>
    have hbegan := hfollows.started since hrunning
    rw [shown_running hrunning, total_running hrunning] at hshort ⊢
    omega

/-- A period that a call finds a turn of the clock after its last second counted. -/
theorem of_overdue {fold : ℕ} (h : SlotTracks r fold t slot) {since : ℕ}
    (hrunning : since ∈ r.meter.running) (hlate : fullTurn since fold ≤ t) : Behind r t slot := by
  obtain ⟨hstamp, hbegan⟩ := h.stamp since hrunning
  obtain ⟨hle, -⟩ := whole_split hbegan h.folded
  have hfinished := sumOf_div_mod 1000 r.meter.finished
  refine ⟨r.meter.whole 1000 fold, countedTo since fold, h.runtime, fun _ => hstamp, hle, ?_⟩
  rw [SlotTracks.whole_running hrunning, shown_running hrunning, total_running hrunning]
  unfold fullTurn at hlate
  have hmod : (t - countedTo since fold) % 2 ^ 32 + 2 ^ 32 ≤ t - countedTo since fold := by omega
  have hcounted : countedTo since fold = since + (fold - since) / 1000 * 1000 := rfl
  omega

theorem after_fold (h : Behind r t slot) (hfollows : SlotFollows r t slot) :
    Behind r t (foldRunningLocked (reading 32 t) slot).1 := by
  cases hrunning : r.meter.running with
  | none =>
    have hoff : slot.on = false := by rw [hfollows.on, hrunning]; rfl
    rw [foldRunningLocked_off _ _ hoff]
    exact h
  | some since =>
    obtain ⟨counted, stamp, hruntime, hstamp, hs, hshort⟩ := h
    have hon : slot.on = true := by rw [hfollows.on, hrunning]; rfl
    have hsome : r.meter.running.isSome = true := by rw [hrunning]; rfl
    have hlive : (reading 32 t - slot.onSinceMs) / 1000#32 =
        BitVec.ofNat 32 ((t - stamp) % 2 ^ 32 / 1000) :=
      live_shown hs (hstamp hsome)
    rw [foldRunningLocked_on _ _ hon, hlive]
    refine ⟨counted + (t - stamp) % 2 ^ 32 / 1000, t - (t - stamp) % 2 ^ 32 % 1000, ?_,
      fun _ => ?_, Nat.sub_le _ _, ?_⟩
    · change slot.saved.runtimeS + _ = _
      rw [hruntime, BitVec.ofNat_add, BitVec.add_assoc]
    · change slot.onSinceMs + _ = _
      rw [hstamp hsome, ← BitVec.ofNat_mul, ← reading_add]
      apply BitVec.eq_of_toNat_eq
      rw [reading, reading, BitVec.toNat_ofNat, BitVec.toNat_ofNat]
      omega
    · rw [shown_running hrunning] at hshort ⊢
      omega

theorem report (h : Behind r t slot) (hfollows : SlotFollows r t slot) (on : Bool) :
    Behind (r.step (.report on t)) t (reportSlot on (reading 32 t) slot) := by
  rcases hfollows.report_cases on with ⟨hidle, hmeter, hslot⟩ | ⟨-, hidle, -, hmeter, hslot⟩ |
    ⟨since, hrunning, -, hmeter, hslot⟩ | ⟨hmeter, hslot⟩
  · obtain ⟨counted, _, hruntime, -, -, hshort⟩ := h
    rw [shown_idle hidle, total_idle hidle] at hshort
    rw [hmeter, hslot]
    refine ⟨counted, t, hruntime, fun _ => rfl, le_rfl, ?_⟩
    cases on with
    | false => exact hshort
    | true =>
      rw [shown_running rfl, total_running rfl, Nat.sub_self, Nat.zero_mod, Nat.zero_add]
      exact hshort
  · obtain ⟨counted, _, hruntime, -, -, hshort⟩ := h
    rw [shown_idle hidle, total_idle hidle] at hshort
    rw [hmeter, hslot]
    refine ⟨counted, t, hruntime, fun _ => rfl, le_rfl, ?_⟩
    rw [shown_running rfl, total_running rfl, Nat.sub_self, Nat.zero_mod, Nat.zero_add]
    exact hshort
  · obtain ⟨counted, stamp, hruntime, -, hs, hshort⟩ := h.after_fold hfollows
    rw [shown_running hrunning, total_running hrunning] at hshort
    rw [hmeter, hslot]
    refine ⟨counted, stamp, hruntime, fun hsome => absurd hsome Bool.false_ne_true, hs, ?_⟩
    rw [shown_idle rfl, total_idle rfl, sumOf_cons, id]
    omega
  · rw [hmeter, hslot]
    exact h

theorem reads (h : Behind r t slot) (hfollows : SlotFollows r t slot) :
    1000 * (slot.saved.runtimeS +
        if slot.on then (reading 32 t - slot.onSinceMs) / 1000#32 else 0#32).toNat + 2 ^ 32 ≤
      1000 * r.loaded.runtimeS.toNat + r.meter.total t := by
  obtain ⟨counted, stamp, hruntime, hstamp, hs, hshort⟩ := h
  cases hrunning : r.meter.running with
  | none =>
    have hoff : slot.on = false := by rw [hfollows.on, hrunning]; rfl
    rw [shown_idle hrunning] at hshort
    rw [hoff, if_neg Bool.false_ne_true, BitVec.add_zero, hruntime, BitVec.toNat_add,
      BitVec.toNat_ofNat]
    omega
  | some since =>
    have hon : slot.on = true := by rw [hfollows.on, hrunning]; rfl
    have hlive := live_shown hs (hstamp (by rw [hrunning]; rfl))
    rw [shown_running hrunning] at hshort
    rw [hon, if_pos rfl, hlive, hruntime, BitVec.toNat_add, BitVec.toNat_add, BitVec.toNat_ofNat,
      BitVec.toNat_ofNat]
    omega

end Behind

variable {loaded : Option CountersData} {t₀ : Ms} {kind : CountersKind} {i : Channel}

/-- Only a reset lets the slot catch up. -/
theorem behind_step {s : Counters} {calls : List CountersOp} {op : CountersOp}
    (h : Behind (reference loaded kind i calls) op.time (s.slots kind i))
    (hfollows : SlotFollows (reference loaded kind i calls) op.time (s.slots kind i))
    (hreset : op.event kind i ≠ some (.zero op.time)) :
    Behind (reference loaded kind i (op :: calls)) op.time ((s.step op).slots kind i) := by
  rw [Counters.slots_step, reference_cons]
  cases hevent : op.event kind i with
  | none =>
    cases s.foldsAt op with
    | false => exact h
    | true => exact h.after_fold hfollows
  | some e =>
    obtain ⟨-, rfl | ⟨on, rfl, -⟩⟩ := event_some (s := s) hevent
    · exact absurd hevent hreset
    · exact h.report hfollows on

/-- Once a turn of the clock is lost the slot stays behind. -/
theorem run_behind {ops : List CountersOp} (hordered : (ops.map CountersOp.time).Pairwise (· ≤ ·))
    {t : ℕ} (ht : ∀ op ∈ ops, op.time ≤ t)
    (hlost : ¬TurnsKept loaded kind i (countersPast loaded t₀ ops)) :
    Behind (reference loaded kind i ((countersPast loaded t₀ ops).map Prod.snd)) t
      ((countersRun loaded t₀ ops).slots kind i) := by
  induction ops using List.reverseRecOn generalizing t with
  | nil => exact absurd trivial hlost
  | append_singleton ops op ih =>
    obtain ⟨hbefore, -, hlast⟩ := List.pairwise_append.mp (List.map_append ▸ hordered)
    have htimes : ∀ o ∈ ops, o.time ≤ op.time := fun o ho =>
      hlast o.time (List.mem_map_of_mem ho) op.time (by simp)
    have hpast : countersPast loaded t₀ (ops ++ [op]) =
        (countersRun loaded t₀ ops, op) :: countersPast loaded t₀ ops :=
      history_snoc Counters.step _ ops op
    have hle : op.time ≤ t := ht op (by simp)
    obtain ⟨hfollows, htracks⟩ := @run_tracks loaded t₀ kind i ops hbefore op.time htimes
    rw [hpast] at hlost ⊢
    have hrun : countersRun loaded t₀ (ops ++ [op]) = (countersRun loaded t₀ ops).step op :=
      run_snoc Counters.step _ ops op
    rw [hrun]
    have hnow : Behind (reference loaded kind i ((countersPast loaded t₀ ops).map Prod.snd)) op.time
        ((countersRun loaded t₀ ops).slots kind i) := by
      by_cases hkept : TurnsKept loaded kind i (countersPast loaded t₀ ops)
      · have huntimely : ¬Timely Counters.foldsAt fullTurn loaded kind i
            (countersRun loaded t₀ ops, op) (countersPast loaded t₀ ops) :=
          fun htimely => hlost (Or.inr ⟨htimely, hkept⟩)
        unfold Timely at huntimely
        simp only [Classical.not_imp, not_forall, not_lt] at huntimely
        obtain ⟨-, since, hsince, hlate⟩ := huntimely
        exact .of_overdue (htracks hkept) hsince hlate
      · exact ih hbefore htimes hkept
    exact (behind_step hnow hfollows (fun hreset => hlost (Or.inl hreset))).mono
      (follows_step hfollows) hle

/-- The runtime is accurate exactly if no turn of the clock is lost, what the
periods drop stays below a second, and the seconds fit their counter. -/
theorem runtime_accurate_iff (loaded : Option CountersData) (t₀ : Ms) (kind : CountersKind)
    (i : Channel) (ops : List CountersOp) (t : ℕ)
    (hordered : ((ops ++ [CountersOp.get kind (i.val + 1) t]).map CountersOp.time).Pairwise
      (· ≤ ·)) :
    Accurate loaded t₀ kind i ops t ↔
      TurnsKept loaded kind i (countersPast loaded t₀ (ops ++ [.get kind (i.val + 1) t])) ∧
        (reference loaded kind i ops.reverse).meter.dropped 1000 t < 1000 ∧
        (reference loaded kind i ops.reverse).loaded.runtimeS.toNat +
          (reference loaded kind i ops.reverse).meter.whole 1000 t < 2 ^ 32 := by
  by_cases hkept : TurnsKept loaded kind i
      (countersPast loaded t₀ (ops ++ [.get kind (i.val + 1) t]))
  · rw [and_iff_right hkept]
    unfold Accurate
    dsimp only
    rw [get_eq_reference hordered hkept, CounterReference.get_runtime]
    generalize reference loaded kind i ops.reverse = r
    have htotal := r.meter.whole_dropped 1000 t
    constructor
    · rintro ⟨-, hbelow⟩
      omega
    · rintro ⟨hdropped, hfits⟩
      rw [Nat.mod_eq_of_lt hfits]
      omega
  · refine iff_of_false (fun haccurate => ?_) (fun h => hkept h.1)
    have hends : ∀ op ∈ ops ++ [CountersOp.get kind (i.val + 1) t], op.time ≤ t := by
      intro op hop
      rcases List.mem_append.mp hop with hop | hop
      · exact (times_get hordered).2 op hop
      · rw [List.mem_singleton.mp hop]
        exact le_rfl
    have hbehind := run_behind hordered hends hkept
    have hfollows := (@run_tracks loaded t₀ kind i _ hordered t hends).1
    have hrun : countersRun loaded t₀ (ops ++ [.get kind (i.val + 1) t]) =
        countersRun loaded t₀ ops := run_snoc Counters.step _ ops _
    have hcalls : (countersPast loaded t₀ ops).map Prod.snd = ops.reverse :=
      history_inputs Counters.step _ ops
    rw [past_get, List.map_cons, hcalls, reference_cons, hrun] at hbehind hfollows
    have hshort := hbehind.reads hfollows
    have hread := haccurate.2
    rw [countersGet_channel] at hread
    dsimp only [CountersOp.event] at hshort hread
    omega

/-- Relay 1, on for 599.9 s, reads 599 s. -/
theorem folded_twice_accurate : Accurate none 0#32 .relay 0 foldedTwice 600200 :=
  (runtime_accurate_iff none 0#32 .relay 0 foldedTwice 600200 (by decide)).mpr (by decide +kernel)

def shortPeriods : List CountersOp :=
  [.onChange .relay 1 false 0, .onChange .relay 1 true 0, .onChange .relay 1 false 999,
    .onChange .relay 1 true 1000, .onChange .relay 1 false 1999]

/-- Relay 1, on twice for 999 ms, reads no seconds at all. -/
theorem short_periods_dropped : ¬Accurate none 0#32 .relay 0 shortPeriods 2000 := by
  decide +kernel

end RelayBoard
