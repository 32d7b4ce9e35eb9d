import RelayBoard.CounterCalls

/-!
# What the counters read

The reference is a meter that hears of one channel's reports and resets only.
The saved runtime is the meter's reading at the latest fold, and `on_since_ms` is
moved on to the last whole second counted there; how long a channel may run is
bounded between folds, not between ticks, some of which are held back.
-/

set_option autoImplicit false

namespace RelayBoard
open Lib.Runs Lib.Clock Lib.Metering

structure CounterReference where
  loaded : CountersChannel
  meter : Meter

namespace CounterReference

def start (loaded : Option CountersData) (kind : CountersKind) (i : Channel) : CounterReference :=
  ⟨loaded.elim ⟨0#32, 0#32⟩ fun data => data.channels kind i, .fresh⟩

def step (r : CounterReference) : Event → CounterReference
  | .report on t => { r with meter := r.meter.step (.report on t) }
  | .zero t => ⟨⟨0#32, 0#32⟩, r.meter.step (.zero t)⟩

def get (r : CounterReference) (t : ℕ) : CountersChannel :=
  ⟨r.loaded.cycles + BitVec.ofNat 32 r.meter.cycles,
    r.loaded.runtimeS + BitVec.ofNat 32 (r.meter.whole 1000 t)⟩

end CounterReference

def reference (loaded : Option CountersData) (kind : CountersKind) (i : Channel)
    (calls : List CountersOp) : CounterReference :=
  (calls.filterMap (CountersOp.event kind i)).foldr (fun e r => r.step e) (.start loaded kind i)

def countersRun (loaded : Option CountersData) (t₀ : Ms) (ops : List CountersOp) : Counters :=
  run Counters.step (countersInit (loaded.map CountersData.channels) t₀) ops

def countersPast (loaded : Option CountersData) (t₀ : Ms) (ops : List CountersOp) :
    List (Counters × CountersOp) :=
  history Counters.step (countersInit (loaded.map CountersData.channels) t₀) ops

/-- When the latest of the calls that `marks` picks was made. -/
def lastMark (marks : Counters → CountersOp → Bool) : List (Counters × CountersOp) → ℕ
  | [] => 0
  | e :: past => if marks e.1 e.2 then e.2.time else lastMark marks past

/-- The second up to which a running period is counted at a fold. -/
def countedTo (since fold : ℕ) : ℕ := since + (fold - since) / 1000 * 1000

/-- If the channel runs, the call comes before the bound that the start of the
period and the latest mark set for it. -/
def Timely (marks : Counters → CountersOp → Bool) (bound : ℕ → ℕ → ℕ) (loaded : Option CountersData)
    (kind : CountersKind) (i : Channel) (e : Counters × CountersOp)
    (past : List (Counters × CountersOp)) : Prop :=
  (marks e.1 e.2 || e.2.asks kind i) = true →
    ∀ since ∈ (reference loaded kind i (past.map Prod.snd)).meter.running,
      e.2.time < bound since (lastMark marks past)

/-- True time never decreases, and the calls that matter to the channel come in
time. -/
structure Attended (marks : Counters → CountersOp → Bool) (bound : ℕ → ℕ → ℕ)
    (loaded : Option CountersData) (t₀ : Ms) (kind : CountersKind) (i : Channel)
    (ops : List CountersOp) : Prop where
  ordered : (ops.map CountersOp.time).Pairwise (· ≤ ·)
  timely : ∀ e past, e :: past <:+ countersPast loaded t₀ ops →
    Timely marks bound loaded kind i e past

/-- At most half a turn of the clock after the start of the period and the
latest mark. -/
def halfTurn (since mark : ℕ) : ℕ := max since mark + 2 ^ 31

/-- At most a turn after the last second counted. -/
def fullTurn (since fold : ℕ) : ℕ := countedTo since fold + 2 ^ 32

/-- Since the channel was last reset, whatever folds, ends or reads a running
period came within a turn of the clock after the last second counted. -/
def TurnsKept (loaded : Option CountersData) (kind : CountersKind) (i : Channel) :
    List (Counters × CountersOp) → Prop
  | [] => True
  | e :: past =>
    e.2.event kind i = some (.zero e.2.time) ∨
      Timely Counters.foldsAt fullTurn loaded kind i e past ∧ TurnsKept loaded kind i past

/-- The whole seconds up to `t` are those up to the fold and those since the
last second counted there. -/
theorem whole_split {since fold t : ℕ} (hs : since ≤ t) (hf : fold ≤ t) :
    countedTo since fold ≤ t ∧
      (t - since) / 1000 = (t - countedTo since fold) / 1000 + (fold - since) / 1000 := by
  unfold countedTo
  omega

theorem countedTo_split {since fold t : ℕ} (hs : since ≤ t) (hf : fold ≤ t) :
    countedTo since t = countedTo since fold + (t - countedTo since fold) / 1000 * 1000 := by
  have hsplit := (whole_split hs hf).2
  rw [countedTo, hsplit]
  unfold countedTo
  omega

/-- The slot knows whether the channel runs; nothing of it is later than `t`. -/
structure SlotFollows (r : CounterReference) (t : ℕ) (slot : Slot) : Prop where
  seen : slot.seen = r.meter.known
  on : slot.on = r.meter.running.isSome
  unknown : r.meter.known = false → r.meter.running = none
  started : ∀ since ∈ r.meter.running, since ≤ t

namespace SlotFollows

variable {r : CounterReference} {t t' : ℕ} {slot : Slot}

theorem mono (h : SlotFollows r t slot) (hle : t ≤ t') : SlotFollows r t' slot where
  seen := h.seen
  on := h.on
  unknown := h.unknown
  started since hsince := (h.started since hsince).trans hle

theorem after_fold (h : SlotFollows r t slot) (now : Ms) :
    SlotFollows r t (foldRunningLocked now slot).1 := by
  cases hon : slot.on with
  | false =>
    rw [foldRunningLocked_off now slot hon]
    exact h
  | true =>
    rw [foldRunningLocked_on now slot hon]
    exact ⟨h.seen, h.on, h.unknown, h.started⟩

/-- What a report does: the first one, a change to on, a change to off, or nothing. -/
theorem report_cases (h : SlotFollows r t slot) (on : Bool) :
    (r.meter.running = none ∧
      r.step (.report on t) =
        { r with meter :=
          { r.meter with known := true, running := if on then some t else none } } ∧
      reportSlot on (reading 32 t) slot =
        { slot with seen := true, on := on, onSinceMs := reading 32 t }) ∨
    (r.meter.known = true ∧ r.meter.running = none ∧ on = true ∧
      r.step (.report on t) =
        { r with meter :=
          { r.meter with running := some t, cycles := r.meter.cycles + 1 } } ∧
      reportSlot on (reading 32 t) slot =
        { slot with
          saved := { slot.saved with cycles := slot.saved.cycles + 1#32 }
          on := true
          onSinceMs := reading 32 t }) ∨
    (∃ since, r.meter.running = some since ∧ on = false ∧
      r.step (.report on t) =
        { r with meter :=
          { r.meter with running := none, finished := (t - since) :: r.meter.finished } } ∧
      reportSlot on (reading 32 t) slot =
        { (foldRunningLocked (reading 32 t) slot).1 with on := false }) ∨
    (r.step (.report on t) = r ∧ reportSlot on (reading 32 t) slot = slot) := by
  have hseen := h.seen
  have hon := h.on
  cases hknown : r.meter.known with
  | false =>
    refine Or.inl ⟨h.unknown hknown, ?_, ?_⟩
    · rw [CounterReference.step, Meter.step_first _ on t hknown]
    · simp [reportSlot, hseen, hknown]
  | true =>
    refine Or.inr ?_
    cases hrunning : r.meter.running with
    | none =>
      cases on with
      | false =>
        have hsame : r.meter.running.isSome = false := by rw [hrunning]; rfl
        refine Or.inr (Or.inr ⟨?_, ?_⟩)
        · rw [CounterReference.step, Meter.step_repeated _ false t hknown hsame]
        · simp [reportSlot, hseen, hknown, hon, hsame]
      | true =>
        refine Or.inl ⟨rfl, rfl, rfl, ?_, ?_⟩
        · rw [CounterReference.step, Meter.step_on _ t hknown hrunning]
        · simp [reportSlot, hseen, hknown, hon, hrunning]
    | some since =>
      cases on with
      | false =>
        refine Or.inr (Or.inl ⟨since, rfl, rfl, ?_, ?_⟩)
        · rw [CounterReference.step, Meter.step_off _ t since hknown hrunning]
        · simp [reportSlot, hseen, hknown, hon, hrunning]
      | true =>
        have hsame : r.meter.running.isSome = true := by rw [hrunning]; rfl
        refine Or.inr (Or.inr ⟨?_, ?_⟩)
        · rw [CounterReference.step, Meter.step_repeated _ true t hknown hsame]
        · simp [reportSlot, hseen, hknown, hon, hsame]

theorem report (h : SlotFollows r t slot) (on : Bool) :
    SlotFollows (r.step (.report on t)) t (reportSlot on (reading 32 t) slot) := by
  rcases h.report_cases on with ⟨-, hmeter, hslot⟩ | ⟨hknown, -, -, hmeter, hslot⟩ |
    ⟨since, -, -, hmeter, hslot⟩ | ⟨hmeter, hslot⟩
  · rw [hmeter, hslot]
    refine ⟨rfl, ?_, fun hnone => absurd hnone.symm Bool.false_ne_true, ?_⟩
    · cases on <;> rfl
    · intro since hsince
      cases on <;> cases hsince
      exact le_rfl
  · rw [hmeter, hslot]
    refine ⟨h.seen, rfl, fun hnone => ?_, ?_⟩
    · exact absurd (hnone.symm.trans hknown) Bool.false_ne_true
    · rintro since ⟨⟩
      exact le_rfl
  · rw [hmeter, hslot]
    refine ⟨(h.after_fold _).seen, rfl, fun _ => rfl, fun since' hsince => ?_⟩
    cases hsince
  · rw [hmeter, hslot]
    exact h

theorem zero (h : SlotFollows r t slot) : SlotFollows (r.step (.zero t)) t
    { slot with
      saved := ⟨0#32, 0#32⟩
      onSinceMs := if slot.on then reading 32 t else slot.onSinceMs } := by
  rw [CounterReference.step, Meter.step]
  cases hrunning : r.meter.running with
  | none =>
    refine ⟨h.seen, h.on.trans (by rw [hrunning]; rfl), fun _ => rfl, fun since hsince => ?_⟩
    cases hsince
  | some since =>
    refine ⟨h.seen, h.on.trans (by rw [hrunning]; rfl), fun hunknown => ?_, ?_⟩
    · exact absurd ((h.unknown hunknown).symm.trans hrunning) (by simp)
    · rintro since' ⟨⟩
      exact le_rfl

end SlotFollows

/-- The slot shows the reference as of the latest fold; nothing of it is later
than `t`. -/
structure SlotTracks (r : CounterReference) (fold t : ℕ) (slot : Slot) : Prop where
  seen : slot.seen = r.meter.known
  on : slot.on = r.meter.running.isSome
  unknown : r.meter.known = false → r.meter.running = none
  cycles : slot.saved.cycles = r.loaded.cycles + BitVec.ofNat 32 r.meter.cycles
  runtime : slot.saved.runtimeS = r.loaded.runtimeS + BitVec.ofNat 32 (r.meter.whole 1000 fold)
  stamp : ∀ since ∈ r.meter.running, slot.onSinceMs = reading 32 (countedTo since fold) ∧ since ≤ t
  folded : fold ≤ t

namespace SlotTracks

variable {r : CounterReference} {fold t t' : ℕ} {slot : Slot}

theorem mono (h : SlotTracks r fold t slot) (hle : t ≤ t') : SlotTracks r fold t' slot where
  seen := h.seen
  on := h.on
  unknown := h.unknown
  cycles := h.cycles
  runtime := h.runtime
  stamp since hsince := ⟨(h.stamp since hsince).1, (h.stamp since hsince).2.trans hle⟩
  folded := h.folded.trans hle

theorem follows (h : SlotTracks r fold t slot) : SlotFollows r t slot where
  seen := h.seen
  on := h.on
  unknown := h.unknown
  started since hsince := (h.stamp since hsince).2

theorem live (h : SlotTracks r fold t slot) {since : ℕ} (hsince : since ∈ r.meter.running)
    (hin : t < fullTurn since fold) : (reading 32 t - slot.onSinceMs) / 1000#32 =
      BitVec.ofNat 32 ((t - countedTo since fold) / 1000) := by
  obtain ⟨hstamp, hs⟩ := h.stamp since hsince
  obtain ⟨hle, -⟩ := whole_split hs h.folded
  have hturn : t - countedTo since fold < 2 ^ 32 := by
    unfold fullTurn at hin
    omega
  apply BitVec.eq_of_toNat_eq
  rw [hstamp, BitVec.toNat_udiv, reading_sub_toNat 32 _ _ hle, Nat.mod_eq_of_lt hturn,
    BitVec.toNat_ofNat, BitVec.toNat_ofNat, Nat.mod_eq_of_lt (show 1000 < 2 ^ 32 by decide),
    Nat.mod_eq_of_lt (by omega)]

theorem whole_running {m : Meter} {since : ℕ} (hrunning : m.running = some since) (u : ℕ) :
    m.whole 1000 u = (u - since) / 1000 + sumOf (fun d => d / 1000) m.finished := by
  rw [Meter.whole, m.periods_running u since hrunning, sumOf_cons]

theorem whole_idle {m : Meter} (hidle : m.running = none) (u : ℕ) :
    m.whole 1000 u = sumOf (fun d => d / 1000) m.finished := by
  rw [Meter.whole, m.periods_idle u hidle]

theorem after_fold (h : SlotTracks r fold t slot)
    (hin : ∀ since ∈ r.meter.running, t < fullTurn since fold) :
    SlotTracks r t t (foldRunningLocked (reading 32 t) slot).1 := by
  cases hrunning : r.meter.running with
  | none =>
    have hoff : slot.on = false := by rw [h.on, hrunning]; rfl
    rw [foldRunningLocked_off _ _ hoff]
    refine ⟨h.seen, h.on, h.unknown, h.cycles, ?_, ?_, Nat.le_refl t⟩
    · rw [whole_idle hrunning, h.runtime, whole_idle hrunning]
    · simp [hrunning]
  | some since =>
    have hon : slot.on = true := by rw [h.on, hrunning]; rfl
    obtain ⟨hstamp, hs⟩ := h.stamp since hrunning
    have hlive := h.live hrunning (hin since hrunning)
    rw [foldRunningLocked_on _ _ hon, hlive]
    refine ⟨h.seen, h.on, h.unknown, h.cycles, ?_, ?_, Nat.le_refl t⟩
    · change slot.saved.runtimeS + _ = _
      rw [h.runtime, whole_running hrunning, whole_running hrunning,
        (whole_split hs h.folded).2, BitVec.add_assoc, ← BitVec.ofNat_add]
      congr 2
      omega
    · intro since' hsince'
      obtain rfl : since = since' := Option.some.inj (hrunning.symm.trans hsince')
      refine ⟨?_, hs⟩
      rw [countedTo_split hs h.folded, reading_add, BitVec.ofNat_mul, ← hstamp]

/-- A period that begins at `t` adds nothing to what was counted before. -/
theorem begin {m : Meter} (hidle : m.running = none) (h : fold ≤ t) :
    Meter.whole 1000 { m with running := some t } fold = m.whole 1000 fold := by
  rw [whole_running rfl, whole_idle hidle, Nat.sub_eq_zero_of_le h]
  simp

theorem stamp_begin (h : fold ≤ t) : reading 32 t = reading 32 (countedTo t fold) := by
  rw [countedTo, Nat.sub_eq_zero_of_le h]
  rfl

/-- A report folds a period that it ends, and finds the others as they stand. -/
theorem report (h : SlotTracks r fold t slot) {on : Bool}
    (hin : on = false → ∀ since ∈ r.meter.running, t < fullTurn since fold) :
    SlotTracks (r.step (.report on t)) fold t (reportSlot on (reading 32 t) slot) := by
  have hfollows := h.follows.report on
  rcases h.follows.report_cases on with ⟨hidle, hmeter, hslot⟩ | ⟨-, hidle, -, hmeter, hslot⟩ |
    ⟨since, hrunning, hoff, hmeter, hslot⟩ | ⟨hmeter, hslot⟩
  · rw [hmeter, hslot] at hfollows ⊢
    refine ⟨hfollows.seen, hfollows.on, hfollows.unknown, h.cycles, ?_, ?_, h.folded⟩
    · refine h.runtime.trans ?_
      cases on with
      | false => rw [whole_idle hidle, whole_idle rfl]
      | true => rw [← begin hidle h.folded]; rfl
    · intro since hsince
      cases on <;> cases hsince
      exact ⟨stamp_begin h.folded, Nat.le_refl t⟩
  · rw [hmeter, hslot] at hfollows ⊢
    refine ⟨hfollows.seen, hfollows.on, hfollows.unknown, ?_, ?_, ?_, h.folded⟩
    · change slot.saved.cycles + 1#32 = _
      rw [h.cycles, BitVec.ofNat_add, BitVec.add_assoc]
    · exact h.runtime.trans (by rw [← begin hidle h.folded]; rfl)
    · rintro since ⟨⟩
      exact ⟨stamp_begin h.folded, Nat.le_refl t⟩
  · have hfolded := h.after_fold (hin hoff)
    rw [hmeter, hslot] at hfollows ⊢
    refine ⟨hfollows.seen, hfollows.on, hfollows.unknown, hfolded.cycles, ?_, ?_, h.folded⟩
    · refine hfolded.runtime.trans ?_
      rw [whole_running hrunning, whole_idle rfl, sumOf_cons]
    · intro since' hsince'
      cases hsince'
  · rw [hmeter, hslot]
    exact h

theorem whole_zero (m : Meter) (h : fold ≤ t) : (m.step (.zero t)).whole 1000 fold = 0 := by
  rw [Meter.step]
  cases m.running with
  | none => rfl
  | some since =>
    refine (whole_running rfl fold).trans ?_
    rw [Nat.sub_eq_zero_of_le h]
    rfl

/-- After a reset the slot shows the reference, whatever it showed before. -/
theorem of_zero (h : SlotFollows r t slot) (hfold : fold ≤ t) :
    SlotTracks (r.step (.zero t)) fold t
      { slot with
        saved := ⟨0#32, 0#32⟩
        onSinceMs := if slot.on then reading 32 t else slot.onSinceMs } := by
  refine ⟨h.zero.seen, h.zero.on, h.zero.unknown, rfl, ?_, ?_, hfold⟩
  · change 0#32 = 0#32 + BitVec.ofNat 32 ((r.meter.step (.zero t)).whole 1000 fold)
    rw [whole_zero r.meter hfold]
    rfl
  · intro since hsince
    rw [CounterReference.step, Meter.step] at hsince
    obtain ⟨began, hbegan, rfl⟩ := Option.map_eq_some_iff.mp hsince
    have hon : slot.on = true := by rw [h.on, hbegan]; rfl
    exact ⟨(if_pos hon).trans (stamp_begin hfold), le_rfl⟩

/-- What is read at `t` is what the reference shows. -/
theorem reads (h : SlotTracks r fold t slot)
    (hin : ∀ since ∈ r.meter.running, t < fullTurn since fold) :
    (⟨slot.saved.cycles,
      slot.saved.runtimeS +
        if slot.on then (reading 32 t - slot.onSinceMs) / 1000#32 else 0#32⟩ :
        CountersChannel) = r.get t := by
  refine congrArg₂ CountersChannel.mk h.cycles ?_
  cases hrunning : r.meter.running with
  | none =>
    rw [h.on, hrunning, if_neg (by simp), h.runtime, whole_idle hrunning, whole_idle hrunning,
      BitVec.add_zero]
  | some since =>
    have hs := (h.stamp since hrunning).2
    rw [h.on, hrunning, if_pos (by simp), h.live hrunning (hin since hrunning), h.runtime,
      whole_running hrunning, whole_running hrunning, (whole_split hs h.folded).2,
      BitVec.add_assoc, ← BitVec.ofNat_add]
    congr 2
    omega

end SlotTracks

variable {loaded : Option CountersData} {t₀ : Ms} {kind : CountersKind} {i : Channel}

theorem reference_cons (op : CountersOp) (calls : List CountersOp) :
    reference loaded kind i (op :: calls) =
      match op.event kind i with
      | some e => (reference loaded kind i calls).step e
      | none => reference loaded kind i calls := by
  unfold reference
  cases hevent : op.event kind i with
  | none => rw [List.filterMap_cons_none hevent]
  | some e => rw [List.filterMap_cons_some hevent, List.foldr_cons]

/-- A call that a meter hears of folds nothing and is made at the time told. -/
theorem event_some {s : Counters} {op : CountersOp} {e : Event} (h : op.event kind i = some e) :
    s.foldsAt op = false ∧
      (e = .zero op.time ∨ ∃ on, e = .report on op.time ∧ op.asks kind i = !on) := by
  cases op with
  | onChange k channel on t =>
    rw [CountersOp.event] at h
    by_cases hown : k = kind ∧ channel = i.val + 1
    · rw [if_pos hown] at h
      refine ⟨rfl, Or.inr ⟨on, (Option.some.inj h).symm, ?_⟩⟩
      simp [CountersOp.asks, hown]
    · rw [if_neg hown] at h
      cases h
  | get k channel t => cases h
  | reset k channel t ok =>
    rw [CountersOp.event] at h
    by_cases hown : k = kind ∧ channel = i.val + 1
    · rw [if_pos hown] at h
      exact ⟨rfl, Or.inl (Option.some.inj h).symm⟩
    · rw [if_neg hown] at h
      cases h
  | tick t ok => cases h
  | flushNow t ok => cases h

/-- A call in time leaves the slot showing the reference. -/
theorem tracks_step {s : Counters} {past : List (Counters × CountersOp)} {op : CountersOp}
    (h : SlotTracks (reference loaded kind i (past.map Prod.snd)) (lastMark Counters.foldsAt past)
      op.time (s.slots kind i))
    (htimely : Timely Counters.foldsAt fullTurn loaded kind i (s, op) past) :
    SlotTracks (reference loaded kind i (((s, op) :: past).map Prod.snd))
      (lastMark Counters.foldsAt ((s, op) :: past)) op.time ((s.step op).slots kind i) := by
  rw [Counters.slots_step, List.map_cons, reference_cons, lastMark]
  cases hevent : op.event kind i with
  | none =>
    cases hfolds : s.foldsAt op with
    | false => exact h
    | true => exact h.after_fold (htimely (by simp [hfolds]))
  | some e =>
    obtain ⟨hkeeps, rfl | ⟨on, rfl, hasks⟩⟩ := event_some (s := s) hevent
    · rw [hkeeps]
      exact .of_zero h.follows h.folded
    · rw [hkeeps]
      refine h.report (fun hoff => htimely ?_)
      rw [hasks, hoff]
      simp

theorem follows_step {s : Counters} {calls : List CountersOp} {op : CountersOp}
    (h : SlotFollows (reference loaded kind i calls) op.time (s.slots kind i)) :
    SlotFollows (reference loaded kind i (op :: calls)) op.time ((s.step op).slots kind i) := by
  rw [Counters.slots_step, reference_cons]
  cases hevent : op.event kind i with
  | none =>
    cases s.foldsAt op with
    | false => exact h
    | true => exact h.after_fold _
  | some e =>
    obtain ⟨-, rfl | ⟨on, rfl, -⟩⟩ := event_some (s := s) hevent
    · exact h.zero
    · exact h.report on

theorem tracks_reset {s : Counters} {past : List (Counters × CountersOp)} {op : CountersOp}
    (h : SlotFollows (reference loaded kind i (past.map Prod.snd)) op.time (s.slots kind i))
    (hevent : op.event kind i = some (.zero op.time))
    (hfold : lastMark Counters.foldsAt past ≤ op.time) :
    SlotTracks (reference loaded kind i (((s, op) :: past).map Prod.snd))
      (lastMark Counters.foldsAt ((s, op) :: past)) op.time ((s.step op).slots kind i) := by
  rw [Counters.slots_step, List.map_cons, reference_cons, lastMark, hevent,
    (event_some (s := s) hevent).1]
  exact .of_zero h hfold

theorem lastMark_le {marks : Counters → CountersOp → Bool} {past : List (Counters × CountersOp)}
    {t : ℕ} (h : ∀ e ∈ past, e.2.time ≤ t) : lastMark marks past ≤ t := by
  induction past with
  | nil => exact Nat.zero_le t
  | cons e past ih =>
    rw [lastMark]
    split_ifs
    · exact h e (List.mem_cons_self ..)
    · exact ih (fun d hd => h d (List.mem_cons_of_mem e hd))

theorem tracks_start (t : ℕ) : SlotTracks (reference loaded kind i []) 0 t
    ((countersInit (loaded.map CountersData.channels) t₀).slots kind i) := by
  have hslot : (countersInit (loaded.map CountersData.channels) t₀).slots kind i =
      ⟨false, false, 0#32, (CounterReference.start loaded kind i).loaded⟩ := by
    cases loaded <;> cases kind <;> rfl
  rw [hslot]
  refine ⟨rfl, rfl, fun _ => rfl, ?_, ?_, ?_, Nat.zero_le t⟩
  · exact (BitVec.add_zero _).symm
  · exact (BitVec.add_zero _).symm
  · intro since hsince
    cases hsince

/-- In every run a channel's slot follows the reports, and shows the reference as
of the latest fold while no turn of the clock is lost. -/
theorem run_tracks {ops : List CountersOp} (hordered : (ops.map CountersOp.time).Pairwise (· ≤ ·))
    {t : ℕ} (ht : ∀ op ∈ ops, op.time ≤ t) :
    SlotFollows (reference loaded kind i ((countersPast loaded t₀ ops).map Prod.snd)) t
        ((countersRun loaded t₀ ops).slots kind i) ∧
      (TurnsKept loaded kind i (countersPast loaded t₀ ops) →
        SlotTracks (reference loaded kind i ((countersPast loaded t₀ ops).map Prod.snd))
          (lastMark Counters.foldsAt (countersPast loaded t₀ ops)) t
          ((countersRun loaded t₀ ops).slots kind i)) := by
  have hrun := run_induction_past Counters.step
    (I := fun s past => ∀ t, (∀ e ∈ past, e.2.time ≤ t) →
      SlotFollows (reference loaded kind i (past.map Prod.snd)) t (s.slots kind i) ∧
      (TurnsKept loaded kind i past →
        SlotTracks (reference loaded kind i (past.map Prod.snd)) (lastMark Counters.foldsAt past) t
          (s.slots kind i)))
    (P := fun s past op => ∀ e ∈ past, e.2.time ≤ op.time)
    (countersInit (loaded.map CountersData.channels) t₀)
    (fun t _ => ⟨(tracks_start t).follows, fun _ => tracks_start t⟩) ?_ ops
    (fun e past he => past_le hordered he)
  · exact hrun t (fun e he => ht e.2 (input_of_history Counters.step _ ops e he))
  · intro s past op hI hbefore t ht
    obtain ⟨hfollows, htracks⟩ := hI op.time hbefore
    have hle := ht (s, op) (List.mem_cons_self ..)
    refine ⟨(follows_step hfollows).mono hle, ?_⟩
    rintro (hreset | ⟨htimely, hkept⟩)
    · exact (tracks_reset hfollows hreset (lastMark_le hbefore)).mono hle
    · exact (tracks_step (htracks hkept) htimely).mono hle

theorem past_get (ops : List CountersOp) (t : ℕ) :
    countersPast loaded t₀ (ops ++ [.get kind (i.val + 1) t]) =
      (countersRun loaded t₀ ops, .get kind (i.val + 1) t) :: countersPast loaded t₀ ops :=
  history_snoc Counters.step _ ops _

theorem times_get {ops : List CountersOp} {t : ℕ}
    (h : ((ops ++ [CountersOp.get kind (i.val + 1) t]).map CountersOp.time).Pairwise (· ≤ ·)) :
    (ops.map CountersOp.time).Pairwise (· ≤ ·) ∧ ∀ op ∈ ops, op.time ≤ t := by
  obtain ⟨hordered, -, hlast⟩ := List.pairwise_append.mp (List.map_append ▸ h)
  exact ⟨hordered, fun op hop =>
    hlast op.time (List.mem_map_of_mem hop) t (by simp [CountersOp.time])⟩

/-- What `counters_get` returns is what the reference shows, if the clock does
not come round between two folds. -/
theorem get_eq_reference {ops : List CountersOp} {t : ℕ}
    (hordered : ((ops ++ [CountersOp.get kind (i.val + 1) t]).map CountersOp.time).Pairwise (· ≤ ·))
    (h : TurnsKept loaded kind i (countersPast loaded t₀ (ops ++ [.get kind (i.val + 1) t]))) :
    countersGet kind (i.val + 1) (reading 32 t) (countersRun loaded t₀ ops) =
      (reference loaded kind i ops.reverse).get t := by
  obtain ⟨hbefore, htimes⟩ := times_get hordered
  rw [past_get] at h
  rcases h with hreset | ⟨htimely, hkept⟩
  · cases hreset
  · have htracks := (run_tracks hbefore htimes).2 hkept
    rw [countersGet_channel, ← history_inputs Counters.step _ ops]
    exact htracks.reads (htimely (by simp [CountersOp.asks]))

/-- Where every call comes in time, no turn of the clock is lost. -/
theorem turnsKept_of_timely (past : List (Counters × CountersOp))
    (h : ∀ e before, e :: before <:+ past →
      Timely Counters.foldsAt fullTurn loaded kind i e before) : TurnsKept loaded kind i past := by
  induction past with
  | nil => trivial
  | cons e past ih =>
    exact Or.inr ⟨h e past (List.suffix_refl _),
      ih fun d before hd => h d before (hd.trans (List.suffix_cons e past))⟩

theorem Attended.mono {marks : Counters → CountersOp → Bool} {bound bound' : ℕ → ℕ → ℕ}
    {ops : List CountersOp} (h : Attended marks bound loaded t₀ kind i ops)
    (hle : ∀ since mark, bound since mark ≤ bound' since mark) :
    Attended marks bound' loaded t₀ kind i ops where
  ordered := h.ordered
  timely e past he hasked since hsince :=
    lt_of_lt_of_le (h.timely e past he hasked since hsince) (hle _ _)

theorem halfTurn_le (since fold : ℕ) : halfTurn since fold ≤ fullTurn since fold := by
  unfold halfTurn fullTurn countedTo
  omega

/-- With less than half a turn of the clock between the folds of a running
channel, its counters are those of the reference. -/
theorem run_counters_refine (loaded : Option CountersData) (t₀ : Ms) (kind : CountersKind)
    (i : Channel) (ops : List CountersOp) (t : ℕ)
    (h : Attended Counters.foldsAt halfTurn loaded t₀ kind i
      (ops ++ [.get kind (i.val + 1) t])) :
    countersGet kind (i.val + 1) (reading 32 t) (countersRun loaded t₀ ops) =
      (reference loaded kind i ops.reverse).get t :=
  get_eq_reference h.ordered (turnsKept_of_timely _ (h.mono halfTurn_le).timely)

instance (marks : Counters → CountersOp → Bool) (bound : ℕ → ℕ → ℕ)
    (loaded : Option CountersData) (kind : CountersKind) (i : Channel) (e : Counters × CountersOp)
    (past : List (Counters × CountersOp)) :
    Decidable (Timely marks bound loaded kind i e past) := inferInstanceAs (Decidable (_ → _))

instance decTurnsKept (loaded : Option CountersData) (kind : CountersKind) (i : Channel) :
    (past : List (Counters × CountersOp)) → Decidable (TurnsKept loaded kind i past)
  | [] => .isTrue trivial
  | _ :: past =>
    have := decTurnsKept loaded kind i past
    inferInstanceAs (Decidable (_ ∨ _ ∧ _))

/-- Relay 1 stays on from 300 ms. It is read, and folded by a flush and by a tick. -/
def foldedTwice : List CountersOp :=
  [.onChange .relay 1 false 0, .onChange .relay 1 true 300, .get .relay 1 1900,
    .flushNow 2000 false, .tick 600000 true, .onChange .relay 1 true 600100]

theorem folded_twice_read : countersGet .relay 1 (reading 32 600200)
      (countersRun none 0#32 foldedTwice) =
    (reference none .relay 0 foldedTwice.reverse).get 600200 :=
  run_counters_refine none 0#32 .relay 0 foldedTwice 600200
    ⟨by decide, forall_past_of_tails (by decide +kernel)⟩

/-- The counters agree where the calls of `counters_tick` and
`counters_flush_now` come in time, whether they fold or not. -/
def RefineCalled : Prop :=
  ∀ (loaded : Option CountersData) (t₀ : Ms) (kind : CountersKind) (i : Channel)
    (ops : List CountersOp) (t : ℕ),
    Attended (fun _ => CountersOp.folds) halfTurn loaded t₀ kind i
      (ops ++ [.get kind (i.val + 1) t]) →
    countersGet kind (i.val + 1) (reading 32 t) (countersRun loaded t₀ ops) =
      (reference loaded kind i ops.reverse).get t

/-- Relay 1 is on from the start. A reset of relay 2 holds the ticks back. -/
def heldBack : List CountersOp :=
  [.onChange .relay 1 true 0, .reset .relay 2 2147483647 true, .tick 2147483647 true,
    .tick 2148083646 true]

/-- The clock comes round before relay 1 is folded, and it reads 599 s. -/
theorem held_back_lost : ¬RefineCalled := by
  intro h
  have hread := h none 0#32 .relay 0 heldBack 4295567293
    ⟨by decide, forall_past_of_tails (by decide +kernel)⟩
  exact absurd hread (by decide +kernel)

end RelayBoard
