import RelayBoard.CounterSaves
import RelayBoard.Lib.Clock
import RelayBoard.Lib.Metering

/-!
# The calls that count

The calls of one task, each run to its end, and what a call does to the slot of
one channel. Ticks fold only when the save interval is over.
-/

set_option autoImplicit false

namespace RelayBoard
open Lib Lib.Loops Lib.Clock Lib.Metering

def countersGet (kind : CountersKind) (channel : ℕ) (now : Ms) (s : Counters) : CountersChannel :=
  if h : channel < 1 ∨ 8 < channel then ⟨0#32, 0#32⟩
  else
    let slot := s.slots kind ⟨channel - 1, index_lt_of_not h⟩
    let liveExtra := if slot.on then (now - slot.onSinceMs) / 1000#32 else 0#32
    ⟨slot.saved.cycles, slot.saved.runtimeS + liveExtra⟩

/-- `ok` is whether `store.save` succeeds. -/
def countersReset (kind : CountersKind) (channel : ℕ) (now : Ms) (ok : Bool) (s : Counters) :
    Counters :=
  if h : channel < 1 ∨ 8 < channel then s
  else
    let s := s.resetSlot kind ⟨channel - 1, index_lt_of_not h⟩ now
    if ok then { s with dirty := false, lastSaveMs := now } else s

def countersTick (now : Ms) (ok : Bool) (s : Counters) : Counters :=
  if now - s.lastSaveMs < countersSaveIntervalMs then s
  else
    let s := s.foldAll now
    let s := if s.dirty && ok then { s with dirty := false } else s
    { s with lastSaveMs := now }

def countersFlushNow (now : Ms) (ok : Bool) (s : Counters) : Counters :=
  let s := s.foldAll now
  if ok then { s with dirty := false, lastSaveMs := now } else s

inductive CountersOp where
  | onChange (kind : CountersKind) (channel : ℕ) (on : Bool) (t : ℕ)
  | get (kind : CountersKind) (channel : ℕ) (t : ℕ)
  | reset (kind : CountersKind) (channel : ℕ) (t : ℕ) (ok : Bool)
  | tick (t : ℕ) (ok : Bool)
  | flushNow (t : ℕ) (ok : Bool)

namespace CountersOp

def time : CountersOp → ℕ
  | .onChange _ _ _ t => t
  | .get _ _ t => t
  | .reset _ _ t _ => t
  | .tick t _ => t
  | .flushNow t _ => t

/-- What the meter of a channel hears of a call. -/
def event (kind : CountersKind) (i : Channel) : CountersOp → Option Event
  | .onChange k channel on t => if k = kind ∧ channel = i.val + 1 then some (.report on t) else none
  | .reset k channel t _ => if k = kind ∧ channel = i.val + 1 then some (.zero t) else none
  | _ => none

def asks (kind : CountersKind) (i : Channel) : CountersOp → Bool
  | .onChange k channel on _ => decide (k = kind ∧ channel = i.val + 1) && !on
  | .get k channel _ => decide (k = kind ∧ channel = i.val + 1)
  | _ => false

/-- A call that is there to fold what is running. -/
def folds : CountersOp → Bool
  | .tick _ _ => true
  | .flushNow _ _ => true
  | _ => false

end CountersOp

namespace CounterSaves

variable {τ : Type} [DecidableEq τ]

def finish (t : τ) (ok : Bool) (s : CounterSaves τ) : CounterSaves τ :=
  (((s.proceed t ok).proceed t ok).proceed t ok).proceed t ok

@[simp] theorem pc_setPc (t : τ) (pc : CountersPc) (s : CounterSaves τ) :
    (s.setPc t pc).pc t = pc := by
  simp [setPc]

@[simp] theorem counters_setPc (t : τ) (pc : CountersPc) (s : CounterSaves τ) :
    (s.setPc t pc).counters = s.counters := rfl

theorem finish_idle (t : τ) (ok : Bool) (s : CounterSaves τ) (h : s.pc t = .idle) :
    s.finish t ok = s := by
  simp [finish, proceed, h]

/-- What a task that nothing interrupts makes of `counters_reset`. -/
theorem reset_alone (s : CounterSaves τ) (t : τ) (ok : Bool) (kind : CountersKind) (channel : ℕ)
    (now : Ms) (h : s.pc t = .idle) :
    ((s.enter t (.reset kind channel now)).finish t ok).counters =
      countersReset kind channel now ok s.counters := by
  rw [enter, countersReset]
  by_cases hrange : channel < 1 ∨ 8 < channel
  · rw [dif_pos hrange, dif_pos hrange, finish_idle t ok s h]
  · rw [dif_neg hrange, dif_neg hrange]
    cases ok <;> simp [finish, proceed, snapshot, leave, lockedSection]

theorem flushNow_alone (s : CounterSaves τ) (t : τ) (ok : Bool) (now : Ms) :
    ((s.enter t (.flushNow now)).finish t ok).counters = countersFlushNow now ok s.counters := by
  rw [enter, countersFlushNow]
  cases ok <;> simp [finish, proceed, snapshot, leave, lockedSection]

theorem tick_alone (s : CounterSaves τ) (t : τ) (ok : Bool) (now : Ms) (h : s.pc t = .idle) :
    ((s.enter t (.tick now)).finish t ok).counters = countersTick now ok s.counters := by
  rw [enter, countersTick]
  by_cases hheld : now - s.counters.lastSaveMs < countersSaveIntervalMs
  · rw [if_pos hheld, if_pos hheld, finish_idle t ok s h]
  · rw [if_neg hheld, if_neg hheld]
    cases hdirty : (s.counters.foldAll now).dirty <;> cases ok <;>
      simp [finish, proceed, snapshot, leave, lockedSection, hdirty]

end CounterSaves

namespace Counters

def step (s : Counters) : CountersOp → Counters
  | .onChange kind channel on t => countersOnChange kind channel on (reading 32 t) s
  | .get _ _ _ => s
  | .reset kind channel t ok => countersReset kind channel (reading 32 t) ok s
  | .tick t ok => countersTick (reading 32 t) ok s
  | .flushNow t ok => countersFlushNow (reading 32 t) ok s

/-- A tick folds unless the save interval holds it back, a flush always. -/
def foldsAt (s : Counters) : CountersOp → Bool
  | .tick t _ => !decide (reading 32 t - s.lastSaveMs < countersSaveIntervalMs)
  | .flushNow _ _ => true
  | _ => false

end Counters

def reportSlot (on : Bool) (now : Ms) (slot : Slot) : Slot :=
  if !slot.seen then { slot with seen := true, on := on, onSinceMs := now }
  else if on != slot.on then
    if on then
      { slot with
        saved := { slot.saved with cycles := slot.saved.cycles + 1#32 }
        on := true
        onSinceMs := now }
    else { (foldRunningLocked now slot).1 with on := false }
  else slot

namespace Counters

variable (kind : CountersKind) (i : Channel) (now : Ms) (s : Counters)

theorem slots_setSlot (k : CountersKind) (j : Channel) (slot : Slot) :
    (s.setSlot k j slot).slots kind i = if k = kind ∧ j = i then slot else s.slots kind i := by
  by_cases hj : j = i
  · subst hj
    cases k <;> cases kind <;> simp [setSlot, slots]
  · have hi : i ≠ j := fun h => hj h.symm
    cases k <;> cases kind <;> simp [setSlot, slots, hj, hi]

theorem index_eq_iff (channel : ℕ) (h : ¬(channel < 1 ∨ 8 < channel)) :
    (⟨channel - 1, index_lt_of_not h⟩ : Channel) = i ↔ channel = i.val + 1 := by
  rw [Fin.ext_iff]
  change channel - 1 = i.val ↔ _
  omega

theorem slots_onChange (k : CountersKind) (channel : ℕ) (on : Bool) :
    (countersOnChange k channel on now s).slots kind i =
      if k = kind ∧ channel = i.val + 1 then reportSlot on now (s.slots kind i)
      else s.slots kind i := by
  have hi := i.isLt
  unfold countersOnChange
  by_cases hrange : channel < 1 ∨ 8 < channel
  · rw [dif_pos hrange, if_neg (by omega)]
  · rw [dif_neg hrange]
    dsimp only
    by_cases hown : k = kind ∧ channel = i.val + 1
    · obtain ⟨rfl, rfl⟩ := hown
      simp only [Nat.add_sub_cancel, Fin.eta, and_self, if_true]
      unfold reportSlot
      split_ifs
      · simp [slots_setSlot]
      · exact (slots_setSlot k i s k i _).trans (if_pos ⟨rfl, rfl⟩)
      · exact (slots_setSlot k i s k i _).trans (if_pos ⟨rfl, rfl⟩)
      · rfl
    · have hother : ¬(k = kind ∧ (⟨channel - 1, index_lt_of_not hrange⟩ : Channel) = i) := by
        rwa [index_eq_iff i channel hrange]
      rw [if_neg hown]
      split_ifs
      · exact (slots_setSlot kind i s k _ _).trans (if_neg hother)
      · exact (slots_setSlot kind i s k _ _).trans (if_neg hother)
      · exact (slots_setSlot kind i s k _ _).trans (if_neg hother)
      · rfl

/-- What `counters_reset` does to the slot. -/
theorem slots_reset (k : CountersKind) (channel : ℕ) (ok : Bool) :
    (countersReset k channel now ok s).slots kind i =
      if k = kind ∧ channel = i.val + 1 then
        { s.slots kind i with
          saved := ⟨0#32, 0#32⟩
          onSinceMs := if (s.slots kind i).on then now else (s.slots kind i).onSinceMs }
      else s.slots kind i := by
  have hi := i.isLt
  unfold countersReset
  by_cases hrange : channel < 1 ∨ 8 < channel
  · rw [dif_pos hrange, if_neg (by omega)]
  · rw [dif_neg hrange]
    dsimp only
    have hsave : ∀ s' : Counters,
        (if ok then { s' with dirty := false, lastSaveMs := now } else s').slots kind i =
          s'.slots kind i := by
      intro s'
      cases ok <;> cases kind <;> rfl
    rw [hsave]
    by_cases hown : k = kind ∧ channel = i.val + 1
    · obtain ⟨rfl, rfl⟩ := hown
      simp only [Nat.add_sub_cancel, Fin.eta, and_self, if_true]
      exact (slots_setSlot k i s k i _).trans (if_pos ⟨rfl, rfl⟩)
    · have hother : ¬(k = kind ∧ (⟨channel - 1, index_lt_of_not hrange⟩ : Channel) = i) := by
        rwa [index_eq_iff i channel hrange]
      rw [if_neg hown]
      exact (slots_setSlot kind i s k _ _).trans (if_neg hother)

theorem slots_foldSlot (k : CountersKind) (j : Channel) :
    (s.foldSlot k j now).slots kind i =
      if k = kind ∧ j = i then (foldRunningLocked now (s.slots kind i)).1 else s.slots kind i := by
  refine (slots_setSlot kind i s k j _).trans ?_
  by_cases hown : k = kind ∧ j = i
  · obtain ⟨rfl, rfl⟩ := hown
    exact (if_pos ⟨rfl, rfl⟩).trans (if_pos ⟨rfl, rfl⟩).symm
  · rw [if_neg hown, if_neg hown]

theorem slots_foldAll :
    (s.foldAll now).slots kind i = (foldRunningLocked now (s.slots kind i)).1 := by
  have hpass : ∀ (j : Channel) (s : Counters),
      ((s.foldSlot .relay j now).foldSlot .input j now).slots kind i =
        if j = i then (foldRunningLocked now (s.slots kind i)).1 else s.slots kind i := by
    intro j s
    rw [slots_foldSlot, slots_foldSlot]
    cases kind <;> simp
  unfold foldAll
  rw [forEach_own (fun (j : Channel) s => (s.foldSlot .relay j now).foldSlot .input j now)
    (fun s : Counters => s.slots kind i) i]
  · rw [hpass, if_pos rfl]
  · intro j hj s
    rw [hpass, if_neg hj]
  · intro s s' h
    rw [hpass, hpass, if_pos rfl, if_pos rfl, h]

theorem slots_tick (t : ℕ) (ok : Bool) :
    (countersTick (reading 32 t) ok s).slots kind i =
      if s.foldsAt (.tick t ok) then (foldRunningLocked (reading 32 t) (s.slots kind i)).1
      else s.slots kind i := by
  unfold countersTick
  by_cases hheld : reading 32 t - s.lastSaveMs < countersSaveIntervalMs
  · rw [if_pos hheld, if_neg (by simp [foldsAt, hheld])]
  · rw [if_neg hheld, if_pos (by simp [foldsAt, hheld]), ← slots_foldAll]
    dsimp only
    cases kind <;> split_ifs <;> rfl

theorem slots_flush (ok : Bool) : (countersFlushNow now ok s).slots kind i =
    (foldRunningLocked now (s.slots kind i)).1 := by
  rw [← slots_foldAll]
  unfold countersFlushNow
  cases ok <;> cases kind <;> rfl

/-- A call changes the slot of a channel as its meter hears of it, or folds it,
or leaves it alone. -/
theorem slots_step (op : CountersOp) : (s.step op).slots kind i =
    match op.event kind i with
    | some (.report on t) => reportSlot on (reading 32 t) (s.slots kind i)
    | some (.zero t) =>
      { s.slots kind i with
        saved := ⟨0#32, 0#32⟩
        onSinceMs :=
          if (s.slots kind i).on then reading 32 t else (s.slots kind i).onSinceMs }
    | none =>
      if s.foldsAt op then (foldRunningLocked (reading 32 op.time) (s.slots kind i)).1
      else s.slots kind i := by
  cases op with
  | onChange k channel on t =>
    change (countersOnChange k channel on (reading 32 t) s).slots kind i = _
    rw [slots_onChange, CountersOp.event]
    by_cases hown : k = kind ∧ channel = i.val + 1
    · rw [if_pos hown, if_pos hown]
    · rw [if_neg hown, if_neg hown]
      rfl
  | get k channel t => rfl
  | reset k channel t ok =>
    change (countersReset k channel (reading 32 t) ok s).slots kind i = _
    rw [slots_reset, CountersOp.event]
    by_cases hown : k = kind ∧ channel = i.val + 1
    · rw [if_pos hown, if_pos hown]
    · rw [if_neg hown, if_neg hown]
      rfl
  | tick t ok => exact slots_tick kind i s t ok
  | flushNow t ok => exact slots_flush kind i (reading 32 t) s ok

end Counters

theorem foldRunningLocked_off (now : Ms) (slot : Slot) (h : slot.on = false) :
    (foldRunningLocked now slot).1 = slot := by
  simp [foldRunningLocked, h]

theorem foldRunningLocked_on (now : Ms) (slot : Slot) (h : slot.on = true) :
    (foldRunningLocked now slot).1 =
      { slot with
        saved :=
          { slot.saved with
            runtimeS := slot.saved.runtimeS + (now - slot.onSinceMs) / 1000#32 }
        onSinceMs := slot.onSinceMs + (now - slot.onSinceMs) / 1000#32 * 1000#32 } := by
  unfold foldRunningLocked
  dsimp only
  by_cases hzero : (now - slot.onSinceMs) / 1000#32 = 0#32
  · rw [if_pos (by simp [hzero]), hzero]
    simp
  · rw [if_neg (by simp [h, hzero])]

theorem countersGet_channel {kind : CountersKind} {i : Channel} (now : Ms) (s : Counters) :
    countersGet kind (i.val + 1) now s =
      ⟨(s.slots kind i).saved.cycles,
        (s.slots kind i).saved.runtimeS +
          if (s.slots kind i).on then (now - (s.slots kind i).onSinceMs) / 1000#32 else 0#32⟩ := by
  have hi := i.isLt
  rw [countersGet, dif_neg (by omega)]
  simp only [Nat.add_sub_cancel, Fin.eta]

end RelayBoard
