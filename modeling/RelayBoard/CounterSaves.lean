import Mathlib.Data.Fintype.Pi
import RelayBoard.Lib.Runs
import RelayBoard.Lib.WriteBack
import RelayBoard.Counters

/-!
# Saving the counters

`counters_reset`, `counters_tick` and `counters_flush_now` copy the saved
counts under the lock, release it for the save, and take it again to clear
`dirty`. The I/O task, the web server's task and the shutdown handler make
these calls, so the sections of several calls come in any order with the saves
between them.
-/

set_option autoImplicit false

namespace RelayBoard
open BitVec Lib Lib.Loops Lib.Runs

/-- `counters_data_t`. -/
structure CountersData where
  relays : Channel → CountersChannel
  inputs : Channel → CountersChannel

instance : DecidableEq CountersData := fun a b =>
  decidable_of_iff (a.relays = b.relays ∧ a.inputs = b.inputs)
    ⟨fun h => congrArg₂ CountersData.mk h.1 h.2, fun h => ⟨h ▸ rfl, h ▸ rfl⟩⟩

def CountersData.channels (data : CountersData) : CountersKind → Channel → CountersChannel
  | .relay => data.relays
  | .input => data.inputs

def Counters.snapshotLocked (s : Counters) : CountersData :=
  ⟨fun i => (s.relays i).saved, fun i => (s.inputs i).saved⟩

/-- `fold_running_locked` on one slot, which sets `dirty` if it adds to the
runtime. -/
def Counters.foldSlot (kind : CountersKind) (i : Channel) (now : Ms) (s : Counters) : Counters :=
  let folded := foldRunningLocked now (s.slots kind i)
  { s.setSlot kind i folded.1 with dirty := s.dirty || folded.2 }

/-- The loop of `counters_tick` and `counters_flush_now`. -/
def Counters.foldAll (now : Ms) (s : Counters) : Counters :=
  forEach (fun (i : Channel) s => (s.foldSlot .relay i now).foldSlot .input i now) s

/-- The first section of `counters_reset`. -/
def Counters.resetSlot (kind : CountersKind) (i : Channel) (now : Ms) (s : Counters) : Counters :=
  let slot := s.slots kind i
  { s.setSlot kind i
      { slot with saved := ⟨0#32, 0#32⟩, onSinceMs := if slot.on then now else slot.onSinceMs } with
    dirty := true }

/-- `COUNTERS_SAVE_INTERVAL_MS`. -/
def countersSaveIntervalMs : Ms := 600000#32

inductive CountersCall where
  | onChange (kind : CountersKind) (channel : ℕ) (on : Bool) (now : Ms)
  | reset (kind : CountersKind) (channel : ℕ) (now : Ms)
  | tick (now : Ms)
  | flushNow (now : Ms)

inductive CountersSaver where
  | reset
  | tick
  | flushNow
  deriving DecidableEq

/-- Where a task stands in its call: before `counters_tick` takes the lock,
between the copy and the end of the save, before the lock is taken to clear
`dirty`, before `counters_tick` writes `last_save_ms` without the lock. -/
inductive CountersPc where
  | idle
  | ticking (now : Ms)
  | saving (saver : CountersSaver) (now : Ms) (data : CountersData) (date : ℕ)
  | clearing (saver : CountersSaver) (now : Ms)
  | stamping (now : Ms)
  deriving DecidableEq

def CountersPc.clears : CountersPc → Bool
  | .clearing _ _ => true
  | _ => false

/-- The counters, the store and where each task stands. `changes` counts the
sections that changed a saved count, `storeDate` is that number when the copy
of the last successful save was taken. -/
structure CounterSaves (τ : Type) where
  counters : Counters
  store : Option CountersData
  pc : τ → CountersPc
  changes : ℕ
  storeDate : Option ℕ

/-- A task makes a call, or goes on with the one it is in; `ok` is whether
`store.save` succeeds if that is its next step. -/
inductive CountersAction (τ : Type) where
  | call (t : τ) (c : CountersCall)
  | proceed (t : τ) (ok : Bool)

namespace CounterSaves

variable {τ : Type} [DecidableEq τ]

/-- After `counters_init`. -/
def start (loaded store : Option CountersData) (now : Ms) : CounterSaves τ where
  counters := countersInit (loaded.map CountersData.channels) now
  store := store
  pc := fun _ => .idle
  changes := 0
  storeDate := none

def setPc (t : τ) (pc : CountersPc) (s : CounterSaves τ) : CounterSaves τ :=
  { s with pc := Function.update s.pc t pc }

def lockedSection (counters : Counters) (s : CounterSaves τ) : CounterSaves τ :=
  { s with
    counters := counters
    changes :=
      if counters.snapshotLocked = s.counters.snapshotLocked then s.changes else s.changes + 1 }

def snapshot (t : τ) (saver : CountersSaver) (now : Ms) (s : CounterSaves τ) : CounterSaves τ :=
  s.setPc t (.saving saver now s.counters.snapshotLocked s.changes)

/-- Up to the call's first release of the lock, `counters_tick` only up to its
test. -/
def enter (t : τ) (c : CountersCall) (s : CounterSaves τ) : CounterSaves τ :=
  match c with
  | .onChange kind channel on now =>
    s.lockedSection (countersOnChange kind channel on now s.counters)
  | .reset kind channel now =>
    if h : channel < 1 ∨ 8 < channel then s
    else
      (s.lockedSection
        (s.counters.resetSlot kind ⟨channel - 1, index_lt_of_not h⟩ now)).snapshot t .reset now
  | .tick now =>
    if now - s.counters.lastSaveMs < countersSaveIntervalMs then s else s.setPc t (.ticking now)
  | .flushNow now => (s.lockedSection (s.counters.foldAll now)).snapshot t .flushNow now

/-- `counters_tick` has yet to write `last_save_ms`, the others end here. -/
def leave (t : τ) (saver : CountersSaver) (now : Ms) (s : CounterSaves τ) : CounterSaves τ :=
  s.setPc t (if saver = .tick then .stamping now else .idle)

def proceed (t : τ) (ok : Bool) (s : CounterSaves τ) : CounterSaves τ :=
  match s.pc t with
  | .idle => s
  | .ticking now =>
    let folded := s.lockedSection (s.counters.foldAll now)
    if folded.counters.dirty then folded.snapshot t .tick now else folded.setPc t (.stamping now)
  | .saving saver now data date =>
    if ok then
      { s with store := some data, storeDate := some date }.setPc t (.clearing saver now)
    else s.leave t saver now
  | .clearing saver now =>
    let lastSaveMs := if saver = .tick then s.counters.lastSaveMs else now
    { s with counters := { s.counters with dirty := false, lastSaveMs := lastSaveMs } }.leave t
      saver now
  | .stamping now =>
    { s with counters := { s.counters with lastSaveMs := now } }.setPc t .idle

def step (s : CounterSaves τ) : CountersAction τ → CounterSaves τ
  | .call t c => if s.pc t = .idle then s.enter t c else s
  | .proceed t ok => s.proceed t ok

/-- Where the action clears `dirty`, no section has changed a saved count since
the copy in the store was taken. -/
def ClearsStored (s : CounterSaves τ) : CountersAction τ → Prop
  | .call _ _ => True
  | .proceed t _ => (s.pc t).clears = true → s.storeDate = some s.changes

end CounterSaves

/-- A change of the counters keeps `dirty` set, and sets it if it changes a
saved count. -/
structure Counters.Marks (s s' : Counters) : Prop where
  kept : s.dirty = true → s'.dirty = true
  changed : s'.snapshotLocked ≠ s.snapshotLocked → s'.dirty = true

namespace Counters

theorem Marks.refl (s : Counters) : s.Marks s := ⟨id, fun h => absurd rfl h⟩

theorem Marks.trans {s s' s'' : Counters} (h : s.Marks s') (h' : s'.Marks s'') : s.Marks s'' where
  kept hdirty := h'.kept (h.kept hdirty)
  changed hne := by
    by_cases heq : s'.snapshotLocked = s.snapshotLocked
    · exact h'.changed (by rwa [heq])
    · exact h'.kept (h.changed heq)

theorem Marks.of_dirty {s s' : Counters} (h : s'.dirty = true) : s.Marks s' :=
  ⟨fun _ => h, fun _ => h⟩

theorem saved_update (slots : Channel → Slot) (i : Channel) (slot : Slot)
    (h : slot.saved = (slots i).saved) :
    (fun j => (Function.update slots i slot j).saved) = fun j => (slots j).saved := by
  funext j
  by_cases hj : j = i
  · subst hj
    simpa using h
  · simp [hj]

theorem snapshot_setSlot (kind : CountersKind) (i : Channel) (slot : Slot) (s : Counters)
    (h : slot.saved = (s.slots kind i).saved) :
    (s.setSlot kind i slot).snapshotLocked = s.snapshotLocked := by
  cases kind with
  | relay => exact congrArg₂ CountersData.mk (saved_update s.relays i slot h) rfl
  | input => exact congrArg₂ CountersData.mk rfl (saved_update s.inputs i slot h)

theorem setSlot_dirty (kind : CountersKind) (i : Channel) (slot : Slot) (s : Counters) :
    (s.setSlot kind i slot).dirty = s.dirty := by
  cases kind <;> rfl

theorem foldRunningLocked_unchanged (now : Ms) (slot : Slot)
    (h : (foldRunningLocked now slot).2 = false) : (foldRunningLocked now slot).1 = slot := by
  unfold foldRunningLocked at h ⊢
  dsimp only at h ⊢
  split_ifs at h ⊢
  rfl

theorem foldSlot_marks (kind : CountersKind) (i : Channel) (now : Ms) (s : Counters) :
    s.Marks (s.foldSlot kind i now) where
  kept hdirty := by simp [foldSlot, hdirty]
  changed hne := by
    cases hfolded : (foldRunningLocked now (s.slots kind i)).2 with
    | true => simp [foldSlot, hfolded]
    | false =>
      refine absurd (snapshot_setSlot kind i _ s ?_) hne
      rw [foldRunningLocked_unchanged now _ hfolded]

theorem foldAll_marks (now : Ms) (s : Counters) : s.Marks (s.foldAll now) :=
  forEach_keeps _ (P := s.Marks)
    (fun i s' h => (h.trans (s'.foldSlot_marks .relay i now)).trans (foldSlot_marks .input i now _))
    (Marks.refl s)

theorem onChange_marks (kind : CountersKind) (channel : ℕ) (on : Bool) (now : Ms) (s : Counters) :
    s.Marks (countersOnChange kind channel on now s) := by
  unfold countersOnChange
  dsimp only
  split_ifs
  · exact Marks.refl s
  · refine ⟨fun hdirty => ?_, fun hne => absurd (snapshot_setSlot kind _ _ s ?_) hne⟩
    · rwa [setSlot_dirty]
    · rfl
  · exact Marks.of_dirty rfl
  · exact Marks.of_dirty rfl
  · exact Marks.refl s

end Counters

/-- What a task still has to do with its copy. -/
def CountersPc.writer : CountersPc → WriteBack.Writer CountersData
  | .saving _ _ data date => .saving data date
  | .clearing _ _ => .clearing
  | _ => .idle

namespace CounterSaves

variable {τ : Type} {s : CounterSaves τ} {t : τ}

/-- The counters as the content of a write-back store. -/
def writeBack (s : CounterSaves τ) : WriteBack.State τ CountersData where
  content := s.counters.snapshotLocked
  changes := s.changes
  dirty := s.counters.dirty
  writer := fun t => (s.pc t).writer
  store := s.store
  storeDate := s.storeDate

theorem writeBack_section (counters : Counters) (s : CounterSaves τ) :
    (s.lockedSection counters).writeBack =
      s.writeBack.edit counters.snapshotLocked counters.dirty := rfl

theorem section_inv (h : s.writeBack.Inv) {counters : Counters} (hm : s.counters.Marks counters) :
    (s.lockedSection counters).writeBack.Inv := by
  rw [writeBack_section]
  exact h.edit hm.kept hm.changed

theorem start_inv (loaded store : Option CountersData) (now : Ms) :
    (start (τ := τ) loaded store now).writeBack.Inv where
  writers _ _ _ ht := nomatch ht
  store _ hdate := nomatch hdate
  clean _ := .inl rfl

variable [DecidableEq τ]

theorem writeBack_setPc (t : τ) (pc : CountersPc) (s : CounterSaves τ) :
    (s.setPc t pc).writeBack =
      { s.writeBack with writer := Function.update s.writeBack.writer t pc.writer } :=
  congrArg (fun w => { s.writeBack with writer := w })
    (Function.comp_update CountersPc.writer s.pc t pc)

theorem writeBack_snapshot (t : τ) (saver : CountersSaver) (now : Ms) (s : CounterSaves τ) :
    (s.snapshot t saver now).writeBack = s.writeBack.take t := writeBack_setPc ..

theorem writeBack_leave (t : τ) (saver : CountersSaver) (now : Ms) (s : CounterSaves τ) :
    (s.leave t saver now).writeBack = s.writeBack.giveUp t := by
  rw [leave, writeBack_setPc]
  cases saver <;> rfl

theorem enter_inv (h : s.writeBack.Inv) (ht : s.pc t = .idle) (c : CountersCall) :
    (s.enter t c).writeBack.Inv := by
  have hwriter : (s.pc t).writer ≠ .clearing := by rw [ht]; nofun
  cases c with
  | onChange kind channel on now =>
    exact section_inv h (Counters.onChange_marks kind channel on now s.counters)
  | reset kind channel now =>
    rw [enter]
    split_ifs with hchannel
    · exact h
    · rw [writeBack_snapshot]
      exact (section_inv h (Counters.Marks.of_dirty rfl)).take hwriter
  | tick now =>
    rw [enter]
    split_ifs with hthrottled
    · exact h
    · rw [writeBack_setPc]
      exact h.giveUp hwriter
  | flushNow now =>
    rw [enter, writeBack_snapshot]
    exact (section_inv h (Counters.foldAll_marks now s.counters)).take hwriter

theorem proceed_inv (h : s.writeBack.Inv)
    (hclear : (s.pc t).clears = true → s.storeDate = some s.changes) (ok : Bool) :
    (s.proceed t ok).writeBack.Inv := by
  unfold proceed
  cases hpc : s.pc t with
  | idle => exact h
  | ticking now =>
    have hwriter : (s.pc t).writer ≠ .clearing := by rw [hpc]; nofun
    have hfolded := section_inv h (Counters.foldAll_marks now s.counters)
    simp only
    split_ifs with hdirty
    · rw [writeBack_snapshot]
      exact hfolded.take hwriter
    · rw [writeBack_setPc]
      exact hfolded.giveUp hwriter
  | saving saver now data date =>
    have hwriter : (s.pc t).writer = .saving data date := by rw [hpc]; rfl
    simp only
    split_ifs
    · rw [writeBack_setPc]
      exact h.save hwriter
    · rw [writeBack_leave]
      exact h.giveUp (ne_of_eq_of_ne hwriter nofun)
  | clearing saver now =>
    simp only [writeBack_leave]
    exact h.clear (hclear (by rw [hpc]; rfl))
  | stamping now =>
    have hwriter : (s.pc t).writer ≠ .clearing := by rw [hpc]; nofun
    simp only [writeBack_setPc]
    exact h.giveUp hwriter

theorem step_inv (h : s.writeBack.Inv) (a : CountersAction τ) (ha : s.ClearsStored a) :
    (s.step a).writeBack.Inv := by
  cases a with
  | call t c =>
    rw [step]
    split_ifs with ht
    · exact enter_inv h ht c
    · exact h
  | proceed t ok => exact proceed_inv h ha ok

/-- If `dirty` is only cleared while the store holds a copy taken after the last
change, then once a save has succeeded, all calls have returned and `dirty` is
false, the store holds the saved counts. -/
theorem run_store_current (loaded store : Option CountersData) (now : Ms)
    (as : List (CountersAction τ))
    (has : ∀ e ∈ history step (start loaded store now) as, e.1.ClearsStored e.2)
    (hidle : ∀ t, (run step (start loaded store now) as).pc t = .idle)
    (hdirty : (run step (start loaded store now) as).counters.dirty = false)
    (hsaved : (run step (start loaded store now) as).storeDate ≠ none) :
    (run step (start loaded store now) as).store =
      some (run step (start loaded store now) as).counters.snapshotLocked := by
  have hinv := run_invariant step (I := fun s : CounterSaves τ => s.writeBack.Inv) _
    (start_inv loaded store now) (fun s a h ha => step_inv h a ha) as has
  exact hinv.settled (fun t => congrArg CountersPc.writer (hidle t)) hdirty hsaved

instance (s : CounterSaves τ) (a : CountersAction τ) : Decidable (s.ClearsStored a) :=
  match a with
  | .call _ _ => isTrue trivial
  | .proceed t _ => inferInstanceAs (Decidable ((s.pc t).clears = true → _))

/-- Relay 1 goes on, a tick saves, and a reset saves after it. -/
def resetAfterTick : List (CountersAction (Fin 2)) :=
  [.call 0 (.onChange .relay 1 false 0#32), .call 0 (.onChange .relay 1 true 1000#32),
    .call 0 (.tick 600000#32), .proceed 0 true, .proceed 0 true, .proceed 0 true, .proceed 0 true,
    .call 1 (.reset .relay 1 600001#32), .proceed 1 true, .proceed 1 true]

theorem reset_after_tick_stored :
    (run step (start none none 0#32) resetAfterTick).store =
      some (run step (start none none 0#32) resetAfterTick).counters.snapshotLocked :=
  run_store_current none none 0#32 resetAfterTick (by decide +kernel) (by decide +kernel)
    (by decide +kernel) (by decide +kernel)

/-- Whatever the order of the sections and saves, `dirty` says whether the store
lags once all calls have returned. -/
def CountersNeverLag : Prop :=
  ∀ (τ : Type) [DecidableEq τ] (loaded store : Option CountersData) (now : Ms)
    (as : List (CountersAction τ)),
    (∀ t, (run step (start loaded store now) as).pc t = .idle) →
    (run step (start loaded store now) as).counters.dirty = false →
    (run step (start loaded store now) as).storeDate ≠ none →
    (run step (start loaded store now) as).store =
      some (run step (start loaded store now) as).counters.snapshotLocked

/-- The reset saves and clears `dirty` between the tick's copy and its save. -/
def resetDuringTick : List (CountersAction (Fin 2)) :=
  [.call 0 (.onChange .relay 1 false 0#32), .call 0 (.onChange .relay 1 true 1000#32),
    .call 0 (.tick 600000#32), .proceed 0 true, .call 1 (.reset .relay 1 600001#32),
    .proceed 1 true, .proceed 1 true, .proceed 0 true, .proceed 0 true, .proceed 0 true]

/-- The store keeps what was before the reset. -/
theorem reset_undone_by_tick : ¬CountersNeverLag := by
  intro h
  have hstored := h (Fin 2) none none 0#32 resetDuringTick (by decide +kernel) (by decide +kernel)
    (by decide +kernel)
  exact absurd hstored (by decide +kernel)

end CounterSaves

end RelayBoard
