import RelayBoard.IndicatorPasses
import RelayBoard.Lib.Journal

/-!
# Chirps are never queued

A chirp waits in one place, the last one asked for, until a pass of the task
takes it or clears it. A chirp that begins was asked for after the last pass in
an override or an alarm, and after the chirp that was taken before it.
-/

set_option autoImplicit false

namespace RelayBoard
open Lib Lib.Runs Lib.Journal

inductive ChirpEvent where
  | asked (slot : ToneSlot) (i : ℕ)
  | suppressed
  | taken (i : ℕ)
  deriving DecidableEq

namespace Indicator

variable {τ : Type}

def chirpEvents (s : Indicator τ) : IndicatorAction τ → List ChirpEvent
  | .go u =>
    match s.caller u with
    | .storeChirp slot i => [.asked slot i]
    | _ => []
  | .pass _ =>
    match s.task.pc with
    | .clearChirp => [.suppressed]
    | .takeChirp => if s.task.quiet then (s.shared.chirpRequest.map .taken).toList else []
    | _ => []
  | .elapse _ => []
  | .started => []
  | .call _ _ => []

/-- The latest of the events asked for the chirp of this index. -/
def LastAsked (slot : ToneSlot) (i : ℕ) (es : List ChirpEvent) : Prop :=
  ∃ older, es = older ++ [.asked slot i]

/-- The chirp of this index was taken, and others have only been asked for since. -/
def LastTaken (slot : ToneSlot) (i : ℕ) (es : List ChirpEvent) : Prop :=
  ∃ older newer, es = older ++ .taken i :: newer ∧ LastAsked slot i older ∧
    ∀ e ∈ newer, ∃ slot j, e = .asked slot j

/-- What waits, and what has been taken to be played. -/
structure ChirpInv (s : Indicator τ) (es : List ChirpEvent) : Prop where
  waits : ∀ i, s.shared.chirpRequest = some i → ∃ slot, LastAsked slot i es
  taken : ∀ i, s.task.pc = .copyChirp i → ∃ slot, LastTaken slot i es

theorem LastTaken.asked {slot : ToneSlot} {i : ℕ} {es : List ChirpEvent}
    (h : LastTaken slot i es) (slot' : ToneSlot) (j : ℕ) :
    LastTaken slot i (es ++ [.asked slot' j]) := by
  obtain ⟨older, newer, rfl, hasked, hnewer⟩ := h
  refine ⟨older, newer ++ [.asked slot' j], by simp, hasked, fun e he => ?_⟩
  rcases List.mem_append.mp he with he | he
  · exact hnewer e he
  · exact ⟨slot', j, List.mem_singleton.mp he⟩

theorem step_waits {io : IndicatorIo} {nowUs i : ℕ} {sh : IndicatorShared} {t : IndicatorTask}
    (h : (t.step io nowUs sh).1.chirpRequest = some i) :
    sh.chirpRequest = some i ∧ t.pc ≠ .clearChirp ∧ ¬(t.pc = .takeChirp ∧ t.quiet = true) := by
  unfold IndicatorTask.step at h
  cases hpc : t.pc with
  | clearChirp =>
    rw [hpc] at h
    cases h
  | takeChirp =>
    rw [hpc] at h
    dsimp only at h
    split_ifs at h with hquiet
    exact ⟨h, by simp, fun hh => hquiet hh.2⟩
  | takeTest =>
    rw [hpc] at h
    dsimp only at h
    refine ⟨?_, by simp, by simp⟩
    split_ifs at h <;> exact h
  | copyChirp j =>
    rw [hpc] at h
    dsimp only at h
    refine ⟨?_, by simp, by simp⟩
    split at h <;> exact h
  | takePreview =>
    rw [hpc] at h
    dsimp only at h
    refine ⟨?_, by simp, by simp⟩
    split_ifs at h <;> exact h
  | _ =>
    rw [hpc] at h
    exact ⟨h, by simp, by simp⟩

theorem step_takes {io : IndicatorIo} {nowUs i : ℕ} {sh : IndicatorShared} {t : IndicatorTask}
    (h : (t.step io nowUs sh).2.pc = .copyChirp i) :
    t.pc = .takeChirp ∧ t.quiet = true ∧ sh.chirpRequest = some i := by
  unfold IndicatorTask.step at h
  cases hpc : t.pc with
  | takeChirp =>
    rw [hpc] at h
    dsimp only at h
    split_ifs at h with hquiet
    cases hwaits : sh.chirpRequest with
    | none =>
      rw [hwaits] at h
      cases h
    | some j =>
      rw [hwaits] at h
      obtain rfl : j = i := IndicatorPc.copyChirp.inj h
      exact ⟨rfl, hquiet, rfl⟩
  | sound wantFreq =>
    rw [hpc] at h
    dsimp only [IndicatorTask.sound] at h
    split_ifs at h
  | readEnabled =>
    rw [hpc] at h
    dsimp only at h
    split_ifs at h
  | takeTest =>
    rw [hpc] at h
    dsimp only at h
    split_ifs at h
  | copyChirp j =>
    rw [hpc] at h
    dsimp only at h
    split at h <;> cases h
  | takePreview =>
    rw [hpc] at h
    dsimp only at h
    split_ifs at h
  | _ =>
    rw [hpc] at h
    cases h

theorem next_waits {sh : IndicatorShared} {pc : CallerPc} (h : ∀ slot i, pc ≠ .storeChirp slot i) :
    (pc.next sh).1.chirpRequest = sh.chirpRequest := by
  cases pc with
  | storing rest =>
    cases rest with
    | nil => rfl
    | cons store rest => cases store <;> rfl
  | chirp slot =>
    unfold CallerPc.next
    dsimp only
    split <;> rfl
  | storeChirp slot i => exact absurd rfl (h slot i)
  | _ => rfl

theorem enter_waits (sh : IndicatorShared) (c : IndicatorCall) :
    (c.enter sh).1.chirpRequest = sh.chirpRequest := by
  cases c with
  | playRtttl rtttl =>
    unfold IndicatorCall.enter
    dsimp only
    split <;> rfl
  | _ => rfl

theorem foldl_toneIdx (index : ToneSlot → Option ℕ) (slots : List ToneSlot)
    (sh : IndicatorShared) :
    (slots.map fun slot => ConfigStore.toneIdx slot (index slot)).foldl ConfigStore.apply sh =
      { sh with
        toneIdx := fun slot => if slot ∈ slots then index slot else sh.toneIdx slot } := by
  induction slots generalizing sh with
  | nil => simp
  | cons slot slots ih =>
    rw [List.map_cons, List.foldl_cons, ih]
    unfold ConfigStore.apply
    congr 1
    funext other
    by_cases hother : other = slot
    · simp [hother]
    · simp [hother]

theorem mem_toneSlots (slot : ToneSlot) : slot ∈ toneSlots := by
  cases slot <;> simp [toneSlots]

theorem start_tones (cfg : IndicatorConfig) (nowUs : ℕ) :
    (start (τ := τ) cfg nowUs).shared.chirpRequest = none ∧
    (start (τ := τ) cfg nowUs).shared.tones = toneLibraryParse cfg.tonePatterns toneMaxTones ∧
    ∀ slot, (start (τ := τ) cfg nowUs).shared.toneIdx slot =
      toneLibraryFind (toneLibraryParse cfg.tonePatterns toneMaxTones) (cfg.toneName slot) := by
  unfold start indicatorUpdateConfig
  dsimp only
  rw [List.foldl_append, foldl_toneIdx]
  exact ⟨rfl, rfl, fun slot => if_pos (mem_toneSlots slot)⟩

def asking : CallerPc → Option (ToneSlot × ℕ)
  | .chirpStarted slot i => some (slot, i)
  | .chirpEnabled slot i => some (slot, i)
  | .storeChirp slot i => some (slot, i)
  | _ => none

def unconfigured : CallerPc → Bool
  | .storing _ => false
  | _ => true

def assigned (cfg : IndicatorConfig) (slot : ToneSlot) : Option ℕ :=
  toneLibraryFind (toneLibraryParse cfg.tonePatterns toneMaxTones) (cfg.toneName slot)

/-- The settings of the start are in force, and only their tones are asked for. -/
structure Assigned (cfg : IndicatorConfig) (s : Indicator τ) (es : List ChirpEvent) : Prop where
  tones : s.shared.tones = toneLibraryParse cfg.tonePatterns toneMaxTones
  toneIdx : s.shared.toneIdx = assigned cfg
  callers : ∀ u, unconfigured (s.caller u) = true ∧
    ∀ slot i, asking (s.caller u) = some (slot, i) → assigned cfg slot = some i
  events : ∀ slot i, .asked slot i ∈ es → assigned cfg slot = some i

variable {cfg : IndicatorConfig} {s : Indicator τ} {es : List ChirpEvent}

theorem asking_chirpAsked (slot : ToneSlot) (i : ℕ) :
    unconfigured (chirpAsked slot i) = true ∧ asking (chirpAsked slot i) = none := by
  unfold chirpAsked
  split_ifs
  · exact ⟨rfl, rfl⟩
  · exact ⟨rfl, rfl⟩

theorem next_assigned {sh : IndicatorShared} {pc : CallerPc} (hidx : sh.toneIdx = assigned cfg)
    (hpc : unconfigured pc = true)
    (h : ∀ slot i, asking pc = some (slot, i) → assigned cfg slot = some i) :
    (pc.next sh).1.tones = sh.tones ∧ (pc.next sh).1.toneIdx = sh.toneIdx ∧
      unconfigured (pc.next sh).2 = true ∧
      ∀ slot i, asking (pc.next sh).2 = some (slot, i) → assigned cfg slot = some i := by
  have hdone (slot : ToneSlot) (j : ℕ) : unconfigured (chirpAsked slot j) = true ∧
      ∀ slot' i, asking (chirpAsked slot j) = some (slot', i) → assigned cfg slot' = some i := by
    obtain ⟨hun, hask⟩ := asking_chirpAsked slot j
    exact ⟨hun, fun slot' i hi => by rw [hask] at hi; cases hi⟩
  unfold CallerPc.next
  cases pc with
  | storing rest => cases hpc
  | chirp slot =>
    dsimp only
    cases hslot : sh.toneIdx slot with
    | none => exact ⟨rfl, rfl, rfl, fun slot' i hi => by cases hi⟩
    | some j =>
      refine ⟨rfl, rfl, rfl, fun slot' i hi => ?_⟩
      obtain ⟨rfl, rfl⟩ := Prod.mk.inj (Option.some.inj hi)
      rw [← hidx, hslot]
  | chirpStarted slot j =>
    refine ⟨rfl, rfl, ?_⟩
    dsimp only
    split_ifs
    · exact ⟨rfl, h⟩
    · exact hdone slot j
  | chirpEnabled slot j =>
    refine ⟨rfl, rfl, ?_⟩
    dsimp only
    split_ifs
    · exact ⟨rfl, h⟩
    · exact hdone slot j
  | storeChirp slot j => exact ⟨rfl, rfl, hdone slot j⟩
  | _ =>
    refine ⟨rfl, rfl, ?_⟩
    dsimp only
    try split_ifs
    all_goals exact ⟨rfl, fun slot i hi => by cases hi⟩

theorem step_settings (io : IndicatorIo) (nowUs : ℕ) (sh : IndicatorShared) (t : IndicatorTask) :
    (t.step io nowUs sh).1.tones = sh.tones ∧ (t.step io nowUs sh).1.toneIdx = sh.toneIdx := by
  unfold IndicatorTask.step
  cases t.pc with
  | takeTest =>
    dsimp only
    split_ifs <;> exact ⟨rfl, rfl⟩
  | takeChirp =>
    dsimp only
    split_ifs <;> exact ⟨rfl, rfl⟩
  | copyChirp i =>
    dsimp only
    split <;> exact ⟨rfl, rfl⟩
  | takePreview =>
    dsimp only
    split_ifs <;> exact ⟨rfl, rfl⟩
  | _ => exact ⟨rfl, rfl⟩

/-- Not a call to `indicator_update_config`. -/
def KeepsSettings : IndicatorAction τ → Prop
  | .call _ (.updateConfig _) => False
  | _ => True

theorem enter_assigned {sh : IndicatorShared} {c : IndicatorCall}
    (hc : ∀ cfg', c ≠ .updateConfig cfg') :
    (c.enter sh).1.tones = sh.tones ∧ (c.enter sh).1.toneIdx = sh.toneIdx ∧
      unconfigured (c.enter sh).2 = true ∧ asking (c.enter sh).2 = none := by
  cases c with
  | updateConfig cfg' => exact absurd rfl (hc cfg')
  | playRtttl rtttl =>
    unfold IndicatorCall.enter
    dsimp only
    split
    · exact ⟨rfl, rfl, rfl, rfl⟩
    · dsimp only
      split_ifs <;> exact ⟨rfl, rfl, rfl, rfl⟩
  | _ => exact ⟨rfl, rfl, rfl, rfl⟩

theorem asked_assigned (h : s.Assigned cfg es) (a : IndicatorAction τ) (slot : ToneSlot) (i : ℕ)
    (hasked : .asked slot i ∈ s.chirpEvents a) : assigned cfg slot = some i := by
  cases a with
  | go u =>
    unfold chirpEvents at hasked
    dsimp only at hasked
    split at hasked
    · rename_i slot' j hpc
      obtain ⟨rfl, rfl⟩ := ChirpEvent.asked.inj (List.mem_singleton.mp hasked)
      exact (h.callers u).2 _ _ (by rw [hpc]; rfl)
    · cases hasked
  | pass io =>
    unfold chirpEvents at hasked
    dsimp only at hasked
    split at hasked
    · cases List.mem_singleton.mp hasked
    · split_ifs at hasked
      · simp at hasked
      · cases hasked
    · cases hasked
  | _ => cases hasked

variable [DecidableEq τ]

theorem go_chirps (h : s.ChirpInv es) (u : τ) :
    (s.step (.go u)).ChirpInv (es ++ s.chirpEvents (.go u)) := by
  by_cases hstore : ∃ slot i, s.caller u = .storeChirp slot i
  · obtain ⟨slot, i, hstore⟩ := hstore
    have hevents : s.chirpEvents (.go u) = [.asked slot i] := by
      unfold chirpEvents
      dsimp only
      rw [hstore]
    have hnext : (s.step (.go u)).shared.chirpRequest = some i := by
      show ((s.caller u).next s.shared).1.chirpRequest = some i
      rw [hstore]
      rfl
    rw [hevents]
    refine ⟨fun j hj => ⟨slot, es, ?_⟩, fun j hj => ?_⟩
    · rw [hnext] at hj
      obtain rfl := Option.some.inj hj
      rfl
    · obtain ⟨slot', htaken⟩ := h.taken j hj
      exact ⟨slot', htaken.asked slot i⟩
  · push Not at hstore
    have hevents : s.chirpEvents (.go u) = [] := by
      unfold chirpEvents
      dsimp only
      split
      · exact absurd ‹_› (hstore _ _)
      · rfl
    have hnext : (s.step (.go u)).shared.chirpRequest = s.shared.chirpRequest :=
      next_waits hstore
    rw [hevents, List.append_nil]
    exact ⟨fun i hi => h.waits i (hnext ▸ hi), h.taken⟩

theorem pass_chirps (h : s.ChirpInv es) (io : IndicatorIo) :
    (s.step (.pass io)).ChirpInv (es ++ s.chirpEvents (.pass io)) := by
  constructor
  · intro i hi
    obtain ⟨hwaits, hclear, htake⟩ := step_waits hi
    have hevents : s.chirpEvents (.pass io) = [] := by
      unfold chirpEvents
      dsimp only
      split
      · exact absurd ‹_› hclear
      · exact if_neg fun hquiet => htake ⟨‹_›, hquiet⟩
      · rfl
    rw [hevents, List.append_nil]
    exact h.waits i hwaits
  · intro i hi
    obtain ⟨hpc, hquiet, hwaits⟩ := step_takes hi
    have hevents : s.chirpEvents (.pass io) = [.taken i] := by
      unfold chirpEvents
      dsimp only
      rw [hpc]
      dsimp only
      rw [if_pos hquiet, hwaits]
      rfl
    obtain ⟨slot, hasked⟩ := h.waits i hwaits
    rw [hevents]
    exact ⟨slot, es, [], rfl, hasked, fun e he => by cases he⟩

theorem step_chirps (h : s.ChirpInv es) (a : IndicatorAction τ) :
    (s.step a).ChirpInv (es ++ s.chirpEvents a) := by
  cases a with
  | go u => exact go_chirps h u
  | pass io => exact pass_chirps h io
  | elapse us =>
    rw [chirpEvents, List.append_nil]
    exact ⟨h.waits, h.taken⟩
  | started =>
    rw [chirpEvents, List.append_nil]
    exact ⟨h.waits, h.taken⟩
  | call u c =>
    rw [chirpEvents, List.append_nil]
    unfold step
    dsimp only
    split
    · exact ⟨fun i hi => h.waits i (enter_waits s.shared c ▸ hi), h.taken⟩
    · exact h

theorem run_chirps (cfg : IndicatorConfig) (nowUs : ℕ) (as : List (IndicatorAction τ)) :
    (run step (start cfg nowUs) as).ChirpInv
      (journal chirpEvents (history step (start cfg nowUs) as)) :=
  run_induction step (I := fun s past => s.ChirpInv (journal chirpEvents past))
    (P := fun _ _ => True) (start cfg nowUs)
    ⟨fun i hi => absurd hi (by simp [start_tones]), fun i hi => by cases hi⟩
    (fun s past a h _ => step_chirps h a) as fun _ _ => trivial

/-- A chirp that is about to begin was asked for after the last pass in an
override or an alarm, and since then no other was asked for before it was
taken. -/
theorem chirp_not_queued (cfg : IndicatorConfig) (nowUs : ℕ) (as : List (IndicatorAction τ))
    (i : ℕ) (hpc : (run step (start cfg nowUs) as).task.pc = .copyChirp i) :
    (run step (start cfg nowUs) as).task.suppressChirp = false ∧
      (run step (start cfg nowUs) as).task.testing = false ∧
      (run step (start cfg nowUs) as).task.player.playing = false ∧
      ∃ slot, LastTaken slot i (journal chirpEvents (history step (start cfg nowUs) as)) := by
  have hplace := (task_inv cfg nowUs as).place
  rw [hpc] at hplace
  obtain ⟨hsuppress, htesting, hplaying⟩ := IndicatorTask.quiet_iff.mp hplace.2
  exact ⟨hsuppress, htesting, hplaying, (run_chirps cfg nowUs as).taken i hpc⟩

theorem Assigned.setCaller (h : s.Assigned cfg es) (u : τ) {r : IndicatorShared × CallerPc}
    (htones : r.1.tones = s.shared.tones) (hidx : r.1.toneIdx = s.shared.toneIdx)
    (hun : unconfigured r.2 = true)
    (hask : ∀ slot i, asking r.2 = some (slot, i) → assigned cfg slot = some i) :
    (s.setCaller u r).Assigned cfg es := by
  refine ⟨htones.trans h.tones, hidx.trans h.toneIdx, fun v => ?_, h.events⟩
  by_cases hv : v = u
  · subst hv
    simpa [Indicator.setCaller] using ⟨hun, hask⟩
  · simpa [Indicator.setCaller, Function.update_of_ne hv] using h.callers v

theorem step_assigned (h : s.Assigned cfg es) (a : IndicatorAction τ) (ha : KeepsSettings a) :
    (s.step a).Assigned cfg (es ++ s.chirpEvents a) := by
  have hevents : ∀ slot i, .asked slot i ∈ es ++ s.chirpEvents a → assigned cfg slot = some i := by
    intro slot i hmem
    rcases List.mem_append.mp hmem with hmem | hmem
    · exact h.events slot i hmem
    · exact asked_assigned h a slot i hmem
  cases a with
  | elapse us => exact ⟨h.tones, h.toneIdx, h.callers, hevents⟩
  | started => exact ⟨h.tones, h.toneIdx, h.callers, hevents⟩
  | pass io =>
    obtain ⟨htones, hidx⟩ := step_settings io s.nowUs s.shared s.task
    exact ⟨htones.trans h.tones, hidx.trans h.toneIdx, h.callers, hevents⟩
  | go u =>
    obtain ⟨htones, hidx, hun, hask⟩ := next_assigned h.toneIdx (h.callers u).1 (h.callers u).2
    have hnext := h.setCaller u htones hidx hun hask
    exact ⟨hnext.tones, hnext.toneIdx, hnext.callers, hevents⟩
  | call u c =>
    have hc : ∀ cfg', c ≠ .updateConfig cfg' := by
      rintro cfg' rfl
      exact ha
    have hentered : (c.enter s.shared).1.tones = s.shared.tones ∧ _ := enter_assigned hc
    obtain ⟨htones, hidx, hun, hask⟩ := hentered
    have hnext := h.setCaller u htones hidx hun fun slot i hi => by rw [hask] at hi; cases hi
    unfold step
    dsimp only
    split
    · exact ⟨hnext.tones, hnext.toneIdx, hnext.callers, hevents⟩
    · exact ⟨h.tones, h.toneIdx, h.callers, hevents⟩

/-- While the settings stay those of the start, a chirp that is about to begin
is the first tone of the library with the name that is set for what was asked
for last. -/
theorem chirp_plays_assigned (cfg : IndicatorConfig) (nowUs : ℕ) (as : List (IndicatorAction τ))
    (hkeeps : ∀ a ∈ as, KeepsSettings a) (i : ℕ)
    (hpc : (run step (start cfg nowUs) as).task.pc = .copyChirp i) :
    ∃ slot tone, LastTaken slot i (journal chirpEvents (history step (start cfg nowUs) as)) ∧
      (run step (start cfg nowUs) as).shared.tones[i]? = some tone ∧
      tone.name = cfg.toneName slot ∧
      ∀ j < i, ∀ other, (run step (start cfg nowUs) as).shared.tones[j]? = some other →
        other.name ≠ tone.name := by
  obtain ⟨slot, htaken⟩ := (run_chirps cfg nowUs as).taken i hpc
  have hassigned := run_induction step
    (I := fun s past => s.Assigned cfg (journal chirpEvents past)) (P := fun _ a => KeepsSettings a)
    (start cfg nowUs)
    ⟨(start_tones cfg nowUs).2.1, funext (start_tones cfg nowUs).2.2,
      fun u => ⟨rfl, fun slot i hi => by cases hi⟩, fun slot i hi => by cases hi⟩
    (fun s past a h ha => step_assigned h a ha) as
    fun e he => hkeeps _ (input_of_history step _ as e he)
  have hasked : .asked slot i ∈ journal chirpEvents (history step (start cfg nowUs) as) := by
    obtain ⟨older, newer, hes, ⟨before, rfl⟩, -⟩ := htaken
    rw [hes]
    simp
  obtain ⟨tone, htone, hname, hfirst⟩ :=
    toneLibraryFind_eq_some_iff.mp (hassigned.events slot i hasked)
  rw [← hassigned.tones] at htone hfirst
  exact ⟨slot, tone, htaken, htone, hname,
    fun j hj other hother => hname ▸ hfirst j hj other hother⟩

def twoTones : IndicatorConfig :=
  { bilgeAlarm with
    tonePatterns := some (.array
      [.object [(ascii "name", .string (ascii "low")), (ascii "rtttl", .string (ascii "x::8c"))],
        .object
          [(ascii "name", .string (ascii "high")), (ascii "rtttl", .string (ascii "x::8c6"))]])
    toneName := fun slot => if slot = .relayOn ⟨0, by decide⟩ then ascii "high" else ascii "low" }

/-- A chirp for input 1, then one for relay 1 before the task takes it. -/
def twoChirps : List (IndicatorAction Bool) :=
  [.started, .call true (.play (.inputOn ⟨0, by decide⟩)),
    .call false (.play (.relayOn ⟨0, by decide⟩))] ++
    List.replicate 4 (.go true) ++ List.replicate 4 (.go false) ++
    List.replicate 10 (.pass bilgeIo)

theorem chirp_not_queued_twoChirps :
    (run step (start twoTones 0) twoChirps).task.pc = .copyChirp 1 ∧
    ∃ slot, LastTaken slot 1 (journal chirpEvents (history step (start twoTones 0) twoChirps)) := by
  have hpc : (run step (start twoTones 0) twoChirps).task.pc = .copyChirp 1 := by decide +kernel
  exact ⟨hpc, (chirp_not_queued twoTones 0 twoChirps 1 hpc).2.2.2⟩

theorem chirp_plays_assigned_twoChirps :
    (∀ a ∈ twoChirps, KeepsSettings a) ∧
    (run step (start twoTones 0) twoChirps).task.pc = .copyChirp 1 ∧
    ∃ slot tone, (run step (start twoTones 0) twoChirps).shared.tones[1]? = some tone ∧
      tone.name = twoTones.toneName slot := by
  have hkeeps : ∀ a ∈ twoChirps, KeepsSettings a := by
    intro a ha
    simp only [twoChirps, List.mem_append, List.mem_replicate, List.mem_cons,
      List.not_mem_nil, or_false] at ha
    rcases ha with (((rfl | rfl | rfl) | ⟨-, rfl⟩) | ⟨-, rfl⟩) | ⟨-, rfl⟩ <;> trivial
  have hpc : (run step (start twoTones 0) twoChirps).task.pc = .copyChirp 1 := by decide +kernel
  obtain ⟨slot, tone, -, htone, hname, -⟩ := chirp_plays_assigned twoTones 0 twoChirps hkeeps 1 hpc
  exact ⟨hkeeps, hpc, slot, tone, htone, hname⟩

end Indicator

end RelayBoard
