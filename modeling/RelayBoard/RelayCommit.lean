import Mathlib.Tactic.Simps.Basic
import RelayBoard.RelayMachine

/-!
# What one expander write can do

Everything relay control does to the coils goes through `commitLocked`. Its
outcome is a function of the faults the bus has in store, and its effect on
the static struct is one of two: the target is taken over, or only the fault
flag is set. The clock and the store are left alone.
-/

set_option autoImplicit false

namespace RelayBoard
open BitVec

/-- How a write of the output register with its read-back ends. -/
def writeResult : List Access → EspResult Unit
  | .lost e :: _ => .error e
  | .taken e :: _ => .error e
  | .done :: .lost e :: _ => .error e
  | .done :: .taken e :: _ => .error e
  | _ => .ok ()

/-- The faults left afterwards: no read-back follows a failed write. -/
def writeRest : List Access → List Access
  | .done :: _ :: rest => rest
  | _ :: rest => rest
  | [] => []

def writeReaches : List Access → Bool
  | .lost _ :: _ => false
  | _ => true

def Env.written (v : Mask) (env : Env) : Env :=
  { env with
    chip := if writeReaches env.faults then env.chip.set .output v else env.chip
    faults := writeRest env.faults
    writes := env.writes ++ [(.output, v)] }

theorem writeOutputs_eq (v : Mask) (env : Env) :
    tca9554WriteOutputs v env = (writeResult env.faults, env.written v) := by
  obtain ⟨time, chip, faults, stored, saveErr, health, writes, saves⟩ := env
  rcases faults with _ | ⟨a, _ | ⟨b, rest⟩⟩
  · simp [tca9554WriteOutputs, writeReg, readReg, nextAccess, Env.written, writeResult,
      writeRest, writeReaches, Chip.set, Chip.get]
  · cases a <;> simp [tca9554WriteOutputs, writeReg, readReg, nextAccess, Env.written,
      writeResult, writeRest, writeReaches, Chip.set, Chip.get]
  · cases a <;> cases b <;> simp [tca9554WriteOutputs, writeReg, readReg, nextAccess,
      Env.written, writeResult, writeRest, writeReaches, Chip.set, Chip.get]

def commitResult (faults : List Access) : EspResult Unit :=
  match writeResult faults with
  | .ok _ => .ok ()
  | .error _ => writeResult (writeRest faults)

def Env.attempts (v : Mask) (env : Env) : Env :=
  match writeResult env.faults with
  | .ok _ => env.written v
  | .error _ => (env.written v).written v

/-- A failed attempt that may have reached the chip: the retry follows the
first, and the second fails the commit, which `ok` then has to allow. -/
def failedAttempt (ok : Bool → Bool → Bool) (first : Option Bool) (reached : Bool)
    (rest : Option Bool → Bool) : Bool :=
  match first with
  | none => rest (some reached)
  | some before => ok before reached && rest none

/-- Of every commit on these accesses that fails in both attempts, `ok` holds,
given which of the two reached the chip. -/
def failuresMeet (ok : Bool → Bool → Bool) : List Access → Option Bool → Bool
  | .lost _ :: rest, first => failedAttempt ok first false (failuresMeet ok rest)
  | .taken _ :: rest, first => failedAttempt ok first true (failuresMeet ok rest)
  | .done :: .done :: rest, _ => failuresMeet ok rest none
  | .done :: _ :: rest, first => failedAttempt ok first true (failuresMeet ok rest)
  | _, _ => true

/-- No commit leaves a value on the chip which it reports as not written. -/
def noStray (faults : List Access) : Bool :=
  failuresMeet (fun before retry => !before && !retry) faults none

/-- Every commit goes through, at once or by its retry. -/
def noFailure (faults : List Access) : Bool := failuresMeet (fun _ _ => false) faults none

def commitRest (faults : List Access) : List Access :=
  match writeResult faults with
  | .ok _ => writeRest faults
  | .error _ => writeRest (writeRest faults)

section Failures

variable (ok : Bool → Bool → Bool) (faults : List Access)

theorem failuresMeet_attempt (first : Option Bool) : failuresMeet ok faults first =
    match writeResult faults with
    | .ok _ => failuresMeet ok (writeRest faults) none
    | .error _ =>
      failedAttempt ok first (writeReaches faults) (failuresMeet ok (writeRest faults)) := by
  rcases faults with _ | ⟨a, _ | ⟨b, rest⟩⟩
  · rfl
  · cases a <;> rfl
  · cases a
    · cases b <;> rfl
    · rfl
    · rfl

theorem failuresMeet_commit (h : failuresMeet ok faults none = true) :
    failuresMeet ok (commitRest faults) none = true ∧ (∀ e, commitResult faults = .error e →
      ok (writeReaches faults) (writeReaches (writeRest faults)) = true) := by
  rw [failuresMeet_attempt] at h
  unfold commitRest commitResult
  rcases hfirst : writeResult faults with e | _ <;> rw [hfirst] at h
  · change failuresMeet ok (writeRest faults) (some (writeReaches faults)) = true at h
    rw [failuresMeet_attempt] at h
    dsimp only
    rcases hsecond : writeResult (writeRest faults) with e' | _ <;> rw [hsecond] at h
    · simp only [failedAttempt, Bool.and_eq_true] at h
      exact ⟨h.2, fun _ _ => h.1⟩
    · exact ⟨h, fun e he => by cases he⟩
  · exact ⟨h, fun e he => by cases he⟩

theorem noStray_commit (h : noStray faults = true) : noStray (commitRest faults) = true ∧
    (∀ e, commitResult faults = .error e →
      writeReaches faults = false ∧ writeReaches (writeRest faults) = false) := by
  obtain ⟨hrest, hok⟩ := failuresMeet_commit _ faults h
  exact ⟨hrest, fun e he => by simpa using hok e he⟩

theorem noFailure_commit (h : noFailure faults = true) :
    noFailure (commitRest faults) = true ∧ commitResult faults = .ok () := by
  obtain ⟨hrest, hok⟩ := failuresMeet_commit _ faults h
  refine ⟨hrest, ?_⟩
  rcases hr : commitResult faults with e | _
  · cases hok e hr
  · rfl

end Failures

/-- Every failing write is without effect: each access that fails is a lost
write, and no read-back fails. -/
def lostOnly : List Access → Bool
  | [] => true
  | [.done] => true
  | .lost _ :: rest => lostOnly rest
  | .done :: .done :: rest => lostOnly rest
  | _ => false

theorem lostOnly_noStray (faults : List Access) (h : lostOnly faults = true) :
    noStray faults = true := by
  -- A lost write leaves the count of attempts open, so both cases go together.
  suffices hboth : ∀ first, first ≠ some true →
      failuresMeet (fun before retry => !before && !retry) faults first = true from
    hboth none (by simp)
  induction faults using lostOnly.induct with
  | case1 => exact fun _ _ => rfl
  | case2 => exact fun _ _ => rfl
  | case3 e rest ih =>
    intro first hfirst
    rcases first with _ | _ | _
    · exact ih h (some false) (by simp)
    · exact ih h none (by simp)
    · exact absurd rfl hfirst
  | case4 rest ih => exact fun _ _ => ih h none (by simp)
  | case5 faults h₁ h₂ h₃ h₄ =>
    unfold lostOnly at h
    split at h <;> simp_all

def Env.showing (health : HealthKey → Health) (env : Env) : Env := { env with health := health }

/-- The static struct after a write that went through. -/
@[simps]
def St.commit (target : Mask) (fault : Bool) (s : St) : St :=
  { s with
    i2cFault := fault
    savePending := s.savePending || (target ^^^ s.mask) &&& holdMask s.cfg ≠ 0#8
    mask := target }

@[simps]
def St.fault (s : St) : St := { s with i2cFault := true }

def Env.Reliable (env : Env) : Prop := ∀ a ∈ env.faults, a = .done

/-- The clock and the store are as they were, and a reliable expander is one
still. -/
structure SameStore (env env' : Env) : Prop where
  time : env'.time = env.time
  stored : env'.stored = env.stored
  saveErr : env'.saveErr = env.saveErr
  saves : env'.saves = env.saves
  reliable : env.Reliable → env'.Reliable

theorem SameStore.refl (env : Env) : SameStore env env := ⟨rfl, rfl, rfl, rfl, id⟩

theorem SameStore.trans {a b c : Env} (h : SameStore a b) (k : SameStore b c) : SameStore a c :=
  ⟨k.time.trans h.time, k.stored.trans h.stored, k.saveErr.trans h.saveErr,
    k.saves.trans h.saves, fun hf => k.reliable (h.reliable hf)⟩

theorem SameStore.nowMs {a b : Env} (h : SameStore a b) : nowMs b = nowMs a := by
  rw [RelayBoard.nowMs, RelayBoard.nowMs, h.time]

theorem healthReport_same (key : HealthKey) (h : Health) (env : Env) :
    SameStore env (healthReport key h env) := ⟨rfl, rfl, rfl, rfl, id⟩

theorem mem_writeRest {a : Access} {faults : List Access} (h : a ∈ writeRest faults) :
    a ∈ faults := by
  unfold writeRest at h
  split at h
  · exact List.mem_cons_of_mem _ (List.mem_cons_of_mem _ h)
  · exact List.mem_cons_of_mem _ h
  · exact h

theorem written_same (v : Mask) (env : Env) : SameStore env (env.written v) :=
  ⟨rfl, rfl, rfl, rfl, fun h a ha => h a (mem_writeRest ha)⟩

theorem attempts_same (v : Mask) (env : Env) : SameStore env (env.attempts v) := by
  unfold Env.attempts
  split
  · exact written_same v env
  · exact (written_same v env).trans (written_same v _)

theorem attempts_writes (v : Mask) (env : Env) (e : Reg × Mask)
    (he : e ∈ (env.attempts v).writes) : e ∈ env.writes ∨ e = (.output, v) := by
  unfold Env.attempts at he
  split at he <;> simp only [Env.written, List.mem_append, List.mem_singleton] at he <;> tauto

theorem attempts_written (v : Mask) (env : Env) :
    env.writes ⊆ (env.attempts v).writes ∧ (.output, v) ∈ (env.attempts v).writes := by
  unfold Env.attempts
  split
  · exact ⟨List.subset_append_left _ _, List.mem_append_right _ (by simp)⟩
  · refine ⟨fun e he => ?_, List.mem_append_right _ (by simp)⟩
    exact List.mem_append_left _ (List.mem_append_left _ he)

theorem written_config (v : Mask) (env : Env) : (env.written v).chip.config = env.chip.config := by
  simp only [Env.written, Chip.set]
  split_ifs <;> rfl

theorem attempts_config (v : Mask) (env : Env) :
    (env.attempts v).chip.config = env.chip.config := by
  unfold Env.attempts
  split
  · exact written_config v env
  · rw [written_config, written_config]

theorem writeResult_reliable (faults : List Access) (h : ∀ a ∈ faults, a = .done) :
    writeResult faults = .ok () := by
  unfold writeResult
  split
  · cases h _ (List.mem_cons_self ..)
  · cases h _ (List.mem_cons_self ..)
  · cases h _ (List.mem_cons_of_mem _ (List.mem_cons_self ..))
  · cases h _ (List.mem_cons_of_mem _ (List.mem_cons_self ..))
  · rfl

theorem commitResult_reliable (faults : List Access) (h : ∀ a ∈ faults, a = .done) :
    commitResult faults = .ok () := by
  rw [commitResult, writeResult_reliable faults h]

theorem writeResult_reaches (faults : List Access) (h : writeResult faults = .ok ()) :
    writeReaches faults = true := by
  unfold writeReaches
  split
  · cases h
  · rfl

theorem written_output (v : Mask) (env : Env) (h : writeResult env.faults = .ok ()) :
    (env.written v).chip.output = v := by
  simp [Env.written, writeResult_reaches _ h, Chip.set]

theorem attempts_output (v : Mask) (env : Env) (h : commitResult env.faults = .ok ()) :
    (env.attempts v).chip.output = v := by
  unfold commitResult at h
  unfold Env.attempts
  split at h
  · rename_i hw
    exact written_output v env hw
  · exact written_output v _ h

/-- The three ways a commit can go: there is nothing to write, the write or
its retry goes through, or both fail. -/
theorem commitLocked_cases (target : Mask) (w : World) :
    (target = w.s.mask ∧ commitLocked target w = (.ok (), w)) ∨
    (target ≠ w.s.mask ∧ commitResult w.env.faults = .ok () ∧ ∃ health,
      commitLocked target w = (.ok (), ⟨w.s.commit target false,
        (w.env.attempts (toReg target)).showing health⟩)) ∨
    (target ≠ w.s.mask ∧ ∃ e health, commitResult w.env.faults = .error e ∧
      commitLocked target w = (.error e, ⟨w.s.fault,
        (w.env.attempts (toReg target)).showing health⟩)) := by
  by_cases ht : target = w.s.mask
  · exact Or.inl ⟨ht, by rw [commitLocked, if_pos ht]⟩
  · right
    rw [commitLocked, if_neg ht, commitResult, Env.attempts]
    simp only [writeOutputs_eq]
    rcases hfirst : writeResult w.env.faults with e | _
    · have hfaults : (w.env.written (toReg target)).faults = writeRest w.env.faults := rfl
      simp only [hfaults]
      rcases hsecond : writeResult (writeRest w.env.faults) with e' | _
      · exact Or.inr ⟨ht, e', _, rfl, rfl⟩
      · refine Or.inl ⟨ht, rfl, ?_⟩
        cases hi : w.s.i2cFault
        · exact ⟨_, rfl⟩
        · exact ⟨_, rfl⟩
    · refine Or.inl ⟨ht, rfl, ?_⟩
      cases hi : w.s.i2cFault
      · exact ⟨_, rfl⟩
      · exact ⟨_, rfl⟩

theorem commitLocked_isOk (target : Mask) (w : World) :
    (commitLocked target w).1.isOk = true ↔
      target = w.s.mask ∨ commitResult w.env.faults = .ok () := by
  rcases commitLocked_cases target w with ⟨ht, h⟩ | ⟨_, hr, health, h⟩ | ⟨ht, e, health, hr, h⟩
  · rw [h]
    exact iff_of_true rfl (Or.inl ht)
  · rw [h]
    exact iff_of_true rfl (Or.inr hr)
  · simp [h, hr, ht, Except.isOk, Except.toBool]

theorem commit_same (s : St) (fault : Bool) :
    s.commit s.mask fault = { s with i2cFault := fault } := by
  simp [St.commit]

/-- What a commit leaves behind, as far as the static struct is concerned:
the target is taken over, or nothing but the fault flag changes; the second
only on an expander that is not reliable. -/
theorem commitLocked_spec (target : Mask) (w : World) : ∃ env, SameStore w.env env ∧
    ((∃ fault, commitLocked target w = (.ok (), ⟨w.s.commit target fault, env⟩)) ∨
      (∃ e, ¬w.env.Reliable ∧ commitLocked target w = (.error e, ⟨w.s.fault, env⟩))) := by
  rcases commitLocked_cases target w with ⟨ht, h⟩ | ⟨_, _, health, h⟩ | ⟨_, e, health, hr, h⟩
  · refine ⟨w.env, .refl _, Or.inl ⟨w.s.i2cFault, ?_⟩⟩
    rw [h, ht, commit_same]
  · have hs := attempts_same (toReg target) w.env
    exact ⟨(w.env.attempts (toReg target)).showing health,
      ⟨hs.time, hs.stored, hs.saveErr, hs.saves, hs.reliable⟩, Or.inl ⟨false, h⟩⟩
  · have hs := attempts_same (toReg target) w.env
    refine ⟨(w.env.attempts (toReg target)).showing health,
      ⟨hs.time, hs.stored, hs.saveErr, hs.saves, hs.reliable⟩, Or.inr ⟨e, ?_, h⟩⟩
    intro hf
    rw [commitResult_reliable _ hf] at hr
    cases hr

/-- The branches of a command that write do the rest of their work after the
commit, or none of it. -/
theorem coilOff_spec (i : Channel) (w : World) : ∃ env, SameStore w.env env ∧
    ((∃ fault, coilOff i w = (.ok (), trackMaxOnLocked w.s.mask 0#8
        ⟨{ w.s.commit (w.s.mask &&& ~~~single i) fault with
            pulsing := w.s.pulsing &&& ~~~single i
            pendingOn := w.s.pendingOn &&& ~~~single i }, env⟩)) ∨
      (∃ e, ¬w.env.Reliable ∧ coilOff i w = (.error e,
        ⟨{ w.s.fault with pendingOn := w.s.pendingOn &&& ~~~single i }, env⟩))) := by
  obtain ⟨env, hsame, ⟨fault, hc⟩ | ⟨e, hr, hc⟩⟩ :=
    commitLocked_spec (w.s.mask &&& ~~~single i)
      { w with s.pendingOn := w.s.pendingOn &&& ~~~single i }
  · exact ⟨env, hsame, Or.inl ⟨fault, by simp only [coilOff, hc]; rfl⟩⟩
  · exact ⟨env, hsame, Or.inr ⟨e, hr, by simp only [coilOff, hc]; rfl⟩⟩

theorem deferOn_spec (i : Channel) (partnerBit : Mask) (src : RelaySource) (w : World) :
    ∃ env, SameStore w.env env ∧
    ((∃ fault v, v = trackMaxOnLocked w.s.mask 0#8
          ⟨{ w.s.commit (w.s.mask &&& ~~~partnerBit) fault with
              pulsing := w.s.pulsing &&& ~~~partnerBit
              pendingOn := w.s.pendingOn &&& ~~~partnerBit }, env⟩ ∧
        deferOn i partnerBit src w = (.ok (), { v with s := { v.s with
          pendingOn := v.s.pendingOn ||| single i
          pendingOnEnd :=
            Function.update v.s.pendingOnEnd i (nowMs v.env + v.s.cfg.interlockDeadMs)
          pendingOnSrc := Function.update v.s.pendingOnSrc i src } })) ∨
      (∃ e, ¬w.env.Reliable ∧ deferOn i partnerBit src w = (.error e, ⟨w.s.fault, env⟩))) := by
  obtain ⟨env, hsame, ⟨fault, hc⟩ | ⟨e, hr, hc⟩⟩ :=
    commitLocked_spec (w.s.mask &&& ~~~partnerBit) w
  · exact ⟨env, hsame, Or.inl ⟨fault, _, rfl, by simp only [deferOn, hc]; rfl⟩⟩
  · exact ⟨env, hsame, Or.inr ⟨e, hr, by simp only [deferOn, hc]⟩⟩

theorem directOn_spec (i : Channel) (partnerBit : Mask) (w : World) :
    ∃ env, SameStore w.env env ∧
    ((∃ fault s v, s = (if isMomentary w.s.cfg i then
            startPulse (nowMs w.env) i (w.s.commit (w.s.mask ||| single i) fault)
          else w.s.commit (w.s.mask ||| single i) fault) ∧
        v = trackMaxOnLocked w.s.mask (single i) ⟨s, env⟩ ∧
        directOn i partnerBit w = (.ok (), if partnerBit ≠ 0#8 then
          { v with s := { v.s with pendingOn := v.s.pendingOn &&& ~~~partnerBit } } else v)) ∨
      (∃ e, ¬w.env.Reliable ∧ directOn i partnerBit w = (.error e, ⟨w.s.fault, env⟩))) := by
  obtain ⟨env, hsame, ⟨fault, hc⟩ | ⟨e, hr, hc⟩⟩ :=
    commitLocked_spec (w.s.mask ||| single i) w
  · refine ⟨env, hsame, Or.inl ⟨fault, _, _, rfl, rfl, ?_⟩⟩
    have hm : isMomentary (w.s.commit (w.s.mask ||| single i) fault).cfg i =
        isMomentary w.s.cfg i := rfl
    simp only [directOn, hc, hsame.nowMs, hm]
    cases isMomentary w.s.cfg i
    · rfl
    · rfl
  · exact ⟨env, hsame, Or.inr ⟨e, hr, by simp only [directOn, hc]⟩⟩

/-- The two parts of a tick that switch off what has run out, in which nothing
may have. -/
theorem endPulses_spec (w : World) : ∃ (ended : Mask) (env : Env),
    (∀ i, ended.has i = (w.s.pulsing.has i && deadlinePassed (nowMs w.env) (w.s.pulseEnd i))) ∧
    SameStore w.env env ∧
    ((∃ fault, endPulses w = ⟨{ w.s.commit (w.s.mask &&& ~~~ended) fault with
        pulsing := w.s.pulsing &&& ~~~ended }, env⟩) ∨
      (¬w.env.Reliable ∧ endPulses w = ⟨w.s.fault, env⟩)) := by
  unfold endPulses
  extract_lets now ended
  by_cases he : ended = 0#8
  · refine ⟨ended, w.env, fun i => has_collect _ i, .refl _, Or.inl ⟨w.s.i2cFault, ?_⟩⟩
    rw [if_neg (not_not_intro he), he, BitVec.not_zero, BitVec.and_allOnes, BitVec.and_allOnes,
      commit_same]
  · rw [if_pos he]
    obtain ⟨env, hsame, ⟨fault, hc⟩ | ⟨e, hr, hc⟩⟩ :=
      commitLocked_spec (w.s.mask &&& ~~~ended) w <;> rw [hc]
    · exact ⟨ended, env, fun i => has_collect _ i, hsame, Or.inl ⟨fault, rfl⟩⟩
    · exact ⟨ended, env, fun i => has_collect _ i, hsame, Or.inr ⟨hr, rfl⟩⟩

theorem expireMaxOn_spec (w : World) : ∃ (expired : Mask) (env : Env),
    (∀ i, expired.has i = (w.s.limited.has i && deadlinePassed (nowMs w.env) (w.s.maxOnEnd i))) ∧
    SameStore w.env env ∧
    ((∃ fault, expireMaxOn w = ⟨{ w.s.commit (w.s.mask &&& ~~~expired) fault with
        limited := w.s.limited &&& ~~~expired }, env⟩) ∨
      (¬w.env.Reliable ∧ expireMaxOn w = ⟨w.s.fault, env⟩)) := by
  unfold expireMaxOn
  extract_lets now expired
  by_cases he : expired = 0#8
  · refine ⟨expired, w.env, fun i => has_collect _ i, .refl _, Or.inl ⟨w.s.i2cFault, ?_⟩⟩
    rw [if_neg (not_not_intro he), he, BitVec.not_zero, BitVec.and_allOnes, BitVec.and_allOnes,
      commit_same]
  · rw [if_pos he]
    obtain ⟨env, hsame, ⟨fault, hc⟩ | ⟨e, hr, hc⟩⟩ :=
      commitLocked_spec (w.s.mask &&& ~~~expired) w <;> rw [hc]
    · exact ⟨expired, env, fun i => has_collect _ i, hsame, Or.inl ⟨fault, rfl⟩⟩
    · exact ⟨expired, env, fun i => has_collect _ i, hsame, Or.inr ⟨hr, rfl⟩⟩

end RelayBoard
