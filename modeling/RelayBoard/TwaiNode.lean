import Mathlib.Data.Fin.VecNotation
import RelayBoard.Lib.Lending
import RelayBoard.Lib.Runs
import RelayBoard.Text

/-!
# Frames on their way to the bus

`TwaiNode::transmit` and `TwaiNode::on_tx_done` of `twai_node.cpp`. The driver
keeps a pointer to each queued frame and reads header and payload through it
later, so a frame lives in a slot of the node until `on_tx_done` hands the
slot back. Any number of tasks transmit, one at a time under `tx_lock_`; the
driver's interrupts come between any two of their steps.
-/

set_option autoImplicit false

namespace RelayBoard
open BitVec Lib Lib.Runs

/-- `CanFrame` of `can_frame.h`. -/
structure CanFrame where
  id : BitVec 32
  extended : Bool
  remote : Bool
  dlc : Byte
  data : Fin 8 → Byte
  deriving DecidableEq

structure WireFrame where
  id : BitVec 32
  extended : Bool
  remote : Bool
  dlc : Byte
  payload : List Byte
  deriving DecidableEq

def CanFrame.wire (f : CanFrame) : WireFrame :=
  ⟨f.id, f.extended, f.remote, f.dlc, (List.ofFn f.data).take f.dlc.toNat⟩

/-- `TwaiNode::TxSlot`: a `twai_frame_t`, whose buffer is the slot's own data. -/
structure TxSlot where
  id : BitVec 32
  ide : Bool
  rtr : Bool
  dlc : Byte
  bufferLen : Byte
  data : Fin 8 → Byte
  deriving DecidableEq

def TxSlot.wire (slot : TxSlot) : WireFrame :=
  ⟨slot.id, slot.ide, slot.rtr, slot.dlc, (List.ofFn slot.data).take slot.bufferLen.toNat⟩

/-- `memcpy(slot.data, frame.data, frame.dlc)`. -/
def TxSlot.copyData (f : CanFrame) (slot : TxSlot) : TxSlot :=
  { slot with data := fun k => if k.val < f.dlc.toNat then f.data k else slot.data k }

def TxSlot.setHeader (f : CanFrame) (slot : TxSlot) : TxSlot :=
  { slot with id := f.id, ide := f.extended, rtr := f.remote, dlc := f.dlc, bufferLen := f.dlc }

/-- `tx_slot_count_` for a driver queue of this depth. -/
def twaiSlotCount (txQueueDepth : BitVec 32) : ℕ :=
  if txQueueDepth + 1#32 < 32#32 then (txQueueDepth + 1#32).toNat else 32

def allSlots (slotCount : ℕ) : BitVec 32 :=
  if 32 ≤ slotCount then allOnes 32 else (1#32 <<< slotCount) - 1#32

/-- `__builtin_ctz`, none for zero. -/
def lowestSlot (m : BitVec 32) : Option (Fin 32) := (List.finRange 32).find? fun i => m.has i

/-- How a call fails once it has the lock. -/
inductive TwaiErr where
  | noMem
  | driver
  deriving DecidableEq, Repr

/-- Where a task stands in `transmit`. -/
inductive TransmitPc where
  | idle
  | locking (f : CanFrame)
  | searching (f : CanFrame)
  | exhausted (f : CanFrame)
  | reclaiming (f : CanFrame)
  | copying (f : CanFrame) (i : Fin 32)
  | heading (f : CanFrame) (i : Fin 32)
  | marking (f : CanFrame) (i : Fin 32)
  | handing (f : CanFrame) (i : Fin 32)
  | refused (i : Fin 32)
  | unlocking (r : Except TwaiErr Unit)
  deriving DecidableEq

def TransmitPc.slot : TransmitPc → Option (Fin 32)
  | .copying _ i => some i
  | .heading _ i => some i
  | .marking _ i => some i
  | .handing _ i => some i
  | .refused i => some i
  | _ => none

def TransmitPc.frame : TransmitPc → Option CanFrame
  | .locking f => some f
  | .searching f => some f
  | .exhausted f => some f
  | .reclaiming f => some f
  | .copying f _ => some f
  | .heading f _ => some f
  | .marking f _ => some f
  | .handing f _ => some f
  | _ => none

def TransmitPc.asks : TransmitPc → Bool
  | .exhausted _ => true
  | _ => false

/-- Between taking `tx_lock_` and giving it. -/
def TransmitPc.locked : TransmitPc → Bool
  | .idle => false
  | .locking _ => false
  | _ => true

/-- The node while it is up. `driver` has for each slot the driver points to
the frame it was asked to send, `dropped` are the slots whose frame it gave up
without a callback. -/
structure TwaiNode (τ : Type) where
  slots : Fin 32 → TxSlot
  slotCount : ℕ
  inUse : BitVec 32
  txLock : Option τ
  pc : τ → TransmitPc
  driver : Fin 32 → Option CanFrame
  dropped : Fin 32 → Bool

/-- `ok` is the driver's answer if the task's next step asks it: that it has
sent everything, or that it takes the frame. -/
inductive TwaiAction (τ : Type) where
  | transmit (t : τ) (f : CanFrame)
  | proceed (t : τ) (ok : Bool)
  | txDone (i : Fin 32)
  | drop (i : Fin 32)

namespace TwaiNode

variable {τ : Type} [DecidableEq τ]

/-- After `acquire`. -/
def start (slots : Fin 32 → TxSlot) (txQueueDepth : BitVec 32) : TwaiNode τ where
  slots := slots
  slotCount := twaiSlotCount txQueueDepth
  inUse := 0#32
  txLock := none
  pc := fun _ => .idle
  driver := fun _ => none
  dropped := fun _ => false

def setPc (t : τ) (pc : TransmitPc) (s : TwaiNode τ) : TwaiNode τ :=
  { s with pc := Function.update s.pc t pc }

def freeSlots (s : TwaiNode τ) : BitVec 32 := ~~~s.inUse &&& allSlots s.slotCount

/-- On to the lowest of the free slots, if there is one. -/
def pick (t : τ) (f : CanFrame) (free : BitVec 32) (otherwise : TransmitPc) (s : TwaiNode τ) :
    TwaiNode τ :=
  match lowestSlot free with
  | some i => s.setPc t (.copying f i)
  | none => s.setPc t otherwise

/-- `TwaiNode::on_tx_done` on the frame of slot `i`. -/
def onTxDone (i : Fin 32) (s : TwaiNode τ) : TwaiNode τ :=
  if i.val < s.slotCount then { s with inUse := s.inUse &&& ~~~single i } else s

def proceed (t : τ) (ok : Bool) (s : TwaiNode τ) : TwaiNode τ :=
  match s.pc t with
  | .idle => s
  | .locking f =>
    if s.txLock = none then { s with txLock := some t }.setPc t (.searching f) else s
  | .searching f => s.pick t f s.freeSlots (.exhausted f)
  | .exhausted f =>
    s.setPc t (if ok then .reclaiming f else .unlocking (.error .noMem))
  | .reclaiming f =>
    { s with inUse := 0#32, dropped := fun _ => false }.pick t f (allSlots s.slotCount)
      (.unlocking (.error .noMem))
  | .copying f i =>
    { s with slots := Function.update s.slots i ((s.slots i).copyData f) }.setPc t (.heading f i)
  | .heading f i =>
    { s with slots := Function.update s.slots i ((s.slots i).setHeader f) }.setPc t (.marking f i)
  | .marking f i => { s with inUse := s.inUse ||| single i }.setPc t (.handing f i)
  | .handing f i =>
    if ok then
      { s with
        driver := Function.update s.driver i (some f)
        dropped := Function.update s.dropped i false }.setPc t (.unlocking (.ok ()))
    else s.setPc t (.refused i)
  | .refused i =>
    { s with inUse := s.inUse &&& ~~~single i }.setPc t (.unlocking (.error .driver))
  | .unlocking _ => { s with txLock := none }.setPc t .idle

def step (s : TwaiNode τ) : TwaiAction τ → TwaiNode τ
  | .transmit t f =>
    -- A longer frame is refused before the lock is taken.
    if s.pc t = .idle ∧ f.dlc.toNat ≤ 8 then s.setPc t (.locking f) else s
  | .proceed t ok => s.proceed t ok
  | .txDone i =>
    if s.driver i = none then s
    else { s with driver := Function.update s.driver i none }.onTxDone i
  | .drop i =>
    if s.driver i = none then s
    else
      { s with
        driver := Function.update s.driver i none
        dropped := Function.update s.dropped i true }

/-- The driver says that it has sent everything only when it holds nothing. -/
def Truthful (s : TwaiNode τ) : TwaiAction τ → Prop
  | .proceed t ok => (s.pc t).asks = true → ok = true → ∀ i, s.driver i = none
  | _ => True

instance (s : TwaiNode τ) : DecidablePred s.Truthful
  | .proceed t ok =>
    inferInstanceAs (Decidable ((s.pc t).asks = true → ok = true → ∀ i, s.driver i = none))
  | .transmit _ _ => .isTrue trivial
  | .txDone _ => .isTrue trivial
  | .drop _ => .isTrue trivial

end TwaiNode

theorem TxSlot.wire_filled (f : CanFrame) (slot : TxSlot) :
    ((slot.copyData f).setHeader f).wire = f.wire := by
  unfold TxSlot.wire CanFrame.wire TxSlot.setHeader TxSlot.copyData
  congr 1
  apply List.ext_getElem
  · simp
  · intro k hk hk'
    rw [List.getElem_take, List.getElem_take, List.getElem_ofFn, List.getElem_ofFn]
    rw [List.length_take] at hk
    exact if_pos (lt_min_iff.mp hk).1

theorem lowestSlot_some {m : BitVec 32} {i : Fin 32} (h : lowestSlot m = some i) :
    m.has i = true := List.find?_some (p := fun i => m.has i) h

theorem lowestSlot_none {m : BitVec 32} (h : lowestSlot m = none) (i : Fin 32) :
    m.has i = false := by
  have hi := List.find?_eq_none.mp h i (List.mem_finRange i)
  simpa using hi

theorem has_allSlots (n : ℕ) (i : Fin 32) : (allSlots n).has i = true ↔ i.val < n := by
  unfold allSlots
  split_ifs with hn
  · have hi := i.isLt
    simp only [has, getLsbD_allOnes, decide_eq_true_eq]
    omega
  · have hall : ∀ m : Fin 32, ∀ i : Fin 32,
        ((1#32 <<< m.val) - 1#32).has i = decide (i.val < m.val) := by decide +kernel
    rw [hall ⟨n, not_le.mp hn⟩ i, decide_eq_true_iff]

namespace TwaiNode

variable {τ : Type}

def filling (s : TwaiNode τ) : Option (Fin 32) := s.txLock.bind fun t => (s.pc t).slot

/-- The slots as lent to the driver. -/
def lending (s : TwaiNode τ) : Lending.State 32 WireFrame where
  content := fun i => (s.slots i).wire
  marked := s.inUse
  lent := fun i => (s.driver i).map CanFrame.wire
  dropped := s.dropped
  chosen := s.filling

def Filled (s : TwaiNode τ) : TransmitPc → Prop
  | .reclaiming _ => ∀ i, s.driver i = none
  | .copying _ i => i.val < s.slotCount
  | .heading f i => i.val < s.slotCount ∧ ((s.slots i).setHeader f).wire = f.wire
  | .marking f i => i.val < s.slotCount ∧ (s.slots i).wire = f.wire
  | .handing f i => i.val < s.slotCount ∧ (s.slots i).wire = f.wire ∧ s.inUse.has i = true
  | .refused i => i.val < s.slotCount ∧ s.inUse.has i = true
  | _ => True

structure Inv (s : TwaiNode τ) : Prop where
  lending : s.lending.Inv
  holder : ∀ t, (s.pc t).locked = true ↔ s.txLock = some t
  filled : ∀ t, s.Filled (s.pc t)
  bounded : ∀ i, s.driver i ≠ none → i.val < s.slotCount

theorem filled_of_unlocked {s : TwaiNode τ} {pc : TransmitPc} (h : pc.locked = false) :
    s.Filled pc := by
  cases pc <;> simp [TransmitPc.locked] at h <;> trivial

theorem start_inv (slots : Fin 32 → TxSlot) (txQueueDepth : BitVec 32) :
    (start (τ := τ) slots txQueueDepth).Inv where
  lending :=
    { intact := fun i a h => by cases h
      marked := fun i h => absurd rfl h
      idle := fun i h => by cases h
      accounted := fun i h => by simp [lending, start] at h
      dropped := fun i h => by cases h }
  holder t := by simp [start, TransmitPc.locked]
  filled t := trivial
  bounded i h := absurd rfl h

variable {s : TwaiNode τ} {t : τ} {pc : TransmitPc}

theorem Inv.locked (h : s.Inv) (hpc : (s.pc t).locked = true) : s.txLock = some t :=
  (h.holder t).mp hpc

theorem filling_of_locked (ht : s.txLock = some t) : s.filling = (s.pc t).slot := by
  simp [filling, ht]

theorem freeSlots_free (i : Fin 32) (hi : s.freeSlots.has i = true) :
    s.inUse.has i = false ∧ i.val < s.slotCount := by
  rw [freeSlots, has_and, has_not, Bool.and_eq_true, Bool.not_eq_true'] at hi
  exact ⟨hi.1, (has_allSlots _ i).mp hi.2⟩

/-- The driver gives slot `i` up, with or without a callback. -/
theorem filled_of_driver {s' : TwaiNode τ} (hslots : s'.slots = s.slots)
    (hcount : s'.slotCount = s.slotCount) (hdriver : ∀ j, s.driver j = none → s'.driver j = none)
    (hmark : ∀ j, pc.slot = some j → s.inUse.has j = true → s'.inUse.has j = true)
    (h : s.Filled pc) : s'.Filled pc := by
  cases pc with
  | reclaiming f => exact fun j => hdriver j (h j)
  | copying f i =>
    rw [Filled, hcount]
    exact h
  | heading f i =>
    rw [Filled, hcount, hslots]
    exact h
  | marking f i =>
    rw [Filled, hcount, hslots]
    exact h
  | handing f i =>
    rw [Filled, hcount, hslots]
    exact ⟨h.1, h.2.1, hmark i rfl h.2.2⟩
  | refused i =>
    rw [Filled, hcount]
    exact ⟨h.1, hmark i rfl h.2⟩
  | _ => trivial

theorem update_driver_none {i j : Fin 32} (h : s.driver j = none) :
    Function.update s.driver i none j = none := by
  by_cases hji : j = i
  · subst hji
    rw [Function.update_self]
  · rw [Function.update_of_ne hji, h]

theorem map_update_driver (i : Fin 32) :
    (fun j => (Function.update s.driver i none j).map CanFrame.wire) =
      Function.update (fun j => (s.driver j).map CanFrame.wire) i none := by
  funext j
  by_cases hji : j = i
  · subst hji
    simp
  · simp [hji]

theorem lent_of_driver {i : Fin 32} (h : s.driver i ≠ none) : s.lending.lent i ≠ none := by
  simpa [lending] using h

theorem Inv.filling_ne (h : s.Inv) {i : Fin 32} (hi : s.driver i ≠ none) (t : τ) :
    (s.pc t).slot ≠ some i := by
  intro hslot
  have hlocked : (s.pc t).locked = true := by
    revert hslot
    cases s.pc t <;> simp [TransmitPc.slot, TransmitPc.locked]
  have hchosen : s.lending.chosen = some i :=
    (filling_of_locked (h.locked hlocked)).trans hslot
  exact lent_of_driver hi (h.lending.idle i hchosen).1

theorem txDone_inv (h : s.Inv) {i : Fin 32} (hi : s.driver i ≠ none) :
    (({ s with driver := Function.update s.driver i none } : TwaiNode τ).onTxDone i).Inv := by
  rw [onTxDone, if_pos (h.bounded i hi)]
  refine ⟨?_, h.holder, fun t => ?_, fun j hj => h.bounded j fun hnone => ?_⟩
  · have hlending := h.lending.giveBack (lent_of_driver hi)
    simp only [Lending.State.giveBack, lending] at hlending
    simp only [lending, map_update_driver]
    exact hlending
  · refine filled_of_driver (s := s) rfl rfl (fun j => update_driver_none) (fun j hj hm => ?_)
      (h.filled t)
    have hne : j ≠ i := fun hji => h.filling_ne hi t (hji ▸ hj)
    simp [hm, hne]
  · exact hj (update_driver_none hnone)

theorem drop_inv (h : s.Inv) {i : Fin 32} (hi : s.driver i ≠ none) :
    ({ s with
      driver := Function.update s.driver i none
      dropped := Function.update s.dropped i true } : TwaiNode τ).Inv := by
  refine ⟨?_, h.holder, fun t => ?_, fun j hj => h.bounded j fun hnone => ?_⟩
  · have hlending := h.lending.drop (lent_of_driver hi)
    simp only [Lending.State.drop, lending] at hlending
    simp only [lending, map_update_driver]
    exact hlending
  · exact filled_of_driver (s := s) rfl rfl (fun j => update_driver_none) (fun _ _ hm => hm)
      (h.filled t)
  · exact hj (update_driver_none hnone)

variable [DecidableEq τ]

theorem lending_setPc (ht : s.txLock = some t) (pc : TransmitPc) :
    (s.setPc t pc).lending = { s.lending with chosen := pc.slot } := by
  simp [lending, filling, setPc, ht]

/-- A step of the task that holds the lock. -/
theorem Inv.holderStep (h : s.Inv) {s' : TwaiNode τ} (pc : TransmitPc) (ht : s.txLock = some t)
    (hlock : s'.txLock = s.txLock) (hpc : s'.pc = Function.update s.pc t pc)
    (hlocked : pc.locked = true) (hlending : s'.lending.Inv) (hfilled : s'.Filled pc)
    (hbounded : ∀ i, s'.driver i ≠ none → i.val < s'.slotCount) : s'.Inv where
  lending := hlending
  holder u := by
    rw [hlock, hpc]
    by_cases hu : u = t
    · subst hu
      simp [hlocked, ht]
    · rw [Function.update_of_ne hu]
      exact h.holder u
  filled u := by
    rw [hpc]
    by_cases hu : u = t
    · subst hu
      rwa [Function.update_self]
    · rw [Function.update_of_ne hu]
      apply filled_of_unlocked
      by_contra hlocked
      have hother := (h.holder u).mp (by simpa using hlocked)
      rw [ht] at hother
      exact hu (Option.some.inj hother).symm
  bounded := hbounded

theorem pick_inv (h : s.Inv) (ht : s.txLock = some t) (hslot : (s.pc t).slot = none)
    {f : CanFrame} {free : BitVec 32} {otherwise : TransmitPc}
    (hfree : ∀ i, free.has i = true → s.inUse.has i = false ∧ i.val < s.slotCount)
    (hlocked : otherwise.locked = true) (hnone : otherwise.slot = none)
    (hfilled : s.Filled otherwise) : (s.pick t f free otherwise).Inv := by
  have hchosen : s.lending.chosen = none := (filling_of_locked ht).trans hslot
  unfold pick
  cases hfind : lowestSlot free with
  | none =>
    show (s.setPc t otherwise).Inv
    refine h.holderStep otherwise ht rfl rfl hlocked ?_ hfilled h.bounded
    rw [lending_setPc ht, hnone, ← hchosen]
    exact h.lending
  | some i =>
    obtain ⟨hmarked, hlt⟩ := hfree i (lowestSlot_some hfind)
    show (s.setPc t (.copying f i)).Inv
    refine h.holderStep (.copying f i) ht rfl rfl rfl ?_ hlt h.bounded
    rw [lending_setPc ht]
    exact h.lending.choose hmarked hchosen

theorem reclaim_inv (h : s.Inv) (ht : s.txLock = some t) (hslot : (s.pc t).slot = none)
    (hempty : ∀ i, s.driver i = none) :
    ({ s with inUse := 0#32, dropped := fun _ => false } : TwaiNode τ).Inv where
  lending := h.lending.reclaim fun i => by simp [lending, hempty i]
  holder := h.holder
  filled u := by
    by_cases hu : u = t
    · subst hu
      have hfilled := h.filled u
      revert hfilled hslot
      cases s.pc u <;> simp [Filled, TransmitPc.slot]
    · apply filled_of_unlocked
      by_contra hlocked
      have hother := h.locked (t := u) (by simpa using hlocked)
      rw [ht] at hother
      exact hu (Option.some.inj hother).symm
  bounded := h.bounded

theorem lending_write (ht : s.txLock = some t) (i : Fin 32) (slot : TxSlot) (pc : TransmitPc) :
    ({ s with slots := Function.update s.slots i slot }.setPc t pc).lending =
      { s.lending.fill i slot.wire with chosen := pc.slot } := by
  have hcontent : (fun j => (Function.update s.slots i slot j).wire) =
      Function.update (fun j => (s.slots j).wire) i slot.wire := by
    funext j
    by_cases hj : j = i
    · subst hj
      simp
    · simp [hj]
  rw [lending_setPc (s := { s with slots := Function.update s.slots i slot }) ht]
  simp only [lending, Lending.State.fill, hcontent]

theorem lending_hand (ht : s.txLock = some t) (i : Fin 32) (f : CanFrame)
    (r : Except TwaiErr Unit) :
    ({ s with
        driver := Function.update s.driver i (some f)
        dropped := Function.update s.dropped i false }.setPc t (.unlocking r)).lending =
      s.lending.lend i f.wire := by
  have hlent : (fun j => (Function.update s.driver i (some f) j).map CanFrame.wire) =
      Function.update (fun j => (s.driver j).map CanFrame.wire) i (some f.wire) := by
    funext j
    by_cases hj : j = i
    · subst hj
      simp
    · simp [hj]
  rw [lending_setPc (s := { s with
    driver := Function.update s.driver i (some f)
    dropped := Function.update s.dropped i false }) ht]
  simp only [lending, Lending.State.lend, hlent]
  rfl

theorem lock_inv (h : s.Inv) {f : CanFrame} (hpc : s.pc t = .locking f)
    (hfree : s.txLock = none) :
    ({ s with txLock := some t }.setPc t (.searching f)).Inv where
  lending := by
    have hlending : ({ s with txLock := some t }.setPc t (.searching f)).lending = s.lending := by
      simp [lending, filling, setPc, hfree, TransmitPc.slot]
    rw [hlending]
    exact h.lending
  holder u := by
    by_cases hu : u = t
    · subst hu
      simp [setPc, TransmitPc.locked]
    · have hunlocked : (s.pc u).locked ≠ true := by
        intro hlocked
        rw [h.locked hlocked] at hfree
        cases hfree
      simp [setPc, hu, hunlocked, Ne.symm hu]
  filled u := by
    by_cases hu : u = t
    · subst hu
      simp [setPc, Filled]
    · have hunlocked : (s.pc u).locked = false := by
        by_contra hlocked
        rw [h.locked (t := u) (by simpa using hlocked)] at hfree
        cases hfree
      simp only [setPc, Function.update_of_ne hu]
      exact filled_of_unlocked hunlocked
  bounded := h.bounded

theorem unlock_inv (h : s.Inv) {r : Except TwaiErr Unit} (hpc : s.pc t = .unlocking r)
    (ht : s.txLock = some t) : ({ s with txLock := none }.setPc t .idle).Inv where
  lending := by
    have hchosen : s.filling = none := (filling_of_locked ht).trans (by rw [hpc]; rfl)
    have hlending : ({ s with txLock := none }.setPc t .idle).lending = s.lending := by
      simp only [lending, hchosen]
      rfl
    rw [hlending]
    exact h.lending
  holder u := by
    by_cases hu : u = t
    · subst hu
      simp [setPc, TransmitPc.locked]
    · have hunlocked : (s.pc u).locked ≠ true := by
        intro hlocked
        rw [h.locked hlocked] at ht
        exact hu (Option.some.inj ht)
      simp [setPc, hu, hunlocked]
  filled u := by
    by_cases hu : u = t
    · subst hu
      simp [setPc, Filled]
    · have hunlocked : (s.pc u).locked = false := by
        by_contra hlocked
        rw [h.locked (t := u) (by simpa using hlocked)] at ht
        exact hu (Option.some.inj ht)
      simp only [setPc, Function.update_of_ne hu]
      exact filled_of_unlocked hunlocked
  bounded := h.bounded

theorem proceed_inv (h : s.Inv) (ok : Bool)
    (htruth : (s.pc t).asks = true → ok = true → ∀ i, s.driver i = none) :
    (s.proceed t ok).Inv := by
  have hfilled := h.filled t
  unfold proceed
  cases hpc : s.pc t with
  | idle => exact h
  | locking f =>
    dsimp only
    split_ifs with hfree
    · exact lock_inv h hpc hfree
    · exact h
  | searching f =>
    have ht := h.locked (t := t) (by rw [hpc]; rfl)
    exact pick_inv h ht (by rw [hpc]; rfl) freeSlots_free rfl rfl trivial
  | exhausted f =>
    have ht := h.locked (t := t) (by rw [hpc]; rfl)
    have hchosen : s.lending.chosen = none := (filling_of_locked ht).trans (by rw [hpc]; rfl)
    have hidle : ({ s.lending with chosen := none } : Lending.State 32 WireFrame).Inv := by
      rw [← hchosen]
      exact h.lending
    cases ok with
    | false =>
      refine h.holderStep (.unlocking (.error .noMem)) ht rfl rfl rfl ?_ trivial h.bounded
      rw [lending_setPc ht]
      exact hidle
    | true =>
      refine h.holderStep (.reclaiming f) ht rfl rfl rfl ?_ (htruth (by rw [hpc]; rfl) rfl)
        h.bounded
      rw [lending_setPc ht]
      exact hidle
  | reclaiming f =>
    have ht := h.locked (t := t) (by rw [hpc]; rfl)
    have hslot : (s.pc t).slot = none := by rw [hpc]; rfl
    rw [hpc] at hfilled
    refine pick_inv (reclaim_inv h ht hslot hfilled) ht hslot (fun i hi => ?_) rfl rfl trivial
    exact ⟨has_zero i, (has_allSlots _ i).mp hi⟩
  | copying f i =>
    have ht := h.locked (t := t) (by rw [hpc]; rfl)
    rw [hpc] at hfilled
    have hchosen : s.lending.chosen = some i := (filling_of_locked ht).trans (by rw [hpc]; rfl)
    refine h.holderStep (.heading f i) ht rfl rfl rfl ?_ ⟨hfilled, ?_⟩ h.bounded
    · rw [lending_write ht, TransmitPc.slot, ← hchosen]
      exact h.lending.fill hchosen
    · simp only [setPc, Function.update_self]
      exact TxSlot.wire_filled f (s.slots i)
  | heading f i =>
    have ht := h.locked (t := t) (by rw [hpc]; rfl)
    rw [hpc] at hfilled
    have hchosen : s.lending.chosen = some i := (filling_of_locked ht).trans (by rw [hpc]; rfl)
    refine h.holderStep (.marking f i) ht rfl rfl rfl ?_ ⟨hfilled.1, ?_⟩ h.bounded
    · rw [lending_write ht, TransmitPc.slot, ← hchosen]
      exact h.lending.fill hchosen
    · simp only [setPc, Function.update_self]
      exact hfilled.2
  | marking f i =>
    have ht := h.locked (t := t) (by rw [hpc]; rfl)
    rw [hpc] at hfilled
    have hchosen : s.lending.chosen = some i := (filling_of_locked ht).trans (by rw [hpc]; rfl)
    refine h.holderStep (.handing f i) ht rfl rfl rfl ?_ ⟨hfilled.1, hfilled.2, ?_⟩ h.bounded
    · rw [lending_setPc (s := { s with inUse := s.inUse ||| single i }) ht, TransmitPc.slot,
        ← hchosen]
      exact h.lending.mark hchosen
    · simp [setPc]
  | handing f i =>
    have ht := h.locked (t := t) (by rw [hpc]; rfl)
    rw [hpc] at hfilled
    have hchosen : s.lending.chosen = some i := (filling_of_locked ht).trans (by rw [hpc]; rfl)
    dsimp only
    cases ok with
    | true =>
      rw [if_pos rfl]
      refine h.holderStep (.unlocking (.ok ())) ht rfl rfl rfl ?_ trivial (fun j hj => ?_)
      · rw [lending_hand ht]
        exact h.lending.lend hchosen hfilled.2.2 hfilled.2.1
      · by_cases hji : j = i
        · subst hji
          exact hfilled.1
        · simp only [setPc, Function.update_of_ne hji] at hj
          exact h.bounded j hj
    | false =>
      rw [if_neg Bool.false_ne_true]
      refine h.holderStep (.refused i) ht rfl rfl rfl ?_ ⟨hfilled.1, hfilled.2.2⟩ h.bounded
      rw [lending_setPc ht, TransmitPc.slot, ← hchosen]
      exact h.lending
  | refused i =>
    have ht := h.locked (t := t) (by rw [hpc]; rfl)
    have hchosen : s.lending.chosen = some i := (filling_of_locked ht).trans (by rw [hpc]; rfl)
    refine h.holderStep (.unlocking (.error .driver)) ht rfl rfl rfl ?_ trivial h.bounded
    rw [lending_setPc (s := { s with inUse := s.inUse &&& ~~~single i }) ht]
    exact h.lending.withdraw hchosen
  | unlocking r =>
    have ht := h.locked (t := t) (by rw [hpc]; rfl)
    exact unlock_inv h hpc ht

theorem transmit_inv (h : s.Inv) (hpc : s.pc t = .idle) (f : CanFrame) :
    (s.setPc t (.locking f)).Inv where
  lending := by
    have hfilling : (s.setPc t (.locking f)).filling = s.filling := by
      unfold filling
      cases hlock : (s.setPc t (.locking f)).txLock with
      | none => simp [show s.txLock = none from hlock]
      | some u =>
        rw [show s.txLock = some u from hlock]
        by_cases hu : u = t
        · subst hu
          simp [setPc, hpc, TransmitPc.slot]
        · simp [setPc, hu]
    simp only [lending, hfilling]
    exact h.lending
  holder u := by
    by_cases hu : u = t
    · subst hu
      have hold := h.holder u
      rw [hpc] at hold
      simpa [setPc, TransmitPc.locked] using hold
    · simp only [setPc, Function.update_of_ne hu]
      exact h.holder u
  filled u := by
    by_cases hu : u = t
    · subst hu
      simp [setPc, Filled]
    · simp only [setPc, Function.update_of_ne hu]
      exact filled_of_driver (s := s) rfl rfl (fun _ hj => hj) (fun _ _ hm => hm) (h.filled u)
  bounded := h.bounded

theorem step_inv (a : TwaiAction τ) (h : s.Inv) (htruth : s.Truthful a) : (s.step a).Inv := by
  cases a with
  | transmit t f =>
    dsimp only [step]
    split_ifs with hidle
    · exact transmit_inv h hidle.1 f
    · exact h
  | proceed t ok => exact proceed_inv h ok htruth
  | txDone i =>
    dsimp only [step]
    split_ifs with hi
    · exact h
    · exact txDone_inv h hi
  | drop i =>
    dsimp only [step]
    split_ifs with hi
    · exact h
    · exact drop_inv h hi

theorem reached_inv (slots : Fin 32 → TxSlot) (txQueueDepth : BitVec 32)
    (actions : List (TwaiAction τ))
    (htruth : ∀ e ∈ history step (start slots txQueueDepth) actions, Truthful e.1 e.2) :
    (run step (start slots txQueueDepth) actions).Inv :=
  run_invariant step (I := Inv) (start slots txQueueDepth) (start_inv slots txQueueDepth)
    (fun _ a h htrue => step_inv a h htrue) actions htruth

/-- Every frame in the node is such. -/
structure Only (P : CanFrame → Prop) (s : TwaiNode τ) : Prop where
  pc : ∀ t f, (s.pc t).frame = some f → P f
  driver : ∀ i f, s.driver i = some f → P f

variable {P : CanFrame → Prop}

theorem Only.setPc (h : s.Only P) (t : τ) (pc : TransmitPc) (hpc : ∀ f, pc.frame = some f → P f) :
    (s.setPc t pc).Only P where
  pc u f hf := by
    by_cases hu : u = t
    · subst hu
      exact hpc f (by simpa [TwaiNode.setPc] using hf)
    · exact h.pc u f (by simpa [TwaiNode.setPc, hu] using hf)
  driver := h.driver

theorem Only.pick (h : s.Only P) (t : τ) (f : CanFrame) (free : BitVec 32)
    (otherwise : TransmitPc) (hf : P f) (hpc : ∀ g, otherwise.frame = some g → P g) :
    (s.pick t f free otherwise).Only P := by
  unfold TwaiNode.pick
  cases lowestSlot free with
  | none => exact h.setPc t otherwise hpc
  | some i =>
    refine h.setPc t (.copying f i) (fun g hg => ?_)
    obtain rfl := Option.some.inj hg
    exact hf

theorem Only.proceed (h : s.Only P) (t : τ) (ok : Bool) : (s.proceed t ok).Only P := by
  have hframe : ∀ {pc : TransmitPc} {f : CanFrame}, s.pc t = pc → pc.frame = some f → P f :=
    fun hpc hf => h.pc t _ (hpc ▸ hf)
  have hgoes : ∀ {f : CanFrame} {pc : TransmitPc}, P f → (pc.frame = some f ∨ pc.frame = none) →
      ∀ g, pc.frame = some g → P g := by
    rintro f pc hf (hsome | hnone) g hg
    · exact Option.some.inj (hsome.symm.trans hg) ▸ hf
    · rw [hnone] at hg
      cases hg
  unfold TwaiNode.proceed
  cases hpc : s.pc t with
  | idle => exact h
  | locking f =>
    dsimp only
    split_ifs with hfree
    · refine Only.setPc ?_ t (.searching f) (hgoes (hframe hpc rfl) (.inl rfl))
      exact ⟨h.pc, h.driver⟩
    · exact h
  | searching f =>
    exact h.pick t f _ _ (hframe hpc rfl) (hgoes (hframe hpc rfl) (.inl rfl))
  | exhausted f =>
    refine h.setPc t _ (hgoes (hframe hpc rfl) ?_)
    cases ok with
    | false => exact .inr rfl
    | true => exact .inl rfl
  | reclaiming f =>
    refine Only.pick ?_ t f _ (.unlocking (.error .noMem)) (hframe hpc rfl)
      (hgoes (hframe hpc rfl) (.inr rfl))
    exact ⟨h.pc, h.driver⟩
  | copying f i =>
    refine Only.setPc ?_ t (.heading f i) (hgoes (hframe hpc rfl) (.inl rfl))
    exact ⟨h.pc, h.driver⟩
  | heading f i =>
    refine Only.setPc ?_ t (.marking f i) (hgoes (hframe hpc rfl) (.inl rfl))
    exact ⟨h.pc, h.driver⟩
  | marking f i =>
    refine Only.setPc ?_ t (.handing f i) (hgoes (hframe hpc rfl) (.inl rfl))
    exact ⟨h.pc, h.driver⟩
  | handing f i =>
    have hf : P f := hframe hpc rfl
    dsimp only
    split_ifs with hok
    · refine Only.setPc ?_ t (.unlocking (.ok ())) (hgoes hf (.inr rfl))
      refine ⟨h.pc, fun j g hj => ?_⟩
      by_cases hji : j = i
      · subst hji
        simp only [Function.update_self, Option.some.injEq] at hj
        exact hj ▸ hf
      · exact h.driver j g (by simpa [hji] using hj)
    · exact h.setPc t _ (hgoes hf (.inr rfl))
  | refused i =>
    refine Only.setPc ?_ t (.unlocking (.error .driver)) (fun f hf => by cases hf)
    exact ⟨h.pc, h.driver⟩
  | unlocking r =>
    refine Only.setPc ?_ t .idle (fun f hf => by cases hf)
    exact ⟨h.pc, h.driver⟩

theorem Only.step (h : s.Only P) (a : TwaiAction τ)
    (ha : ∀ t f, a = .transmit t f → f.dlc.toNat ≤ 8 → P f) : (s.step a).Only P := by
  have hdriver : ∀ i j f, Function.update s.driver i none j = some f → P f := by
    intro i j f hj
    by_cases hji : j = i
    · subst hji
      simp at hj
    · exact h.driver j f (by simpa [hji] using hj)
  cases a with
  | transmit t f =>
    dsimp only [TwaiNode.step]
    split_ifs with hidle
    · refine h.setPc t _ (fun g hg => ?_)
      obtain rfl := Option.some.inj hg
      exact ha t f rfl hidle.2
    · exact h
  | proceed t ok => exact h.proceed t ok
  | txDone i =>
    dsimp only [TwaiNode.step, onTxDone]
    split_ifs with hi hlt
    · exact h
    · exact ⟨h.pc, hdriver i⟩
    · exact ⟨h.pc, hdriver i⟩
  | drop i =>
    dsimp only [TwaiNode.step]
    split_ifs with hi
    · exact h
    · exact ⟨h.pc, hdriver i⟩

/-- Whenever the driver reads through a slot it still holds, it reads the frame
of the call that handed the slot over. -/
theorem driver_reads_queued (slots : Fin 32 → TxSlot) (txQueueDepth : BitVec 32)
    (actions : List (TwaiAction τ))
    (htruth : ∀ e ∈ history step (start slots txQueueDepth) actions, Truthful e.1 e.2)
    (i : Fin 32) (f : CanFrame)
    (hi : (run step (start slots txQueueDepth) actions).driver i = some f) :
    ((run step (start slots txQueueDepth) actions).slots i).wire = f.wire ∧
      i.val < (run step (start slots txQueueDepth) actions).slotCount ∧
      f.dlc.toNat ≤ 8 ∧ ∃ t, TwaiAction.transmit t f ∈ actions := by
  have hinv := reached_inv slots txQueueDepth actions htruth
  have honly : (run step (start slots txQueueDepth) actions).Only
      fun g => g.dlc.toNat ≤ 8 ∧ ∃ t, TwaiAction.transmit t g ∈ actions := by
    refine run_invariant step
      (I := Only fun g => g.dlc.toNat ≤ 8 ∧ ∃ t, TwaiAction.transmit t g ∈ actions)
      (P := fun _ a => a ∈ actions) (start slots txQueueDepth)
      ⟨fun t g hg => (by cases hg), fun j g hg => (by cases hg)⟩ (fun s a h ha => ?_) actions
      (fun e he => input_of_history step _ actions e he)
    exact h.step a fun t g htransmit hdlc => ⟨hdlc, t, htransmit ▸ ha⟩
  refine ⟨hinv.lending.intact i f.wire ?_, hinv.bounded i (by simp [hi]), honly.driver i f hi⟩
  simp [lending, hi]

def blankSlots : Fin 32 → TxSlot := fun _ => ⟨0#32, false, false, 0#8, 0#8, fun _ => 0#8⟩

def isoRequest : CanFrame := ⟨0x18EAFF01#32, true, false, 3#8, ![0x00, 0xEE, 0x00, 0, 0, 0, 0, 0]⟩

def switchBank : CanFrame := ⟨0x0DF20D01#32, true, false, 2#8, ![0x01, 0x55, 0, 0, 0, 0, 0, 0]⟩

def twoCalls : List (TwaiAction Bool) :=
  [.transmit false isoRequest, .transmit true switchBank, .proceed false false,
    .proceed true false] ++ List.replicate 4 (.proceed false false) ++
    [.proceed false true, .proceed false false, .proceed true false, .proceed true false,
      .txDone 0, .proceed true false, .proceed true false, .proceed true false,
      .proceed true true, .proceed true false]

def afterTwoCalls : TwaiNode Bool := run step (start blankSlots 1#32) twoCalls

theorem driver_reads_queued_twoCalls :
    afterTwoCalls.driver 1 = some switchBank ∧
      (afterTwoCalls.slots 1).wire = switchBank.wire := by
  have hdriver : afterTwoCalls.driver 1 = some switchBank := by decide +kernel
  exact ⟨hdriver, (driver_reads_queued blankSlots 1#32 twoCalls (by decide +kernel) 1
    switchBank hdriver).1⟩

/-- A call finds no slot exactly if the driver holds or has dropped every one.
While nobody is in a call, a slot is in use exactly if the driver holds it or
has dropped it. -/
theorem slots_accounted (slots : Fin 32 → TxSlot) (txQueueDepth : BitVec 32)
    (actions : List (TwaiAction τ))
    (htruth : ∀ e ∈ history step (start slots txQueueDepth) actions, Truthful e.1 e.2)
    (s : TwaiNode τ) (hs : s = run step (start slots txQueueDepth) actions) :
    (∀ t f ok, s.pc t = .searching f →
      ((s.proceed t ok).pc t = .exhausted f ↔
        ∀ i : Fin 32, i.val < s.slotCount → s.driver i ≠ none ∨ s.dropped i = true)) ∧
    (s.txLock = none →
      ∀ i, s.inUse.has i = true ↔ s.driver i ≠ none ∨ s.dropped i = true) := by
  have hinv := reached_inv slots txQueueDepth actions htruth
  rw [← hs] at hinv
  have hmarked : s.filling = none →
      ∀ i, s.inUse.has i = true ↔ s.driver i ≠ none ∨ s.dropped i = true := by
    intro hnone i
    simpa [lending] using hinv.lending.marked_iff hnone i
  refine ⟨fun t f ok hpc => ?_, fun hlock => hmarked (by simp [filling, hlock])⟩
  have ht := hinv.locked (t := t) (by rw [hpc]; rfl)
  have hmarked := hmarked ((filling_of_locked ht).trans (by rw [hpc]; rfl))
  have hstep : s.proceed t ok = s.pick t f s.freeSlots (.exhausted f) := by
    simp only [proceed, hpc]
  rw [hstep, pick]
  cases hfind : lowestSlot s.freeSlots with
  | none =>
    refine iff_of_true (by simp [setPc]) (fun i hi => (hmarked i).mp ?_)
    have hfree := lowestSlot_none hfind i
    rw [freeSlots, has_and, has_not, (has_allSlots _ i).mpr hi] at hfree
    simpa using hfree
  | some i =>
    obtain ⟨hfree, hlt⟩ := freeSlots_free i (lowestSlot_some hfind)
    refine iff_of_false (by simp [setPc]) (fun hall => ?_)
    rw [(hmarked i).mpr (hall i hlt)] at hfree
    cases hfree

theorem slots_accounted_twoCalls :
    afterTwoCalls.txLock = none ∧ (afterTwoCalls.inUse.has 1 = true ↔
      afterTwoCalls.driver 1 ≠ none ∨ afterTwoCalls.dropped 1 = true) := by
  have hlock : afterTwoCalls.txLock = none := by decide +kernel
  exact ⟨hlock, (slots_accounted blankSlots 1#32 twoCalls (by decide +kernel) afterTwoCalls
    rfl).2 hlock 1⟩

@[simp] theorem slotCount_setPc (t : τ) (pc : TransmitPc) :
    (s.setPc t pc).slotCount = s.slotCount := rfl

theorem slotCount_step (a : TwaiAction τ) : (s.step a).slotCount = s.slotCount := by
  cases a with
  | transmit t f =>
    dsimp only [step]
    split_ifs <;> rfl
  | proceed t ok =>
    dsimp only [step, proceed]
    split
    case h_2 => split_ifs <;> rfl
    case h_3 f => cases hfind : lowestSlot s.freeSlots <;> simp [pick, hfind]
    case h_5 f => cases hfind : lowestSlot (allSlots s.slotCount) <;> simp [pick, hfind]
    case h_9 f i => split_ifs <;> rfl
    all_goals rfl
  | txDone i =>
    dsimp only [step, onTxDone]
    split_ifs <;> rfl
  | drop i =>
    dsimp only [step]
    split_ifs <;> rfl

theorem twaiSlotCount_pos {txQueueDepth : BitVec 32} (h : txQueueDepth ≠ allOnes 32) :
    0 < twaiSlotCount txQueueDepth := by
  unfold twaiSlotCount
  split_ifs
  · by_contra hzero
    apply h
    apply eq_of_toNat_eq
    have hlt := txQueueDepth.isLt
    simp only [toNat_add, toNat_ofNat] at hzero
    simp only [toNat_allOnes]
    omega
  · decide

theorem idle_stays (ok : Bool) (hpc : s.pc t = .idle) (n : ℕ) :
    run step s (List.replicate n (.proceed t ok)) = s := by
  induction n with
  | zero => rfl
  | succ n ih =>
    have hstep : s.step (.proceed t ok) = s := by simp only [step, proceed, hpc]
    rw [List.replicate_succ]
    show run step (s.step (.proceed t ok)) _ = s
    rw [hstep, ih]

theorem Inv.proceed (h : s.Inv) (ok : Bool) (hasks : (s.pc t).asks = false) :
    (s.proceed t ok).Inv := proceed_inv h ok fun hask => by
  rw [hasks] at hask
  cases hask

/-- From the choice of a slot to the end of the call. -/
theorem copied_to_idle (h : s.Inv) {f : CanFrame} {i : Fin 32} (hpc : s.pc t = .copying f i)
    (n : ℕ) (s' : TwaiNode τ)
    (hs' : s' = run step s (List.replicate (n + 5) (.proceed t true))) :
    s'.Inv ∧ s'.pc t = .idle ∧ s'.txLock = none ∧
      s'.driver = Function.update s.driver i (some f) := by
  have hcall : ∀ u, u = run step s (List.replicate 5 (.proceed t true)) →
      u.pc t = .idle ∧ u.txLock = none ∧ u.driver = Function.update s.driver i (some f) := by
    rintro u rfl
    simp [run, step, TwaiNode.proceed, setPc, hpc, List.replicate]
  have hinv : (run step s (List.replicate 5 (.proceed t true))).Inv := by
    have hheading := h.proceed (t := t) true (by rw [hpc]; rfl)
    have hmarking := hheading.proceed (t := t) true (by
      simp [TwaiNode.proceed, setPc, hpc, TransmitPc.asks])
    have hhanding := hmarking.proceed (t := t) true (by
      simp [TwaiNode.proceed, setPc, hpc, TransmitPc.asks])
    have hunlocking := hhanding.proceed (t := t) true (by
      simp [TwaiNode.proceed, setPc, hpc, TransmitPc.asks])
    exact hunlocking.proceed (t := t) true (by
      simp [TwaiNode.proceed, setPc, hpc, TransmitPc.asks])
  have hsplit : s' = run step (run step s (List.replicate 5 (.proceed t true)))
      (List.replicate n (.proceed t true)) := by
    rw [hs', Nat.add_comm, List.replicate_add]
    exact List.foldl_append
  rw [hsplit, idle_stays true (hcall _ rfl).1]
  exact ⟨hinv, hcall _ rfl⟩

/-- Slots are not lost for good: where the driver holds nothing and no call is
under way, a call left to itself gets a slot and hands its frame over. -/
theorem transmit_succeeds (slots : Fin 32 → TxSlot) (txQueueDepth : BitVec 32)
    (actions : List (TwaiAction τ))
    (htruth : ∀ e ∈ history step (start slots txQueueDepth) actions, Truthful e.1 e.2)
    (s : TwaiNode τ) (hs : s = run step (start slots txQueueDepth) actions)
    (hdepth : txQueueDepth ≠ allOnes 32) (hlock : s.txLock = none)
    (hempty : ∀ i, s.driver i = none) (t : τ) (hidle : s.pc t = .idle) (f : CanFrame)
    (hdlc : f.dlc.toNat ≤ 8) (s' : TwaiNode τ)
    (hs' : s' = run step s (.transmit t f :: List.replicate 9 (.proceed t true))) :
    s'.pc t = .idle ∧ s'.txLock = none ∧
      ∃ i, s'.driver = Function.update s.driver i (some f) ∧ (s'.slots i).wire = f.wire := by
  have hcount : 0 < s.slotCount := by
    have hkept : s.slotCount = (start (τ := τ) slots txQueueDepth).slotCount := by
      rw [hs]
      exact run_invariant step (I := fun u => u.slotCount = (start slots txQueueDepth).slotCount)
        (P := fun _ _ => True) (start slots txQueueDepth) rfl
        (fun u a hu _ => (slotCount_step a).trans hu) actions (fun _ _ => trivial)
    rw [hkept]
    exact twaiSlotCount_pos hdepth
  have hinv : s.Inv := hs ▸ reached_inv slots txQueueDepth actions htruth
  -- it suffices to reach a slot with the driver still empty
  have hend : ∀ (u : TwaiNode τ) (i : Fin 32) (n : ℕ), u.Inv → u.pc t = .copying f i →
      u.driver = s.driver → s' = run step u (List.replicate (n + 5) (.proceed t true)) →
      s'.pc t = .idle ∧ s'.txLock = none ∧
        ∃ i, s'.driver = Function.update s.driver i (some f) ∧ (s'.slots i).wire = f.wire := by
    intro u i n hu hpc hdriver hrun
    obtain ⟨hinv', hidle', hlock', hdriver'⟩ := copied_to_idle hu hpc n s' hrun
    rw [hdriver] at hdriver'
    exact ⟨hidle', hlock', i, hdriver', hinv'.lending.intact i f.wire (by simp [lending, hdriver'])⟩
  let u : TwaiNode τ := { s with txLock := some t }.setPc t (.searching f)
  have hu : u.pc t = .searching f := by simp [u, setPc]
  have huinv : u.Inv := by
    have hlocking := transmit_inv hinv hidle f
    have hsearching := lock_inv (t := t) (f := f) hlocking (by simp [setPc]) hlock
    simpa [u, setPc] using hsearching
  have hlocked : s' = run step (u.pick t f u.freeSlots (.exhausted f))
      (List.replicate 7 (.proceed t true)) := by
    rw [hs']
    simp [u, run, step, TwaiNode.proceed, setPc, hidle, hdlc, hlock, List.replicate, freeSlots]
  have hpicked : (u.pick t f u.freeSlots (.exhausted f)).Inv :=
    pick_inv huinv (by rfl) (by rw [hu]; rfl) freeSlots_free rfl rfl trivial
  unfold pick at hlocked hpicked
  cases hfind : lowestSlot u.freeSlots with
  | some i =>
    rw [hfind] at hlocked hpicked
    exact hend _ i 2 hpicked (by simp [setPc]) rfl hlocked
  | none =>
    rw [hfind] at hlocked hpicked
    -- every slot is marked though the driver holds none
    let v : TwaiNode τ := (u.setPc t (.exhausted f)).setPc t (.reclaiming f)
    have hv : v.pc t = .reclaiming f := by simp [v, setPc]
    have hvinv : v.Inv := by
      have hreclaiming := proceed_inv (t := t) hpicked true (fun _ _ => hempty)
      simpa [v, TwaiNode.proceed, setPc] using hreclaiming
    have hrun : s' = run step (v.proceed t true) (List.replicate 5 (.proceed t true)) := by
      rw [hlocked]
      simp [v, run, step, TwaiNode.proceed, setPc, List.replicate]
    obtain ⟨i, hi⟩ : ∃ i, lowestSlot (allSlots v.slotCount) = some i := by
      cases hnone : lowestSlot (allSlots v.slotCount) with
      | some i => exact ⟨i, rfl⟩
      | none =>
        have hzero := lowestSlot_none hnone 0
        rw [(has_allSlots v.slotCount 0).mpr hcount] at hzero
        cases hzero
    refine hend (v.proceed t true) i 0 (hvinv.proceed true (by rw [hv]; rfl)) ?_ ?_ hrun
    · simp [TwaiNode.proceed, hv, pick, hi, setPc]
    · simp only [TwaiNode.proceed, hv, pick, hi]
      rfl

/-- The only slot is lost at a bus-off and taken back by the next call. -/
theorem transmit_succeeds_dropped :
    ∃ i, (run step (run step (start blankSlots 0#32) (.transmit true isoRequest ::
        List.replicate 7 (.proceed true true) ++ [.drop 0]))
      (.transmit true switchBank :: List.replicate 9 (.proceed true true))).driver i =
        some switchBank := by
  obtain ⟨-, -, i, hdriver, -⟩ := transmit_succeeds blankSlots 0#32
    (.transmit true isoRequest :: List.replicate 7 (.proceed true true) ++ [.drop 0])
    (by decide +kernel) _ rfl (by decide) (by decide +kernel) (by decide +kernel) true
    (by decide +kernel) switchBank (by decide) _ rfl
  exact ⟨i, by rw [hdriver, Function.update_self]⟩

end TwaiNode
end RelayBoard
