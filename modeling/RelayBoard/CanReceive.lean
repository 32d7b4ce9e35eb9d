import RelayBoard.Lib.BoundedQueue
import RelayBoard.TwaiNode

/-!
# Frames on their way from the bus

From the node's interrupt to the NMEA 2000 library: `TwaiNode::on_rx_done`
queues a frame, `rx_task` takes it and calls the sink, the receiver's callback
queues it again for the library, and `CANGetFrame` takes it out there. The
interrupt and the two tasks take their steps in any order.
-/

set_option autoImplicit false

namespace RelayBoard
open BitVec Lib Lib.Runs Lib.BoundedQueue

/-- What `twai_node_receive_from_isr` fills in. -/
structure RxFrame where
  id : BitVec 32
  ide : Bool
  rtr : Bool
  dlc : BitVec 16
  data : Fin 8 → Byte

structure CanMessage where
  frame : CanFrame
  timestampUs : BitVec 64

/-- The item `on_rx_done` queues. -/
def RxFrame.message (rx : RxFrame) (now : BitVec 64) : CanMessage :=
  let dlc : Byte := if 8#16 < rx.dlc then 8#8 else rx.dlc.setWidth 8
  ⟨⟨rx.id, rx.ide, rx.rtr, dlc, fun k => if k.val < dlc.toNat then rx.data k else 0#8⟩, now⟩

/-- What `CANGetFrame` hands the library. -/
structure ParsedFrame where
  id : BitVec 32
  len : Byte
  buf : List Byte
  deriving DecidableEq

def CanFrame.parsed (f : CanFrame) : ParsedFrame :=
  ⟨f.id, f.dlc, (List.ofFn f.data).take f.dlc.toNat⟩

/-- `parsed` is everything the library has been given, `taken` the frame that
`rx_task` is about to call the sink with. -/
structure CanReceive where
  rxQueueDepth : ℕ
  rxQueue : List CanMessage
  framesRx : BitVec 32
  framesDropped : BitVec 32
  taken : Option CanMessage
  sinkSet : Bool
  lastRxUs : BitVec 64
  queue : List CanFrame
  rxSeen : Bool
  lastRxTick : BitVec 32
  parsed : List ParsedFrame

inductive CanReceiveAction where
  | rxDone (rx : RxFrame) (nowUs : BitVec 64)
  | take
  | hand
  | setSink (set : Bool)
  | getFrame (tick : BitVec 32)

/-- The library's queue in `CANOpen`. -/
def n2kQueueDepth : ℕ := 64

namespace CanReceive

def start (rxQueueDepth : ℕ) : CanReceive where
  rxQueueDepth := rxQueueDepth
  rxQueue := []
  framesRx := 0#32
  framesDropped := 0#32
  taken := none
  sinkSet := false
  lastRxUs := 0#64
  queue := []
  rxSeen := false
  lastRxTick := 0#32
  parsed := []

/-- `TwaiNode::on_rx_done`. -/
def onRxDone (m : CanMessage) (s : CanReceive) : CanReceive :=
  if s.rxQueue.length < s.rxQueueDepth then
    { s with
      rxQueue := send s.rxQueueDepth m s.rxQueue
      framesRx := s.framesRx + 1#32 }
  else { s with framesDropped := s.framesDropped + 1#32 }

/-- `TwaiReceiver::sink` with the callback set in `CANOpen`. -/
def sink (m : CanMessage) (s : CanReceive) : CanReceive :=
  { s with
    lastRxUs := m.timestampUs
    queue := send n2kQueueDepth m.frame s.queue }

/-- `CANGetFrame`. -/
def canGetFrame (tick : BitVec 32) (s : CanReceive) : CanReceive :=
  match s.queue with
  | [] => s
  | f :: rest =>
    { s with
      queue := rest
      rxSeen := true
      lastRxTick := tick
      parsed := s.parsed ++ [f.parsed] }

def step (s : CanReceive) : CanReceiveAction → CanReceive
  | .rxDone rx nowUs => s.onRxDone (rx.message nowUs)
  | .take =>
    match s.taken, s.rxQueue with
    | none, m :: rest => { s with rxQueue := rest, taken := some m }
    | _, _ => s
  | .hand =>
    match s.taken with
    | none => s
    | some m => if s.sinkSet then { s with taken := none }.sink m else { s with taken := none }
  | .setSink set => { s with sinkSet := set }
  | .getFrame tick => s.canGetFrame tick

def passed (s : CanReceive) : List ParsedFrame :=
  s.parsed ++ s.queue.map CanFrame.parsed ++
    s.taken.toList.map (fun m => m.frame.parsed) ++ s.rxQueue.map (fun m => m.frame.parsed)

def arrival : CanReceiveAction → List ParsedFrame
  | .rxDone rx nowUs => [(rx.message nowUs).frame.parsed]
  | .take => []
  | .hand => []
  | .setSink _ => []
  | .getFrame _ => []

def received (actions : List CanReceiveAction) : List ParsedFrame := actions.flatMap arrival

/-- A step at which no frame is lost. -/
def Lossless (s : CanReceive) : CanReceiveAction → Prop
  | .rxDone _ _ => s.rxQueue.length < s.rxQueueDepth
  | .hand => s.taken ≠ none → s.sinkSet = true ∧ s.queue.length < n2kQueueDepth
  | _ => True

theorem received_snoc (actions : List CanReceiveAction) (a : CanReceiveAction) :
    received (actions ++ [a]) = received actions ++ arrival a := by
  rw [received, List.flatMap_append, List.flatMap_singleton]
  rfl

variable {s : CanReceive}

theorem passed_onRxDone (m : CanMessage) :
    (s.onRxDone m).passed.Sublist (s.passed ++ [m.frame.parsed]) := by
  unfold onRxDone
  split_ifs with hlt
  · simp [passed, send_of_lt m hlt]
  · exact List.sublist_append_left _ _

theorem passed_hand_set (m : CanMessage) (h : s.taken = some m) :
    ({ s with taken := none }.sink m).passed.Sublist s.passed := by
  simp only [passed, sink, h, map_send, Option.toList_none, Option.toList_some, List.map_nil,
    List.map_cons, List.append_nil]
  refine List.Sublist.append_right ?_ _
  rw [List.append_assoc]
  exact (send_sublist n2kQueueDepth m.frame.parsed _).append_left s.parsed

theorem passed_hand_unset (m : CanMessage) (h : s.taken = some m) :
    ({ s with taken := none } : CanReceive).passed.Sublist s.passed := by
  simp only [passed, h, Option.toList_none, Option.toList_some, List.map_nil, List.append_nil]
  refine List.Sublist.append_right ?_ _
  exact List.sublist_append_left _ _

theorem passed_take (m : CanMessage) (rest : List CanMessage) (htaken : s.taken = none)
    (hqueue : s.rxQueue = m :: rest) :
    ({ s with rxQueue := rest, taken := some m } : CanReceive).passed = s.passed := by
  simp [passed, htaken, hqueue]

theorem passed_getFrame (tick : BitVec 32) : (s.canGetFrame tick).passed = s.passed := by
  unfold canGetFrame
  split
  · rfl
  · rename_i f rest hqueue
    simp [passed, hqueue]

theorem step_take : (s.step .take).passed = s.passed := by
  dsimp only [step]
  split
  · rename_i m rest htaken hqueue
    exact passed_take m rest htaken hqueue
  · rfl

theorem passed_step (a : CanReceiveAction) :
    (s.step a).passed.Sublist (s.passed ++ arrival a) := by
  cases a with
  | rxDone rx nowUs => exact passed_onRxDone _
  | take =>
    rw [arrival, List.append_nil, step_take]
  | hand =>
    rw [arrival, List.append_nil]
    dsimp only [step]
    split
    · exact List.Sublist.refl _
    · rename_i m htaken
      split_ifs
      · exact passed_hand_set m htaken
      · exact passed_hand_unset m htaken
  | setSink set =>
    rw [arrival, List.append_nil]
    exact List.Sublist.refl _
  | getFrame tick =>
    rw [arrival, List.append_nil, step, passed_getFrame]

theorem passed_lossless (a : CanReceiveAction) (h : s.Lossless a) :
    (s.step a).passed = s.passed ++ arrival a := by
  cases a with
  | rxDone rx nowUs =>
    have hlt : s.rxQueue.length < s.rxQueueDepth := h
    simp [step, onRxDone, hlt, send_of_lt, passed, arrival]
  | take => rw [arrival, List.append_nil, step_take]
  | hand =>
    rw [arrival, List.append_nil]
    dsimp only [step]
    split
    · rfl
    · rename_i m htaken
      obtain ⟨hset, hlt⟩ := h (by simp [htaken])
      rw [if_pos hset]
      simp [passed, sink, htaken, send_of_lt m.frame hlt]
  | setSink set => simp [step, arrival, passed]
  | getFrame tick => rw [arrival, List.append_nil, step, passed_getFrame]

structure Inv (arrived : List ParsedFrame) (s : CanReceive) : Prop where
  order : s.passed.Sublist arrived
  counted : s.framesRx + s.framesDropped = BitVec.ofNat 32 arrived.length
  rxQueue : s.rxQueue.length ≤ s.rxQueueDepth
  queue : s.queue.length ≤ n2kQueueDepth

theorem Inv.onRxDone {arrived : List ParsedFrame} (h : s.Inv arrived) (m : CanMessage) :
    (s.onRxDone m).Inv (arrived ++ [m.frame.parsed]) where
  order := passed_onRxDone m |>.trans (h.order.append_right _)
  counted := by
    have hlength : BitVec.ofNat 32 (arrived ++ [m.frame.parsed]).length =
        s.framesRx + s.framesDropped + 1#32 := by
      rw [h.counted, List.length_append, List.length_singleton, BitVec.ofNat_add]
    rw [hlength]
    unfold CanReceive.onRxDone
    split_ifs
    · rw [BitVec.add_assoc, BitVec.add_comm 1#32, ← BitVec.add_assoc]
    · exact (BitVec.add_assoc ..).symm
  rxQueue := by
    unfold CanReceive.onRxDone
    split_ifs
    · exact length_send_le m h.rxQueue
    · exact h.rxQueue
  queue := by
    unfold CanReceive.onRxDone
    split_ifs <;> exact h.queue

theorem Inv.step {arrived : List ParsedFrame} (h : s.Inv arrived) (a : CanReceiveAction) :
    (s.step a).Inv (arrived ++ arrival a) := by
  have horder := (passed_step (s := s) a).trans (h.order.append_right _)
  cases a with
  | rxDone rx nowUs => exact h.onRxDone _
  | take =>
    rw [arrival, List.append_nil] at horder ⊢
    revert horder
    dsimp only [CanReceive.step]
    split
    · rename_i m rest htaken hqueue
      intro horder
      have hlength := h.rxQueue
      rw [hqueue, List.length_cons] at hlength
      exact ⟨horder, h.counted, Nat.le_of_succ_le hlength, h.queue⟩
    · exact fun _ => h
  | hand =>
    rw [arrival, List.append_nil] at horder ⊢
    revert horder
    dsimp only [CanReceive.step]
    split
    · exact fun _ => h
    · rename_i m htaken
      split_ifs
      · exact fun horder => ⟨horder, h.counted, h.rxQueue, length_send_le m.frame h.queue⟩
      · exact fun horder => ⟨horder, h.counted, h.rxQueue, h.queue⟩
  | setSink set =>
    rw [arrival, List.append_nil] at horder ⊢
    exact ⟨horder, h.counted, h.rxQueue, h.queue⟩
  | getFrame tick =>
    rw [arrival, List.append_nil] at horder ⊢
    revert horder
    dsimp only [CanReceive.step, canGetFrame]
    split
    · exact fun _ => h
    · rename_i f rest hqueue
      intro horder
      have hlength := h.queue
      rw [hqueue, List.length_cons] at hlength
      exact ⟨horder, h.counted, h.rxQueue, Nat.le_of_succ_le hlength⟩

theorem run_inv (rxQueueDepth : ℕ) (actions : List CanReceiveAction) :
    (run step (start rxQueueDepth) actions).Inv (received actions) := by
  induction actions using List.reverseRecOn with
  | nil => exact ⟨List.Sublist.refl _, rfl, Nat.zero_le _, Nat.zero_le _⟩
  | append_singleton actions a ih =>
    rw [run_snoc, received_snoc]
    exact ih.step a

theorem message_len (rx : RxFrame) (nowUs : BitVec 64) :
    (rx.message nowUs).frame.parsed.len.toNat ≤ 8 ∧
      (rx.message nowUs).frame.parsed.buf.length = (rx.message nowUs).frame.parsed.len.toNat := by
  have hlen : (rx.message nowUs).frame.dlc.toNat ≤ 8 := by
    dsimp only [RxFrame.message]
    split_ifs with h
    · rfl
    · rw [BitVec.lt_def] at h
      rw [BitVec.toNat_setWidth]
      have h8 : (8#16).toNat = 8 := rfl
      omega
  refine ⟨hlen, ?_⟩
  rw [CanFrame.parsed, List.length_take, List.length_ofFn]
  exact min_eq_left hlen

theorem received_len {actions : List CanReceiveAction} {p : ParsedFrame}
    (h : p ∈ received actions) : p.len.toNat ≤ 8 ∧ p.buf.length = p.len.toNat := by
  obtain ⟨a, -, ha⟩ := List.mem_flatMap.mp h
  cases a with
  | rxDone rx nowUs =>
    obtain rfl := List.mem_singleton.mp ha
    exact message_len rx nowUs
  | take => cases ha
  | hand => cases ha
  | setSink set => cases ha
  | getFrame tick => cases ha

def shortFrame (id : BitVec 32) : RxFrame := ⟨id, true, false, 2#16, fun _ => 0x5A#8⟩

/-- The second frame comes while the first is being handed on. -/
def twoFrames : List CanReceiveAction :=
  [.setSink true, .rxDone (shortFrame 1#32) 0#64, .take, .rxDone (shortFrame 2#32) 100#64, .hand,
    .getFrame 1#32, .take, .hand]

end CanReceive
end RelayBoard
