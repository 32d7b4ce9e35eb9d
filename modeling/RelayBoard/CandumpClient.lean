import RelayBoard.Candump
import RelayBoard.Lib.Lines

/-!
# A connection of the candump server

`client_task` of `candump_tcp_server.cpp` serves one connection: it packs the
frames of its queue as lines into a buffer, sends the buffer when it has no more
room or is 20 ms old, and puts the frames of the lines it reads on the bus. The
receiver's task queues frames between any two of its steps, and a send may take
only a part of the buffer.
-/

set_option autoImplicit false

namespace RelayBoard
open Lib.Runs Lib.BoundedQueue Lib.Lines Lib.Scanning

inductive SendResult where
  | took (n : ℕ)
  | again
  | failed

inductive RecvResult where
  | bytes (bs : List Byte)
  | timeout
  | closed

structure CandumpConfig where
  interfaceName : List Byte
  flushTicks : BitVec 32

structure ClientIo where
  now : Timeval
  tick : BitVec 32
  send : SendResult
  recv : RecvResult
  running : Bool

/-- Where the task stands. `making` is the flush that has to make room for a
line; `overrun` is a write past the end of the buffer. -/
inductive ClientPc where
  | draining
  | making (line : List Byte)
  | flushing
  | receiving
  | closed
  | overrun

def ClientPc.serving : ClientPc → Bool
  | .closed => false
  | .overrun => false
  | _ => true

/-- `sent` is everything the socket took, `transmitted` what the transmitter was
given. -/
structure CandumpClient where
  queue : List CanMessage
  txBuf : List Byte
  lastFlush : BitVec 32
  lineBuf : List Byte
  pc : ClientPc
  sent : List Byte
  transmitted : List CanFrame

inductive ClientAction where
  | onFrame (m : CanMessage) (locked : Bool)
  | proceed (io : ClientIo)

def clientQueueDepth : ℕ := 128
def encodeBufSize : ℕ := 128
def kTxBufSize : ℕ := 2560
def lineBufSize : ℕ := 128
def newline : Byte := 0x0a#8

/-- `candump_resync_offset`. -/
def candumpResyncOffset (buf : List Byte) (sent : ℕ) : ℕ :=
  if buf.length ≤ sent then buf.length
  else if sent = 0 ∨ buf[sent - 1]? = some newline then sent
  else match (buf.drop sent).findIdx? (· = newline) with
    | none => buf.length
    | some k => sent + k + 1

/-- `CanMessage tx_msg = {}`. -/
def CanMessage.empty : CanMessage := ⟨⟨0#32, true, false, 0#8, fun _ => 0#8⟩, 0#64⟩

/-- The frame of a line that is decoded, if it has one. -/
def lineFrames (line : List Byte) : List CanFrame :=
  match candumpDecode (terminated line) .empty with
  | some (true, m) => [m.frame]
  | _ => []

namespace CandumpClient

def start (tick : BitVec 32) : CandumpClient where
  queue := []
  txBuf := []
  lastFlush := tick
  lineBuf := []
  pc := .draining
  sent := []
  transmitted := []

/-- `flush_tx`, none where the connection is given up. -/
def flushTx (result : SendResult) (tick : BitVec 32) (c : CandumpClient) : Option CandumpClient :=
  if c.txBuf = [] then some c
  else match result with
    | .failed => none
    | .again => some { c with txBuf := [], lastFlush := tick }
    | .took n =>
      some { c with
        sent := c.sent ++ c.txBuf.take n
        txBuf := c.txBuf.drop (candumpResyncOffset c.txBuf n)
        lastFlush := tick }

/-- `memcpy(tx_buf + tx_len, encode_buf, n)`. -/
def append (line : List Byte) (c : CandumpClient) : CandumpClient :=
  if kTxBufSize < c.txBuf.length + line.length then { c with pc := .overrun }
  else { c with txBuf := c.txBuf ++ line, pc := .draining }

/-- A frame taken from the queue. -/
def pack (cfg : CandumpConfig) (now : Timeval) (m : CanMessage) (c : CandumpClient) :
    CandumpClient :=
  match candumpEncode now m cfg.interfaceName encodeBufSize with
  | none => c
  | some line =>
    if kTxBufSize < c.txBuf.length + line.length then { c with pc := .making line }
    else c.append line

def lineByte (c : CandumpClient) (b : Byte) : CandumpClient :=
  if b = newline ∨ lineBufSize - 1 ≤ c.lineBuf.length then
    { c with lineBuf := [], transmitted := c.transmitted ++ lineFrames c.lineBuf }
  else { c with lineBuf := c.lineBuf ++ [b] }

def due (cfg : CandumpConfig) (tick : BitVec 32) (c : CandumpClient) : Prop :=
  c.txBuf ≠ [] ∧ cfg.flushTicks ≤ tick - c.lastFlush

instance (cfg : CandumpConfig) (tick : BitVec 32) (c : CandumpClient) :
    Decidable (c.due cfg tick) :=
  inferInstanceAs (Decidable (_ ∧ _))

def again (running : Bool) (c : CandumpClient) : CandumpClient :=
  { c with pc := if running then .draining else .closed }

def proceed (cfg : CandumpConfig) (io : ClientIo) (c : CandumpClient) : CandumpClient :=
  match c.pc with
  | .draining =>
    match c.queue with
    | [] => { c with pc := .flushing }
    | m :: rest => { c with queue := rest }.pack cfg io.now m
  | .making line =>
    match c.flushTx io.send io.tick with
    | none => { c with pc := .closed }
    | some c => c.append line
  | .flushing =>
    if c.due cfg io.tick then
      match c.flushTx io.send io.tick with
      | none => { c with pc := .closed }
      | some c => { c with pc := .receiving }
    else { c with pc := .receiving }
  | .receiving =>
    match io.recv with
    | .bytes bs => (bs.foldl lineByte c).again io.running
    | .timeout => c.again io.running
    | .closed => { c with pc := .closed }
  | .closed => c
  | .overrun => c

def step (cfg : CandumpConfig) (c : CandumpClient) : ClientAction → CandumpClient
  | .onFrame m locked =>
    if locked && c.pc.serving then { c with queue := send clientQueueDepth m c.queue } else c
  | .proceed io => c.proceed cfg io

def Flushes (cfg : CandumpConfig) (io : ClientIo) (c : CandumpClient) : Prop :=
  (∃ line, c.pc = .making line) ∨ c.pc = .flushing ∧ c.due cfg io.tick

inductive Stepped (cfg : CandumpConfig) (c : CandumpClient) : ClientAction → CandumpClient → Prop
  | queued (m : CanMessage) (hserving : c.pc.serving = true) :
    Stepped cfg c (.onFrame m true) { c with queue := send clientQueueDepth m c.queue }
  | ignored (m : CanMessage) (locked : Bool) (h : (locked && c.pc.serving) = false) :
    Stepped cfg c (.onFrame m locked) c
  | drained (io : ClientIo) (hpc : c.pc = .draining) (hqueue : c.queue = []) :
    Stepped cfg c (.proceed io) { c with queue := [], pc := .flushing }
  | skipped (io : ClientIo) (m : CanMessage) (rest : List CanMessage) (hpc : c.pc = .draining)
    (hqueue : c.queue = m :: rest)
    (hline : candumpEncode io.now m cfg.interfaceName encodeBufSize = none) :
    Stepped cfg c (.proceed io) { c with queue := rest, pc := .draining }
  | packed (io : ClientIo) (m : CanMessage) (rest : List CanMessage) (line : List Byte)
    (hpc : c.pc = .draining) (hqueue : c.queue = m :: rest)
    (hline : candumpEncode io.now m cfg.interfaceName encodeBufSize = some line)
    (hroom : c.txBuf.length + line.length ≤ kTxBufSize) :
    Stepped cfg c (.proceed io) { c with queue := rest, txBuf := c.txBuf ++ line, pc := .draining }
  | full (io : ClientIo) (m : CanMessage) (rest : List CanMessage) (line : List Byte)
    (hpc : c.pc = .draining) (hqueue : c.queue = m :: rest)
    (hline : candumpEncode io.now m cfg.interfaceName encodeBufSize = some line)
    (hfull : kTxBufSize < c.txBuf.length + line.length) :
    Stepped cfg c (.proceed io) { c with queue := rest, pc := .making line }
  | made (io : ClientIo) (line : List Byte) (c' : CandumpClient) (hpc : c.pc = .making line)
    (hflush : c.flushTx io.send io.tick = some c')
    (hroom : c'.txBuf.length + line.length ≤ kTxBufSize) :
    Stepped cfg c (.proceed io) { c' with txBuf := c'.txBuf ++ line, pc := .draining }
  | overran (io : ClientIo) (line : List Byte) (c' : CandumpClient) (hpc : c.pc = .making line)
    (hflush : c.flushTx io.send io.tick = some c')
    (hfull : kTxBufSize < c'.txBuf.length + line.length) :
    Stepped cfg c (.proceed io) { c' with pc := .overrun }
  | gaveUp (io : ClientIo) (hpc : Flushes cfg io c)
    (hflush : c.flushTx io.send io.tick = none) :
    Stepped cfg c (.proceed io) { c with pc := .closed }
  | flushed (io : ClientIo) (c' : CandumpClient) (hpc : c.pc = .flushing)
    (hdue : c.due cfg io.tick) (hflush : c.flushTx io.send io.tick = some c') :
    Stepped cfg c (.proceed io) { c' with pc := .receiving }
  | early (io : ClientIo) (hpc : c.pc = .flushing) (hdue : ¬c.due cfg io.tick) :
    Stepped cfg c (.proceed io) { c with pc := .receiving }
  | received (io : ClientIo) (bs : List Byte) (hpc : c.pc = .receiving)
    (hrecv : io.recv = .bytes bs) :
    Stepped cfg c (.proceed io) ((bs.foldl lineByte c).again io.running)
  | waited (io : ClientIo) (hpc : c.pc = .receiving) (hrecv : io.recv = .timeout) :
    Stepped cfg c (.proceed io) (c.again io.running)
  | left (io : ClientIo) (hpc : c.pc = .receiving) (hrecv : io.recv = .closed) :
    Stepped cfg c (.proceed io) { c with pc := .closed }
  | gone (io : ClientIo) (hpc : c.pc.serving = false) : Stepped cfg c (.proceed io) c

theorem step_stepped (cfg : CandumpConfig) (c : CandumpClient) (a : ClientAction) :
    Stepped cfg c a (step cfg c a) := by
  cases a with
  | onFrame m locked =>
    by_cases h : (locked && c.pc.serving) = true
    · obtain ⟨rfl, hserving⟩ := Bool.and_eq_true_iff.mp h
      rw [step, if_pos h]
      exact .queued m hserving
    · rw [step, if_neg h]
      exact .ignored m locked (Bool.eq_false_iff.mpr h)
  | proceed io =>
    rw [step, proceed]
    cases hpc : c.pc with
    | draining =>
      cases hqueue : c.queue with
      | nil => exact .drained io hpc hqueue
      | cons m rest =>
        dsimp only [pack]
        cases hline : candumpEncode io.now m cfg.interfaceName encodeBufSize with
        | none => exact .skipped io m rest hpc hqueue hline
        | some line =>
          by_cases hfull : kTxBufSize < c.txBuf.length + line.length
          · dsimp only
            rw [if_pos hfull]
            exact .full io m rest line hpc hqueue hline hfull
          · dsimp only [append]
            rw [if_neg hfull, if_neg hfull]
            exact .packed io m rest line hpc hqueue hline (not_lt.mp hfull)
    | making line =>
      cases hflush : c.flushTx io.send io.tick with
      | none => exact .gaveUp io (.inl ⟨line, hpc⟩) hflush
      | some c' =>
        dsimp only [append]
        split_ifs with hfull
        · exact .overran io line c' hpc hflush hfull
        · exact .made io line c' hpc hflush (not_lt.mp hfull)
    | flushing =>
      by_cases hdue : c.due cfg io.tick
      · dsimp only
        rw [if_pos hdue]
        cases hflush : c.flushTx io.send io.tick with
        | none => exact .gaveUp io (.inr ⟨hpc, hdue⟩) hflush
        | some c' => exact .flushed io c' hpc hdue hflush
      · dsimp only
        rw [if_neg hdue]
        exact .early io hpc hdue
    | receiving =>
      cases hrecv : io.recv with
      | bytes bs => exact .received io bs hpc hrecv
      | timeout => exact .waited io hpc hrecv
      | closed => exact .left io hpc hrecv
    | closed => exact .gone io (by rw [hpc]; rfl)
    | overrun => exact .gone io (by rw [hpc]; rfl)

section Bounds

variable {cfg : CandumpConfig} {c c' : CandumpClient} {a : ClientAction}

structure InBounds (c : CandumpClient) : Prop where
  txBuf : c.txBuf.length ≤ kTxBufSize
  lineBuf : c.lineBuf.length < lineBufSize
  queue : c.queue.length ≤ clientQueueDepth
  making : ∀ line, c.pc = .making line → line.length < encodeBufSize

/-- A send that has to make room for a line leaves too little. -/
def Overruns (c : CandumpClient) (a : ClientAction) : Prop :=
  ∃ io line n, a = .proceed io ∧ c.pc = .making line ∧ io.send = .took n ∧ c.txBuf ≠ [] ∧
    kTxBufSize < c.txBuf.length - candumpResyncOffset c.txBuf n + line.length

theorem candumpResyncOffset_ge (buf : List Byte) (n : ℕ) :
    min n buf.length ≤ candumpResyncOffset buf n := by
  unfold candumpResyncOffset
  split_ifs with hlen hwhole
  · exact min_le_right _ _
  · exact min_le_left _ _
  · cases (buf.drop n).findIdx? (· = newline) with
    | none => exact min_le_right _ _
    | some k =>
      refine (min_le_left _ _).trans ?_
      dsimp only
      omega

theorem Overruns.short (h : InBounds c) (ho : Overruns c a) : ∃ io line n, a = .proceed io ∧
    c.pc = .making line ∧ io.send = .took n ∧ n < line.length ∧ line.length < encodeBufSize := by
  obtain ⟨io, line, n, ha, hpc, hsend, -, hfull⟩ := ho
  have hline := h.making line hpc
  have hresync := candumpResyncOffset_ge c.txBuf n
  have hlen := h.txBuf
  refine ⟨io, line, n, ha, hpc, hsend, ?_, hline⟩
  unfold encodeBufSize at hline
  unfold kTxBufSize at hfull hlen
  omega

theorem encode_short {now : Timeval} {m : CanMessage} {line : List Byte}
    (h : candumpEncode now m cfg.interfaceName encodeBufSize = some line) :
    line.length < encodeBufSize := by
  unfold candumpEncode at h
  dsimp only at h
  split_ifs at h with hlen
  obtain rfl := Option.some.inj h
  exact not_le.mp hlen

theorem flushTx_cases {result : SendResult} {tick : BitVec 32}
    (h : c.flushTx result tick = some c') :
    c.txBuf = [] ∧ c' = c ∨
    c.txBuf ≠ [] ∧ result = .again ∧ c' = { c with txBuf := [], lastFlush := tick } ∨
    c.txBuf ≠ [] ∧ ∃ n, result = .took n ∧ c' = { c with
      sent := c.sent ++ c.txBuf.take n
      txBuf := c.txBuf.drop (candumpResyncOffset c.txBuf n)
      lastFlush := tick } := by
  unfold flushTx at h
  split_ifs at h with hempty
  · exact .inl ⟨hempty, (Option.some.inj h).symm⟩
  · cases result with
    | took n => exact .inr (.inr ⟨hempty, n, rfl, (Option.some.inj h).symm⟩)
    | again => exact .inr (.inl ⟨hempty, rfl, (Option.some.inj h).symm⟩)
    | failed => cases h

theorem flushTx_bounds {result : SendResult} {tick : BitVec 32}
    (hflush : c.flushTx result tick = some c') : c'.txBuf.length ≤ c.txBuf.length ∧
      c'.lineBuf = c.lineBuf ∧ c'.queue = c.queue ∧ c'.pc = c.pc := by
  rcases flushTx_cases hflush with ⟨-, rfl⟩ | ⟨-, -, rfl⟩ | ⟨-, n, -, rfl⟩
  · exact ⟨le_rfl, rfl, rfl, rfl⟩
  · exact ⟨Nat.zero_le _, rfl, rfl, rfl⟩
  · exact ⟨List.length_drop ▸ Nat.sub_le _ _, rfl, rfl, rfl⟩

theorem received_bounds (h : InBounds c) (bs : List Byte) : InBounds (bs.foldl lineByte c) := by
  induction bs generalizing c with
  | nil => exact h
  | cons b bs ih =>
    refine ih ?_
    unfold lineByte
    split_ifs with hgive
    · exact ⟨h.txBuf, (by decide : 0 < lineBufSize), h.queue, h.making⟩
    · rw [not_or, not_le] at hgive
      refine ⟨h.txBuf, ?_, h.queue, h.making⟩
      rw [List.length_append, List.length_singleton]
      omega

theorem again_bounds (h : InBounds c) (running : Bool) : InBounds (c.again running) :=
  ⟨h.txBuf, h.lineBuf, h.queue, fun l hl => by cases running <;> cases hl⟩

theorem Stepped.bounds (h : InBounds c) (hs : Stepped cfg c a c') : InBounds c' := by
  have hqueue : ∀ {m : CanMessage} {rest}, c.queue = m :: rest →
      rest.length ≤ clientQueueDepth := by
    intro m rest hq
    have hlen := h.queue
    rw [hq, List.length_cons] at hlen
    exact (Nat.le_succ _).trans hlen
  cases hs with
  | queued m _ => exact ⟨h.txBuf, h.lineBuf, length_send_le m h.queue, h.making⟩
  | ignored => exact h
  | drained => exact ⟨h.txBuf, h.lineBuf, Nat.zero_le _, fun l hl => by cases hl⟩
  | skipped _ _ _ _ hq _ => exact ⟨h.txBuf, h.lineBuf, hqueue hq, fun l hl => by cases hl⟩
  | packed _ _ _ line _ hq _ hroom =>
    exact ⟨List.length_append ▸ hroom, h.lineBuf, hqueue hq, fun l hl => by cases hl⟩
  | full _ _ _ line _ hq hline _ =>
    refine ⟨h.txBuf, h.lineBuf, hqueue hq, fun l hl => ?_⟩
    obtain rfl := ClientPc.making.inj hl
    exact encode_short hline
  | made _ line c' _ hflush hroom =>
    obtain ⟨-, hlineBuf, hq, -⟩ := flushTx_bounds hflush
    exact ⟨List.length_append ▸ hroom, hlineBuf ▸ h.lineBuf, hq ▸ h.queue, fun l hl => by cases hl⟩
  | overran _ line c' _ hflush _ =>
    obtain ⟨htx, hlineBuf, hq, -⟩ := flushTx_bounds hflush
    exact ⟨htx.trans h.txBuf, hlineBuf ▸ h.lineBuf, hq ▸ h.queue, fun l hl => by cases hl⟩
  | gaveUp => exact ⟨h.txBuf, h.lineBuf, h.queue, fun l hl => by cases hl⟩
  | flushed _ c' _ _ hflush =>
    obtain ⟨htx, hlineBuf, hq, -⟩ := flushTx_bounds hflush
    exact ⟨htx.trans h.txBuf, hlineBuf ▸ h.lineBuf, hq ▸ h.queue, fun l hl => by cases hl⟩
  | early => exact ⟨h.txBuf, h.lineBuf, h.queue, fun l hl => by cases hl⟩
  | received io bs _ _ => exact again_bounds (received_bounds h bs) io.running
  | waited io _ _ => exact again_bounds h io.running
  | left => exact ⟨h.txBuf, h.lineBuf, h.queue, fun l hl => by cases hl⟩
  | gone => exact h

/-- The buffer is overrun by such a send and by nothing else. -/
theorem Stepped.overrun_iff (h : InBounds c) (hs : Stepped cfg c a c') :
    c'.pc = .overrun ↔ c.pc = .overrun ∨ Overruns c a := by
  have helse : (∀ line, c.pc ≠ .making line) → (c'.pc = .overrun ↔ c.pc = .overrun) →
      (c'.pc = .overrun ↔ c.pc = .overrun ∨ Overruns c a) := by
    intro hpc hiff
    rw [hiff, or_iff_left]
    rintro ⟨_, line, _, -, hmaking, -⟩
    exact hpc line hmaking
  cases hs with
  | queued m _ =>
    refine (or_iff_left ?_).symm
    rintro ⟨io, _, _, hio, -⟩
    cases hio
  | ignored m _ _ =>
    refine (or_iff_left ?_).symm
    rintro ⟨io, _, _, hio, -⟩
    cases hio
  | drained _ hpc _ => exact helse (by simp [hpc]) (by simp [hpc])
  | skipped _ _ _ hpc _ _ => exact helse (by simp [hpc]) (by simp [hpc])
  | packed _ _ _ _ hpc _ _ _ => exact helse (by simp [hpc]) (by simp [hpc])
  | full _ _ _ _ hpc _ _ _ => exact helse (by simp [hpc]) (by simp [hpc])
  | made io line c' hpc hflush hroom =>
    refine iff_of_false (by simp) ?_
    rintro (hover | ⟨_, line', n, hio, hpc', hsend, hne, hfull⟩)
    · rw [hpc] at hover
      cases hover
    · obtain rfl := ClientAction.proceed.inj hio
      obtain rfl := ClientPc.making.inj (hpc.symm.trans hpc')
      rcases flushTx_cases hflush with ⟨hnil, -⟩ | ⟨-, hagain, -⟩ | ⟨-, k, htook, rfl⟩
      · exact hne hnil
      · rw [hsend] at hagain
        cases hagain
      · obtain rfl := SendResult.took.inj (hsend.symm.trans htook)
        rw [List.length_drop] at hroom
        omega
  | overran io line c' hpc hflush hfull =>
    refine iff_of_true rfl (.inr ?_)
    have hline : line.length < encodeBufSize := h.making line hpc
    have hsmall : ¬kTxBufSize < ([] : List Byte).length + line.length := by
      unfold kTxBufSize
      unfold encodeBufSize at hline
      rw [List.length_nil]
      omega
    rcases flushTx_cases hflush with ⟨hnil, rfl⟩ | ⟨-, -, rfl⟩ | ⟨hne, n, htook, rfl⟩
    · rw [hnil] at hfull
      exact absurd hfull hsmall
    · exact absurd hfull hsmall
    · exact ⟨io, line, n, rfl, hpc, htook, hne, by rwa [List.length_drop] at hfull⟩
  | gaveUp io hpc hflush =>
    refine iff_of_false (by simp) ?_
    rintro (hover | ⟨_, line, n, hio, -, hsend, hne, -⟩)
    · rcases hpc with ⟨line, hpc⟩ | ⟨hpc, -⟩ <;>
      · rw [hpc] at hover
        cases hover
    · obtain rfl := ClientAction.proceed.inj hio
      simp [flushTx, hne, hsend] at hflush
  | flushed _ c' hpc _ _ => exact helse (by simp [hpc]) (by simp [hpc])
  | early _ hpc _ => exact helse (by simp [hpc]) (by simp [hpc])
  | received io bs hpc _ =>
    refine helse (by simp [hpc]) (iff_of_false ?_ (by simp [hpc]))
    unfold again
    cases io.running <;> simp
  | waited io hpc _ =>
    refine helse (by simp [hpc]) (iff_of_false ?_ (by simp [hpc]))
    unfold again
    cases io.running <;> simp
  | left _ hpc _ => exact helse (by simp [hpc]) (by simp [hpc])
  | gone _ hpc =>
    refine helse (fun line hline => ?_) Iff.rfl
    rw [hline] at hpc
    cases hpc

theorem run_bounds (cfg : CandumpConfig) (tick : BitVec 32) (as : List ClientAction) :
    InBounds (run (step cfg) (start tick) as) :=
  run_invariant (step cfg) (P := fun _ _ => True) (start tick)
    ⟨Nat.zero_le _, (by decide : 0 < lineBufSize), Nat.zero_le _, fun l hl => by cases hl⟩
    (fun c a h _ => Stepped.bounds h (step_stepped cfg c a)) as (fun _ _ => trivial)

/-- The buffers of a connection are never written past their end, whatever comes
from the network, but for one write: where the buffer has to make room for a
line, and the send takes only a part of it that leaves less than the line needs
(so fewer bytes than the line has), the line goes past the end. -/
theorem client_stays_in_bounds (cfg : CandumpConfig) (tick : BitVec 32) (as : List ClientAction) :
    let c := run (step cfg) (start tick) as
    (c.txBuf.length ≤ kTxBufSize ∧ c.lineBuf.length < lineBufSize ∧
      c.queue.length ≤ clientQueueDepth ∧
      ∀ out, ∃ result, candumpDecode (terminated c.lineBuf) out = some result) ∧
    (c.pc = .overrun ↔ ∃ e ∈ history (step cfg) (start tick) as, Overruns e.1 e.2) ∧
    ∀ e ∈ history (step cfg) (start tick) as, Overruns e.1 e.2 → ∃ io line n,
      e.2 = .proceed io ∧ e.1.pc = .making line ∧ io.send = .took n ∧ n < line.length ∧
        line.length < encodeBufSize := by
  have hbounds := run_bounds cfg tick
  refine ⟨⟨(hbounds as).txBuf, (hbounds as).lineBuf, (hbounds as).queue, fun out => ?_⟩, ?_, ?_⟩
  · obtain ⟨_, _, _, _, _, hdecode, -⟩ :=
      candumpDecode_terminated (run (step cfg) (start tick) as).lineBuf out
    exact ⟨_, hdecode⟩
  · induction as using List.reverseRecOn with
    | nil => simp [run, start]
    | append_singleton as a ih =>
      rw [run_snoc, Stepped.overrun_iff (hbounds as) (step_stepped cfg _ a), ih, history_snoc]
      simp [or_comm]
  · intro e he ho
    obtain ⟨js, ks, -, hrun⟩ := (mem_history_iff _ _ _ e).mp he
    rw [hrun] at ho ⊢
    exact ho.short (hbounds js)

end Bounds

end CandumpClient

end RelayBoard
