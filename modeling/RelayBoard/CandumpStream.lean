import RelayBoard.CandumpClient
import RelayBoard.Lib.Journal

/-!
# Frames from one gateway to another

What a connection of the candump server sends, and what another one makes of it
that reads it as it arrives. A send that stops inside a line leaves a part of it
on the stream, and the next line follows without a line's end between them.
-/

set_option autoImplicit false

namespace RelayBoard
open Lib.Runs Lib.Journal Lib.BoundedQueue Lib.Lines Lib.Scanning Lib.Numerals

def ClientPc.line : ClientPc → List Byte
  | .making line => line
  | _ => []

def ClientAction.offered : ClientAction → List CanMessage
  | .onFrame m _ => [m]
  | .proceed _ => []

namespace CandumpClient

section Sending

variable {cfg : CandumpConfig} {c c' : CandumpClient} {a : ClientAction}
  {offered : List CanMessage} {clean lossless : Prop}

def LineOf (cfg : CandumpConfig) (line : List Byte) (m : CanMessage) : Prop :=
  ∃ now, candumpEncode now m cfg.interfaceName encodeBufSize = some (line ++ [newline])

/-- A message's line with its end, or the beginning of it. -/
def PieceOf (cfg : CandumpConfig) (p : List Byte) (m : CanMessage) : Prop :=
  p ≠ [] ∧ ∃ line, LineOf cfg line m ∧ p <+: line ++ [newline]

/-- What has become of the frames: `gone` are on the stream as `pieces`, `kept`
in the buffer as `lines`, and `held` is on its way there. -/
structure Carried (cfg : CandumpConfig) (offered gone kept held : List CanMessage)
    (pieces lines more : List (List Byte)) (c : CandumpClient) : Prop where
  order : (gone ++ (kept ++ (held ++ c.queue))).Sublist offered
  sent : c.sent = pieces.flatten
  pieces : List.Forall₂ (PieceOf cfg) pieces gone
  txBuf : c.txBuf = ended newline lines
  lines : List.Forall₂ (LineOf cfg) lines kept
  line : c.pc.line = ended newline more
  more : List.Forall₂ (LineOf cfg) more held

/-- In a clean run the pieces are whole lines, and a lossless one keeps all
frames. -/
def Carries (cfg : CandumpConfig) (offered : List CanMessage) (clean lossless : Prop)
    (c : CandumpClient) : Prop :=
  ∃ gone kept held pieces lines more,
    Carried cfg offered gone kept held pieces lines more c ∧
    (clean → ∃ whole, pieces = whole.map (· ++ [newline]) ∧
      List.Forall₂ (LineOf cfg) whole gone) ∧
    (lossless → gone ++ (kept ++ (held ++ c.queue)) = offered)

/-- No send stops inside a line. -/
def CleanStep (cfg : CandumpConfig) (c : CandumpClient) (a : ClientAction) : Prop :=
  ∀ io n, a = .proceed io → Flushes cfg io c → io.send = .took n → Whole newline c.txBuf n

/-- Each frame is queued and encoded, and each send takes everything. -/
def LosslessStep (cfg : CandumpConfig) (c : CandumpClient) : ClientAction → Prop
  | .onFrame _ locked => locked = true ∧ c.pc.serving = true ∧ c.queue.length < clientQueueDepth
  | .proceed io => (Flushes cfg io c → ∃ n, io.send = .took n ∧ c.txBuf.length ≤ n) ∧
      ∀ m ∈ c.queue.head?, ∃ line,
        candumpEncode io.now m cfg.interfaceName encodeBufSize = some line

theorem LosslessStep.whole (h : LosslessStep cfg c a) : CleanStep cfg c a := by
  rintro io n rfl hflushes hsend
  obtain ⟨k, hk, hall⟩ := h.1 hflushes
  obtain rfl := SendResult.took.inj (hsend.symm.trans hk)
  exact .inl hall

theorem encode_line {now : Timeval} {m : CanMessage} {text : List Byte}
    (h : candumpEncode now m cfg.interfaceName encodeBufSize = some text) :
    text = candumpLine now m cfg.interfaceName ++ [newline] := by
  unfold candumpEncode at h
  dsimp only at h
  split_ifs at h
  exact (Option.some.inj h).symm

theorem LineOf.eq {line : List Byte} {m : CanMessage} (h : LineOf cfg line m) :
    (∃ now, line = candumpLine now m cfg.interfaceName) ∧ line.length < lineBufSize - 1 := by
  obtain ⟨now, hencode⟩ := h
  have hshort := encode_short hencode
  rw [List.length_append, List.length_singleton] at hshort
  exact ⟨⟨now, List.append_cancel_right (encode_line hencode)⟩, by
    unfold encodeBufSize at hshort
    unfold lineBufSize
    omega⟩

theorem LineOf.unbroken (hname : IfaceName cfg.interfaceName) {line : List Byte} {m : CanMessage}
    (h : LineOf cfg line m) : newline ∉ line := by
  obtain ⟨⟨now, rfl⟩, -⟩ := h.eq
  exact fun hmem => (candumpLine_unbroken hname _ hmem).2 rfl

theorem Carries.same (h : Carries cfg offered clean lossless c) {clean' lossless' : Prop}
    (hclean : clean' → clean) (hlossless : lossless' → lossless) (hqueue : c'.queue = c.queue)
    (hsent : c'.sent = c.sent) (htx : c'.txBuf = c.txBuf) (hline : c'.pc.line = c.pc.line) :
    Carries cfg offered clean' lossless' c' := by
  obtain ⟨gone, kept, held, pieces, lines, more, hc, hwhole, hall⟩ := h
  exact ⟨gone, kept, held, pieces, lines, more, ⟨hqueue ▸ hc.order, hsent ▸ hc.sent, hc.pieces,
    htx ▸ hc.txBuf, hc.lines, hline ▸ hc.line, hc.more⟩, fun h => hwhole (hclean h),
    fun h => hqueue ▸ hall (hlossless h)⟩

/-- A flush puts the first lines on the stream, the last of them perhaps in part. -/
theorem Carries.flush (hname : IfaceName cfg.interfaceName)
    (h : Carries cfg offered clean lossless c) {result : SendResult} {tick : BitVec 32}
    (hflush : c.flushTx result tick = some c') :
    Carries cfg offered (clean ∧ ∀ n, result = .took n → Whole newline c.txBuf n)
      (lossless ∧ ∃ n, result = .took n) c' := by
  rcases flushTx_cases hflush with ⟨-, rfl⟩ | ⟨-, rfl, rfl⟩ | ⟨-, n, rfl, rfl⟩
  · exact h.same And.left And.left rfl rfl rfl rfl
  · obtain ⟨gone, kept, held, pieces, lines, more, hc, hwhole, -⟩ := h
    refine ⟨gone, [], held, pieces, [], more, ⟨?_, hc.sent, hc.pieces, rfl, .nil, hc.line,
      hc.more⟩, fun h => hwhole h.1, fun ⟨_, n, hn⟩ => by cases hn⟩
    exact ((List.sublist_append_right kept _).append_left gone).trans hc.order
  · obtain ⟨gone, kept, held, pieces, lines, more, hc, hwhole, hall⟩ := h
    have hsep : ∀ l ∈ lines, newline ∉ l :=
      forall_of_forall₂ (fun _ _ h => LineOf.unbroken hname h) hc.lines
    obtain ⟨front, rest, cut, hsplit, hdrop, htake, hcut, hclean⟩ := resumeAt_ended lines hsep n
    have hlines := hc.lines
    rw [hsplit] at hlines
    obtain ⟨out, left, rfl, hout, hleft⟩ := forall₂_split hlines
    refine ⟨gone ++ out, left, held, pieces ++ cut, rest, more, ⟨?_, ?_, ?_, ?_, hleft, hc.line,
      hc.more⟩, fun ⟨hcl, hw⟩ => ?_, fun ⟨hl, _⟩ => ?_⟩
    · simpa only [List.append_assoc] using hc.order
    · show c.sent ++ c.txBuf.take n = (pieces ++ cut).flatten
      rw [hc.sent, hc.txBuf, htake, List.flatten_append]
    · refine List.rel_append hc.pieces (forall₂_comp ?_ hcut hout)
      exact fun p line m ⟨hne, hprefix⟩ hline => ⟨hne, line, hline, hprefix⟩
    · show c.txBuf.drop (candumpResyncOffset c.txBuf n) = _
      rw [hc.txBuf]
      exact hdrop
    · obtain ⟨whole, rfl, hgone⟩ := hwhole hcl
      have hw' := hw n rfl
      rw [hc.txBuf] at hw'
      exact ⟨whole ++ front, by rw [hclean hw', List.map_append], List.rel_append hgone hout⟩
    · simpa only [List.append_assoc] using hall hl

theorem Carried.noLine {gone kept held : List CanMessage} {pieces lines more : List (List Byte)}
    (hc : Carried cfg offered gone kept held pieces lines more c) (hpc : c.pc.line = []) :
    more = [] ∧ held = [] := by
  have hline := hc.line
  rw [hpc] at hline
  cases more with
  | nil => exact ⟨rfl, List.forall₂_nil_left_iff.mp hc.more⟩
  | cons l more => simp [ended_cons] at hline

/-- The line that is held is lost. -/
theorem Carries.lose (h : Carries cfg offered clean lossless c) {pc : ClientPc}
    (hpc : pc.line = []) {lossless' : Prop} (hlossless : ¬lossless') :
    Carries cfg offered clean lossless' { c with pc := pc } := by
  obtain ⟨gone, kept, held, pieces, lines, more, hc, hwhole, -⟩ := h
  refine ⟨gone, kept, [], pieces, lines, [], ⟨?_, hc.sent, hc.pieces, hc.txBuf, hc.lines, hpc,
    .nil⟩, hwhole, fun h => absurd h hlossless⟩
  exact (((List.sublist_append_right held _).append_left kept).append_left gone).trans hc.order

/-- A frame is taken from the queue, and its line held or put into the buffer. -/
theorem Carries.take (h : Carries cfg offered clean lossless c) (hpc : c.pc.line = [])
    {now : Timeval} {m : CanMessage} {rest : List CanMessage} {text : List Byte}
    (hqueue : c.queue = m :: rest)
    (hline : candumpEncode now m cfg.interfaceName encodeBufSize = some text) :
    Carries cfg offered clean lossless { c with queue := rest, pc := .making text } := by
  obtain ⟨gone, kept, held, pieces, lines, more, hc, hwhole, hall⟩ := h
  obtain ⟨rfl, rfl⟩ := hc.noLine hpc
  have horder : gone ++ (kept ++ ([m] ++ rest)) = gone ++ (kept ++ ([] ++ c.queue)) := by
    rw [hqueue]
    rfl
  have htext := encode_line hline
  refine ⟨gone, kept, [m], pieces, lines, [candumpLine now m cfg.interfaceName],
    ⟨horder ▸ hc.order, hc.sent, hc.pieces, hc.txBuf, hc.lines, ?_, .cons ⟨now, ?_⟩ .nil⟩, hwhole,
    fun h => horder ▸ hall h⟩
  · show text = _
    rw [htext]
    simp [ended_cons]
  · rw [← htext]
    exact hline

theorem Carries.put {line : List Byte} (h : Carries cfg offered clean lossless c)
    (hpc : c.pc = .making line) :
    Carries cfg offered clean lossless { c with txBuf := c.txBuf ++ line, pc := .draining } := by
  obtain ⟨gone, kept, held, pieces, lines, more, hc, hwhole, hall⟩ := h
  have hmore : line = ended newline more := by
    have hline := hc.line
    rwa [hpc] at hline
  have horder : gone ++ ((kept ++ held) ++ ([] ++ c.queue)) =
      gone ++ (kept ++ (held ++ c.queue)) := by
    rw [List.nil_append, List.append_assoc]
  refine ⟨gone, kept ++ held, [], pieces, lines ++ more, [], ⟨horder ▸ hc.order, hc.sent,
    hc.pieces, ?_, List.rel_append hc.lines hc.more, rfl, .nil⟩, hwhole, fun h => horder ▸ hall h⟩
  show c.txBuf ++ line = _
  rw [ended_append, hc.txBuf, hmore]

theorem Carries.queued (h : Carries cfg offered clean lossless c) (m : CanMessage) :
    Carries cfg (offered ++ [m]) clean (lossless ∧ c.queue.length < clientQueueDepth)
      { c with queue := send clientQueueDepth m c.queue } := by
  obtain ⟨gone, kept, held, pieces, lines, more, hc, hwhole, hall⟩ := h
  have hassoc : gone ++ (kept ++ (held ++ (c.queue ++ [m]))) =
      gone ++ (kept ++ (held ++ c.queue)) ++ [m] := by
    simp only [List.append_assoc]
  refine ⟨gone, kept, held, pieces, lines, more, ⟨?_, hc.sent, hc.pieces, hc.txBuf, hc.lines,
    hc.line, hc.more⟩, hwhole, fun ⟨hl, hroom⟩ => ?_⟩
  · refine List.Sublist.trans ?_ (hc.order.append_right [m])
    rw [← hassoc]
    exact (((send_sublist _ m _).append_left held).append_left kept).append_left gone
  · rw [send_of_lt m hroom, hassoc, hall hl]

theorem Carries.offer (h : Carries cfg offered clean lossless c) (more : List CanMessage)
    {lossless' : Prop} (hlossless : ¬lossless') :
    Carries cfg (offered ++ more) clean lossless' c := by
  obtain ⟨gone, kept, held, pieces, lines, rest, hc, hwhole, -⟩ := h
  exact ⟨gone, kept, held, pieces, lines, rest,
    ⟨hc.order.trans (List.sublist_append_left _ _), hc.sent, hc.pieces, hc.txBuf, hc.lines,
      hc.line, hc.more⟩, hwhole, fun h => absurd h hlossless⟩

theorem foldl_lineByte (c : CandumpClient) (bs : List Byte) :
    (bs.foldl lineByte c).queue = c.queue ∧ (bs.foldl lineByte c).sent = c.sent ∧
      (bs.foldl lineByte c).txBuf = c.txBuf ∧ (bs.foldl lineByte c).pc = c.pc := by
  induction bs generalizing c with
  | nil => exact ⟨rfl, rfl, rfl, rfl⟩
  | cons b bs ih =>
    obtain ⟨hqueue, hsent, htx, hpc⟩ := ih (c.lineByte b)
    rw [List.foldl_cons, hqueue, hsent, htx, hpc]
    unfold lineByte
    split_ifs
    · exact ⟨rfl, rfl, rfl, rfl⟩
    · exact ⟨rfl, rfl, rfl, rfl⟩

theorem again_line (c : CandumpClient) (running : Bool) : (c.again running).pc.line = [] := by
  cases running <;> rfl

theorem flushTx_all {n : ℕ} {tick : BitVec 32} (hflush : c.flushTx (.took n) tick = some c')
    (hall : c.txBuf.length ≤ n) : c'.txBuf = [] := by
  rcases flushTx_cases hflush with ⟨hnil, rfl⟩ | ⟨-, -, rfl⟩ | ⟨-, k, hk, rfl⟩
  · exact hnil
  · rfl
  · obtain rfl := SendResult.took.inj hk
    show c.txBuf.drop (candumpResyncOffset c.txBuf n) = []
    rw [candumpResyncOffset, if_pos hall, List.drop_length]

theorem Stepped.carries (hname : IfaceName cfg.interfaceName) (hbounds : InBounds c)
    (h : Carries cfg offered clean lossless c) (hs : Stepped cfg c a c') :
    Carries cfg (offered ++ a.offered) (clean ∧ CleanStep cfg c a)
      (lossless ∧ LosslessStep cfg c a) c' := by
  have hoffer : ∀ {io : ClientIo} {P Q : Prop} {d : CandumpClient}, Carries cfg offered P Q d →
      Carries cfg (offered ++ (ClientAction.proceed io).offered) P Q d := by
    intro io P Q d hd
    rwa [ClientAction.offered, List.append_nil]
  -- A flush, where the step is one.
  have hflush : ∀ {io : ClientIo} {d : CandumpClient}, Flushes cfg io c →
      c.flushTx io.send io.tick = some d →
      Carries cfg offered (clean ∧ CleanStep cfg c (.proceed io))
        (lossless ∧ LosslessStep cfg c (.proceed io)) d := by
    intro io d hdue hd
    refine (h.flush hname hd).same (fun ⟨hc, hw⟩ => ⟨hc, fun n hn => hw io n rfl hdue hn⟩)
      (fun ⟨hl, hstep⟩ => ⟨hl, ?_⟩) rfl rfl rfl rfl
    obtain ⟨n, hn, -⟩ := hstep.1 hdue
    exact ⟨n, hn⟩
  cases hs with
  | queued m hserving =>
    exact (h.queued m).same And.left (fun ⟨hl, _, _, hroom⟩ => ⟨hl, hroom⟩) rfl rfl rfl rfl
  | ignored m locked hignored =>
    have hnot : ¬(lossless ∧ LosslessStep cfg c (.onFrame m locked)) := by
      rintro ⟨-, hlocked, hserving, -⟩
      simp [hlocked, hserving] at hignored
    exact (h.offer [m] hnot).same And.left id rfl rfl rfl rfl
  | drained io hpc hqueue =>
    exact hoffer (h.same And.left And.left hqueue.symm rfl rfl (by rw [hpc]; rfl))
  | skipped io m rest hpc hqueue hline =>
    obtain ⟨gone, kept, held, pieces, lines, more, hc, hwhole, -⟩ := h
    refine hoffer ⟨gone, kept, held, pieces, lines, more, ⟨?_, hc.sent, hc.pieces, hc.txBuf,
      hc.lines, ?_, hc.more⟩, fun h => hwhole h.1, fun ⟨_, hstep⟩ => ?_⟩
    · refine List.Sublist.trans ?_ hc.order
      rw [hqueue]
      exact (((List.sublist_cons_self m rest).append_left held).append_left kept).append_left gone
    · rw [← hc.line, hpc]
    · obtain ⟨line, hsome⟩ := hstep.2 m (by rw [hqueue]; rfl)
      rw [hline] at hsome
      cases hsome
  | packed io m rest line hpc hqueue hline hroom =>
    have hput := (h.take (by rw [hpc]; rfl) hqueue hline).put rfl
    exact hoffer (hput.same And.left And.left rfl rfl rfl rfl)
  | full io m rest line hpc hqueue hline hfull =>
    exact hoffer ((h.take (by rw [hpc]; rfl) hqueue hline).same And.left And.left rfl rfl rfl rfl)
  | made io line d hpc hd hroom =>
    obtain ⟨-, -, -, hdpc⟩ := flushTx_bounds hd
    exact hoffer ((hflush (.inl ⟨line, hpc⟩) hd).put (hdpc.trans hpc))
  | overran io line d hpc hd hfull =>
    refine hoffer ((hflush (.inl ⟨line, hpc⟩) hd).lose rfl ?_)
    rintro ⟨-, hstep⟩
    obtain ⟨n, hn, hall⟩ := hstep.1 (.inl ⟨line, hpc⟩)
    have hline := hbounds.making line hpc
    rw [hn] at hd
    rw [flushTx_all hd hall, List.length_nil] at hfull
    unfold encodeBufSize at hline
    unfold kTxBufSize at hfull
    omega
  | gaveUp io hdue hd =>
    have hnot : ¬(lossless ∧ LosslessStep cfg c (.proceed io)) := by
      rintro ⟨-, hstep⟩
      obtain ⟨n, hn, -⟩ := hstep.1 hdue
      rw [hn, flushTx] at hd
      split_ifs at hd
    exact hoffer ((h.lose rfl hnot).same And.left id rfl rfl rfl rfl)
  | flushed io d hpc hdue hd =>
    obtain ⟨-, -, -, hdpc⟩ := flushTx_bounds hd
    refine hoffer ((hflush (.inr ⟨hpc, hdue⟩) hd).same id id rfl rfl rfl ?_)
    rw [hdpc, hpc]
    rfl
  | early io hpc hdue =>
    exact hoffer (h.same And.left And.left rfl rfl rfl (by rw [hpc]; rfl))
  | received io bs hpc hrecv =>
    obtain ⟨hqueue, hsent, htx, -⟩ := foldl_lineByte c bs
    exact hoffer (h.same And.left And.left hqueue hsent htx (by rw [again_line, hpc]; rfl))
  | waited io hpc hrecv =>
    exact hoffer (h.same And.left And.left rfl rfl rfl (by rw [again_line, hpc]; rfl))
  | left io hpc hrecv =>
    exact hoffer (h.same And.left And.left rfl rfl rfl (by rw [hpc]; rfl))
  | gone io hpc => exact hoffer (h.same And.left And.left rfl rfl rfl rfl)

theorem run_carries (hname : IfaceName cfg.interfaceName) (tick : BitVec 32)
    (as : List ClientAction) : Carries cfg (as.flatMap ClientAction.offered)
      (∀ e ∈ history (step cfg) (start tick) as, CleanStep cfg e.1 e.2)
      (∀ e ∈ history (step cfg) (start tick) as, LosslessStep cfg e.1 e.2)
      (run (step cfg) (start tick) as) := by
  induction as using List.reverseRecOn with
  | nil =>
    exact ⟨[], [], [], [], [], [], ⟨.refl _, rfl, .nil, rfl, .nil, rfl, .nil⟩,
      fun _ => ⟨[], rfl, .nil⟩, fun _ => rfl⟩
  | append_singleton as a ih =>
    rw [run_snoc, history_snoc, List.flatMap_append, List.flatMap_singleton]
    refine (Stepped.carries hname (run_bounds cfg tick as) ih (step_stepped cfg _ a)).same
      (fun h => ?_) (fun h => ?_) rfl rfl rfl rfl
    · obtain ⟨hlast, hpast⟩ := List.forall_mem_cons.mp h
      exact ⟨hpast, hlast⟩
    · obtain ⟨hlast, hpast⟩ := List.forall_mem_cons.mp h
      exact ⟨hpast, hlast⟩

end Sending

section Receiving

variable {cfg : CandumpConfig} {c c' : CandumpClient} {a : ClientAction}

def reads (c : CandumpClient) : ClientAction → List Byte
  | .onFrame _ _ => []
  | .proceed io =>
    match c.pc, io.recv with
    | .receiving, .bytes bs => bs
    | _, _ => []

/-- What was read, cut up into lines. -/
def Cut (c : CandumpClient) (bs : List Byte) : Prop :=
  let cut := feedAll newline (lineBufSize - 1) ([], []) bs
  c.lineBuf = cut.1 ∧ c.transmitted = cut.2.flatMap lineFrames

theorem Cut.lineByte {bs : List Byte} (h : Cut c bs) (b : Byte) :
    Cut (c.lineByte b) (bs ++ [b]) := by
  obtain ⟨hline, htransmitted⟩ := h
  unfold Cut
  dsimp only
  rw [feedAll_append]
  show _ = (feed _ _ _ b).1 ∧ _ = (feed _ _ _ b).2.flatMap lineFrames
  unfold CandumpClient.lineByte feed
  rw [← hline]
  split_ifs
  · exact ⟨rfl, by rw [List.flatMap_append, List.flatMap_singleton, ← htransmitted, hline]⟩
  · exact ⟨rfl, htransmitted⟩

theorem Cut.foldl {bs : List Byte} (h : Cut c bs) (more : List Byte) :
    Cut (more.foldl CandumpClient.lineByte c) (bs ++ more) := by
  induction more generalizing c bs with
  | nil => rwa [List.append_nil]
  | cons b more ih =>
    have hrest := ih (h.lineByte b)
    rwa [List.append_assoc, List.singleton_append] at hrest

theorem flushTx_cut {bs : List Byte} {result : SendResult} {tick : BitVec 32} (h : Cut c bs)
    (hflush : c.flushTx result tick = some c') : Cut c' bs := by
  rcases flushTx_cases hflush with ⟨-, rfl⟩ | ⟨-, -, rfl⟩ | ⟨-, n, -, rfl⟩
  · exact h
  · exact h
  · exact h

theorem Stepped.cut {bs : List Byte} (h : Cut c bs) (hs : Stepped cfg c a c') :
    Cut c' (bs ++ reads c a) := by
  have hquiet : ∀ {d : CandumpClient}, Cut d bs → reads c a = [] → Cut d (bs ++ reads c a) := by
    intro d hd hnone
    rwa [hnone, List.append_nil]
  have helse : ∀ {io : ClientIo}, c.pc ≠ .receiving → reads c (.proceed io) = [] := by
    intro io hpc
    unfold reads
    cases h : c.pc with
    | receiving => exact absurd h hpc
    | _ => rfl
  cases hs with
  | queued m hserving => exact hquiet h rfl
  | ignored m locked _ => exact hquiet h rfl
  | drained io hpc _ => exact hquiet h (helse (by simp [hpc]))
  | skipped io m rest hpc _ _ => exact hquiet h (helse (by simp [hpc]))
  | packed io m rest line hpc _ _ _ => exact hquiet h (helse (by simp [hpc]))
  | full io m rest line hpc _ _ _ => exact hquiet h (helse (by simp [hpc]))
  | made io line d hpc hd _ =>
    have hcut : Cut d bs := flushTx_cut h hd
    exact hquiet hcut (helse (by simp [hpc]))
  | overran io line d hpc hd _ =>
    have hcut : Cut d bs := flushTx_cut h hd
    exact hquiet hcut (helse (by simp [hpc]))
  | gaveUp io hdue _ =>
    refine hquiet h (helse ?_)
    rcases hdue with ⟨line, hpc⟩ | ⟨hpc, -⟩
    · simp [hpc]
    · simp [hpc]
  | flushed io d hpc _ hd =>
    have hcut : Cut d bs := flushTx_cut h hd
    exact hquiet hcut (helse (by simp [hpc]))
  | early io hpc _ => exact hquiet h (helse (by simp [hpc]))
  | received io bs hpc hrecv =>
    have hreads : reads c (.proceed io) = bs := by simp [reads, hpc, hrecv]
    rw [hreads]
    exact h.foldl bs
  | waited io hpc hrecv => exact hquiet h (by simp [reads, hpc, hrecv])
  | left io hpc hrecv => exact hquiet h (by simp [reads, hpc, hrecv])
  | gone io hpc => exact hquiet h (helse fun hrecv => by simp [hrecv, ClientPc.serving] at hpc)

theorem run_cut (cfg : CandumpConfig) (tick : BitVec 32) (as : List ClientAction) :
    Cut (run (step cfg) (start tick) as) (journal reads (history (step cfg) (start tick) as)) := by
  induction as using List.reverseRecOn with
  | nil => exact ⟨rfl, rfl⟩
  | append_singleton as a ih =>
    rw [run_snoc, history_snoc, journal_cons]
    exact Stepped.cut ih (step_stepped cfg _ a)

end Receiving

section Fragments

variable {cfg : CandumpConfig} {ms : List CanMessage}

/-- The frame of a message, with all of its data or the first bytes of it. -/
def CutShort (f : CanFrame) (m : CanMessage) : Prop :=
  ∃ bytes, bytes ≠ [] ∧ bytes <+: m.frame.payload ∧
    f = CanMessage.empty.frame.filled m.frame.id bytes

theorem hexWord_unspaced (id : BitVec 32) : 0x20#8 ∉ hexWord id := fun h =>
  absurd (hexWord_plain id _ h).2 (by decide)

theorem candumpData_unmarked (m : CanMessage) : 0x23#8 ∉ candumpData m ++ [newline] := by
  intro hmem
  rcases List.mem_append.mp hmem with hdata | hend
  · exact (flatMap_hexByte_plain _ _ hdata).2.1 rfl
  · exact absurd hend (by decide)

theorem LineOf.around (hname : IfaceName cfg.interfaceName) {line before after : List Byte}
    {m : CanMessage} (h : LineOf cfg line m)
    (hmark : before ++ 0x23#8 :: after = line ++ [newline]) :
    (∃ front, before = 0x28#8 :: (front ++ 0x20#8 :: hexWord m.frame.id)) ∧
      after = candumpData m ++ [newline] := by
  obtain ⟨⟨now, rfl⟩, -⟩ := h.eq
  have hfront : ∀ c ∈ candumpFront now m cfg.interfaceName ++ 0x20#8 :: hexWord m.frame.id,
      c ≠ 0x23#8 :=
    List.forall_mem_append.mpr ⟨fun c hc => (candumpFront_plain hname c hc).2.1,
      List.forall_mem_cons.mpr ⟨by decide, fun c hc => (hexWord_plain _ c hc).1.2.1⟩⟩
  have hline : candumpLine now m cfg.interfaceName ++ [newline] =
      (candumpFront now m cfg.interfaceName ++ 0x20#8 :: hexWord m.frame.id) ++
        0x23#8 :: (candumpData m ++ [newline]) := by
    simp [candumpLine]
  rw [hline] at hmark
  obtain ⟨rfl, -, rfl⟩ := (List.append_cons_inj_of_notMem (fun hmem => hfront _ hmem rfl)
    (candumpData_unmarked m)).mp hmark.symm
  exact ⟨⟨_, rfl⟩, rfl⟩

theorem pieces_head {pieces : List (List Byte)} (h : List.Forall₂ (PieceOf cfg) pieces ms) :
    pieces.flatten = [] ∨ ∃ s, pieces.flatten = 0x28#8 :: s := by
  cases h with
  | nil => exact .inl rfl
  | @cons p m pieces ms hp _ =>
    obtain ⟨hne, line, hline, hprefix⟩ := hp
    obtain ⟨⟨now, rfl⟩, -⟩ := hline.eq
    obtain ⟨b, p, rfl⟩ := List.exists_cons_of_ne_nil hne
    obtain ⟨rfl, -⟩ := List.cons_prefix_cons.mp hprefix
    exact .inr ⟨p ++ pieces.flatten, rfl⟩

/-- The rest of a piece: the mark is passed, or may still come. -/
inductive Rest (cfg : CandumpConfig) :
    List Byte → List CanMessage → List CanMessage → Prop
  | passed {rest : List Byte} {ms : List CanMessage} (h : 0x23#8 ∉ rest) : Rest cfg rest ms ms
  | within {rest u line : List Byte} {m : CanMessage} {ms : List CanMessage}
    (hline : LineOf cfg line m) (h : u ++ rest <+: line ++ [newline]) :
    Rest cfg rest (m :: ms) ms

/-- What remains of the stream, and the messages whose marks may still come. -/
def Remains (cfg : CandumpConfig) (s : List Byte) (ms : List CanMessage) : Prop :=
  ∃ rest pieces later, s = rest ++ pieces.flatten ∧ List.Forall₂ (PieceOf cfg) pieces later ∧
    Rest cfg rest ms later

theorem Rest.later {rest : List Byte} {later : List CanMessage} (h : Rest cfg rest ms later) :
    later <:+ ms := by
  cases h with
  | passed => exact List.suffix_refl _
  | within => exact List.suffix_cons _ _

theorem Remains.tail {b : Byte} {s : List Byte} (h : Remains cfg (b :: s) ms) :
    ∃ left, left <:+ ms ∧ Remains cfg s left := by
  obtain ⟨rest, pieces, later, hs, hpieces, hrest⟩ := h
  cases rest with
  | nil =>
    cases hpieces with
    | nil => simp at hs
    | @cons p m pieces later hp hpieces =>
      obtain ⟨hne, line, hline, hprefix⟩ := hp
      obtain ⟨b', p, rfl⟩ := List.exists_cons_of_ne_nil hne
      obtain ⟨rfl, rfl⟩ := List.cons.inj hs
      exact ⟨m :: later, hrest.later, p, pieces, later, rfl, hpieces,
        .within (u := [b]) hline hprefix⟩
  | cons b' rest =>
    obtain ⟨rfl, rfl⟩ := List.cons.inj hs
    refine ⟨ms, List.suffix_refl _, rest, pieces, later, rfl, hpieces, ?_⟩
    cases hrest with
    | passed h => exact .passed fun hmem => h (List.mem_cons_of_mem b hmem)
    | @within u _ _ _ hline hprefix =>
      rw [← List.singleton_append, ← List.append_assoc] at hprefix
      exact .within hline hprefix

theorem Remains.drop {x s : List Byte} (h : Remains cfg (x ++ s) ms) :
    ∃ left, left <:+ ms ∧ Remains cfg s left := by
  induction x generalizing ms with
  | nil => exact ⟨ms, List.suffix_refl _, h⟩
  | cons b x ih =>
    obtain ⟨left, hleft, h⟩ := h.tail
    obtain ⟨left', hleft', h⟩ := ih h
    exact ⟨left', hleft'.trans hleft, h⟩

/-- After a blank and a word a mark is that of the first message left, and what
follows it the message's data as far as the piece goes. -/
theorem Remains.found (hname : IfaceName cfg.interfaceName) {word s : List Byte}
    (hword : 0x20#8 ∉ word) (h : Remains cfg (0x20#8 :: (word ++ 0x23#8 :: s)) ms) :
    ∃ m left data more, ms = m :: left ∧ word = hexWord m.frame.id ∧ s = data ++ more ∧
      data <+: candumpData m ++ [newline] ∧ (more = [] ∨ ∃ s, more = 0x28#8 :: s) ∧
      Remains cfg s left := by
  obtain ⟨rest, pieces, later, hs, hpieces, hrest⟩ := h
  -- The mark is not in a later piece, which would begin after the blank.
  have hlater : ∀ x, 0x20#8 :: word = rest ++ x → pieces.flatten ≠ x ++ 0x23#8 :: s := by
    intro x hx hmark
    obtain ⟨before, pre, post, after, rfl, rfl, -⟩ := exists_in_flatten hmark
    obtain ⟨out, left, -, -, hleft⟩ := forall₂_split hpieces
    obtain ⟨m, left, ⟨-, line, hline, more, hmore⟩, -, rfl⟩ := List.forall₂_cons_left_iff.mp hleft
    rw [List.append_assoc, List.cons_append] at hmore
    obtain ⟨⟨front, rfl⟩, -⟩ := hline.around hname hmore
    have hblank : 0x20#8 :: word = (rest ++ before.flatten ++ 0x28#8 :: front) ++
        0x20#8 :: hexWord m.frame.id := by
      rw [hx]
      simp
    have hnil : ([] : List Byte) ++ 0x20#8 :: word = _ := hblank
    obtain ⟨hempty, -⟩ := append_cons_inj_last hword (hexWord_unspaced _) hnil
    simp at hempty
  rw [← List.cons_append, List.append_eq_append_iff] at hs
  rcases hs with ⟨x, rfl, hmark⟩ | ⟨x, hx, hmark⟩
  · cases x with
    | nil => exact absurd hmark.symm (hlater [] (by simp))
    | cons b x =>
      obtain ⟨rfl, rfl⟩ := List.cons.inj hmark
      cases hrest with
      | passed hnone => exact absurd (by simp) hnone
      | @within u line m _ hline hprefix =>
        obtain ⟨more, hmore⟩ := hprefix
        have hsplit : (u ++ 0x20#8 :: word) ++ 0x23#8 :: (x ++ more) = line ++ [newline] := by
          rw [← hmore]
          simp
        obtain ⟨⟨front, hfront⟩, hdata⟩ := hline.around hname hsplit
        obtain ⟨-, rfl⟩ := append_cons_inj_last (y := 0x28#8 :: front) hword
          (hexWord_unspaced _) hfront
        have hpassed : 0x23#8 ∉ x := fun hmem =>
          candumpData_unmarked m (hdata ▸ List.mem_append_left more hmem)
        exact ⟨m, later, x, pieces.flatten, rfl, rfl, rfl, ⟨more, hdata⟩, pieces_head hpieces,
          x, pieces, later, rfl, hpieces, .passed hpassed⟩
  · exact absurd hmark (hlater x hx)

/-- The bytes of a stream of lines. -/
def Clean (s : List Byte) : Prop :=
  ∀ c ∈ s, c ≠ 0x00#8 ∧ (isSpace c = true → c = 0x20#8 ∨ c = newline)

theorem LineOf.clean (hname : IfaceName cfg.interfaceName) {line : List Byte} {m : CanMessage}
    (h : LineOf cfg line m) : Clean (line ++ [newline]) := by
  obtain ⟨⟨now, rfl⟩, -⟩ := h.eq
  have hplain : ∀ c : Byte, Plain c → c ≠ 0x00#8 ∧ (isSpace c = true → c = 0x20#8 ∨ c = newline) :=
    fun c hc => ⟨hc.1, fun hspace => .inl (hc.2.2 hspace)⟩
  unfold Clean candumpLine
  simp only [List.forall_mem_append, List.forall_mem_cons]
  exact ⟨⟨fun c hc => hplain c (candumpFront_plain hname c hc), by decide,
    fun c hc => hplain c (hexWord_plain _ c hc).1, by decide,
    fun c hc => hplain c (flatMap_hexByte_plain _ c hc)⟩, by decide, by simp⟩

theorem pieces_clean (hname : IfaceName cfg.interfaceName) {pieces : List (List Byte)}
    (h : List.Forall₂ (PieceOf cfg) pieces ms) : Clean pieces.flatten := by
  have hall : ∀ p ∈ pieces, Clean p :=
    forall_of_forall₂ (fun p m ⟨_, line, hline, hp⟩ c hc =>
      hline.clean hname c (hp.subset hc)) h
  intro c hc
  obtain ⟨p, hp, hc⟩ := List.mem_flatten.mp hc
  exact hall p hp c hc

theorem lineFrames_cases (line : List Byte) : lineFrames line = [] ∨
    ∃ m, candumpDecode (terminated line) .empty = some (true, m) ∧
      lineFrames line = [m.frame] := by
  unfold lineFrames
  split
  · exact .inr ⟨_, ‹_›, rfl⟩
  · exact .inl rfl

theorem readData_piece {rest data more s : List Byte} {b : Byte} {m : CanMessage}
    (hrest : newline ∉ rest) (hsplit : rest ++ b :: s = data ++ more)
    (hdata : data <+: candumpData m ++ [newline]) (hmore : more = [] ∨ ∃ s, more = 0x28#8 :: s) :
    ∃ bytes, readData 8 (terminated rest) = some bytes ∧ bytes <+: m.frame.payload := by
  have hcut : ∀ {p : List Byte}, p <+: data → newline ∉ p → p <+: candumpData m :=
    fun hp hnone => prefix_of_notMem (hp.trans hdata) hnone
  have hwhole : rest <+: data → ∃ bytes, readData 8 (terminated rest) = some bytes ∧
      bytes <+: m.frame.payload := fun h =>
    readData_cut 8 (hcut h hrest) hexNibble_zero []
  rcases List.append_eq_append_iff.mp hsplit with ⟨as, rfl, -⟩ | ⟨as, rfl, has⟩
  · exact hwhole (List.prefix_append _ _)
  · cases as with
    | nil => exact hwhole (by simp)
    | cons c as =>
      obtain rfl : c = 0x28#8 := by
        rcases hmore with rfl | ⟨_, rfl⟩
        · simp at has
        · exact (List.cons.inj has).1.symm
      have hnone : hexNibble 0x28#8 = none := by decide
      obtain ⟨bytes, hbytes, hprefix⟩ := readData_cut 8 (hcut (List.prefix_refl _)
        fun hmem => hrest (List.mem_append_left _ hmem)) hnone (as ++ [0x00#8])
      exact ⟨bytes, by simpa [terminated] using hbytes, hprefix⟩

/-- A line that is read of the stream gives a frame of the first messages left,
perhaps cut short, or none. -/
theorem Remains.line (hname : IfaceName cfg.interfaceName) {text s : List Byte} {b : Byte}
    (htext : newline ∉ text) (h : Remains cfg (text ++ [b] ++ s) ms)
    (hclean : Clean (text ++ [b] ++ s)) : ∃ left, (Remains cfg s left ∧ Clean s) ∧
      (lineFrames text = [] ∧ left.Sublist ms ∨
        ∃ f m, lineFrames text = [f] ∧ (m :: left).Sublist ms ∧ CutShort f m) := by
  have hs : Clean s := fun c hc => hclean c (List.mem_append_right _ hc)
  rcases lineFrames_cases text with hnone | ⟨m', hdecode, hone⟩
  · obtain ⟨left, hleft, hrest⟩ := h.drop
    exact ⟨left, ⟨hrest, hs⟩, .inl ⟨hnone, hleft.sublist⟩⟩
  · have hblank : ∀ c ∈ text, c ≠ 0x00#8 ∧ (isSpace c = true → c = 0x20#8) := fun c hc => by
      obtain ⟨hzero, hspace⟩ := hclean c (by simp [hc])
      exact ⟨hzero, fun h => (hspace h).resolve_right fun heq => htext (heq ▸ hc)⟩
    obtain ⟨front, word, rest, canId, bytes, rfl, hword, hstrtoul, hbytes, hne, -, hframe⟩ :=
      candumpDecode_found hblank hdecode
    have hstream : front ++ 0x20#8 :: (word ++ 0x23#8 :: rest) ++ [b] ++ s =
        front ++ 0x20#8 :: (word ++ 0x23#8 :: (rest ++ b :: s)) := by simp
    rw [hstream] at h
    obtain ⟨left, hleft, h⟩ := h.drop
    obtain ⟨m, left, data, more, rfl, rfl, hsplit, hdata, hmore, h⟩ := h.found hname hword
    obtain ⟨found, hfound, hprefix⟩ := readData_piece
      (fun hmem => htext (by simp [hmem])) hsplit hdata hmore
    obtain rfl : bytes = found := Option.some.inj (hbytes.symm.trans hfound)
    obtain rfl : m.frame.id = canId := by
      rw [strtoul_hexWord] at hstrtoul
      exact (Prod.mk.inj (Option.some.inj hstrtoul)).1
    rw [← List.singleton_append, ← List.append_assoc] at h
    obtain ⟨left', hleft', h⟩ := h.drop
    exact ⟨left', ⟨h, hs⟩, .inr ⟨m'.frame, m, hone,
      (hleft'.sublist.cons_cons m).trans hleft.sublist, bytes, hne, hprefix, hframe⟩⟩

theorem lineFrames_pieces (hname : IfaceName cfg.interfaceName) {pieces : List (List Byte)}
    (h : List.Forall₂ (PieceOf cfg) pieces ms) {arrived : List Byte}
    (harrived : arrived <+: pieces.flatten) (cap : ℕ) : List.SublistForall₂ CutShort
      ((feedAll newline cap ([], []) arrived).2.flatMap lineFrames) ms := by
  have hshort : ∀ p q m, PieceOf cfg p m → q ≠ [] → q <+: p → PieceOf cfg q m :=
    fun p q m ⟨_, line, hline, hp⟩ hne hq => ⟨hne, line, hline, hq.trans hp⟩
  obtain ⟨begun, first, rfl, hbegun, hfirst⟩ := forall₂_prefix hshort h harrived
  obtain ⟨segs, hgiven, hstream, hsep, -, -⟩ := @feedAll_segments _ newline _ cap begun.flatten
  have hremains : Remains cfg begun.flatten first :=
    ⟨[], begun, first, rfl, hbegun, .passed (by simp)⟩
  have hclean := pieces_clean hname hbegun
  have hstep : ∀ seg ∈ segs, ∀ s bs,
      Remains cfg (seg.1 ++ [seg.2] ++ s) bs ∧ Clean (seg.1 ++ [seg.2] ++ s) →
        ∃ left, (Remains cfg s left ∧ Clean s) ∧ (lineFrames seg.1 = [] ∧ left.Sublist bs ∨
          ∃ f m, lineFrames seg.1 = [f] ∧ (m :: left).Sublist bs ∧ CutShort f m) :=
    fun seg hseg s bs hs => hs.1.line hname (hsep seg hseg) hs.2
  have hfound := sublistForall₂_of_remains (fun s bs => Remains cfg s bs ∧ Clean s)
    (fun seg : List Byte × Byte => seg.1 ++ [seg.2]) (fun seg => lineFrames seg.1) segs hstep
    (feedAll newline cap ([], []) begun.flatten).1 first
    ⟨hstream ▸ hremains, hstream ▸ hclean⟩
  rw [hgiven, List.flatMap_map]
  exact sublistForall₂_trans hfound hfirst.sublist

end Fragments

section Gateways

variable {sender receiver : CandumpConfig}

/-- A gateway that reads what another one sends puts nothing else on its bus than
the frames that were handed to the other one, in their order: each at most once,
with its identifier, and with all of its data or the first bytes of it. -/
theorem frames_never_forged (hname : IfaceName sender.interfaceName) (tick tick' : BitVec 32)
    (as bs : List ClientAction)
    (harrived : journal reads (history (step receiver) (start tick') bs) <+:
      (run (step sender) (start tick) as).sent) :
    List.SublistForall₂ CutShort (run (step receiver) (start tick') bs).transmitted
      (as.flatMap ClientAction.offered) := by
  obtain ⟨gone, kept, held, pieces, lines, more, hc, -, -⟩ := run_carries hname tick as
  rw [hc.sent] at harrived
  rw [(run_cut receiver tick' bs).2]
  exact sublistForall₂_trans (lineFrames_pieces hname hc.pieces harrived (lineBufSize - 1))
    ((List.sublist_append_left gone _).trans hc.order)

def boatGateway : CandumpConfig := ⟨ascii "can0", 20#32⟩

theorem boatGateway_name : IfaceName boatGateway.interfaceName := ifaceName_can0

def engineFrame : CanMessage :=
  ⟨⟨0x09f20023#32, true, false, 8#8, fun k => BitVec.ofNat 8 (k.val + 16)⟩, 5100000#64⟩

def turn (tick : BitVec 32) (send : SendResult) (recv : RecvResult) : ClientAction :=
  .proceed ⟨⟨1700000000, 42⟩, tick, send, recv, true⟩

def reading (bs : List Byte) : List ClientAction :=
  [turn 1#32 .again .timeout, turn 2#32 .again .timeout, turn 3#32 .again (.bytes bs)]

/-- The first frame's line is sent as far as its second byte of data, then the
second frame's whole. -/
def cutting : List ClientAction :=
  [.onFrame positionFrame true, turn 1#32 .again .timeout, turn 2#32 .again .timeout,
    turn 20#32 (.took 38) .timeout, turn 21#32 .again .timeout, .onFrame engineFrame true,
    turn 22#32 .again .timeout, turn 23#32 .again .timeout, turn 40#32 (.took 2560) .timeout]

/-- The other gateway takes the two lines for one. -/
theorem frames_never_forged_cut : ∃ bs,
    List.SublistForall₂ CutShort (run (step boatGateway) (start 0#32) bs).transmitted
      [positionFrame, engineFrame] ∧
    (run (step boatGateway) (start 0#32) bs).transmitted.map CanFrame.wire =
      [⟨0x09f80123#32, true, false, 2#8, [0xfa#8, 0xfb#8]⟩] :=
  ⟨reading (run (step boatGateway) (start 0#32) cutting).sent,
    frames_never_forged boatGateway_name 0#32 0#32 cutting
      (reading (run (step boatGateway) (start 0#32) cutting).sent) (by decide +kernel),
    by decide +kernel⟩

/-- A gateway's frame as the other one puts it on its bus. -/
def passed (m : CanMessage) : List CanFrame :=
  if m.frame.dlc = 0#8 then [] else [CanMessage.empty.frame.filled m.frame.id m.frame.payload]

theorem LineOf.frames (hname : IfaceName sender.interfaceName) {line : List Byte}
    {m : CanMessage} (h : LineOf sender line m) : lineFrames line = passed m := by
  obtain ⟨⟨now, rfl⟩, -⟩ := h.eq
  unfold lineFrames passed
  rw [candumpDecode_line now m hname]
  by_cases hdlc : m.frame.dlc = 0#8
  · simp [hdlc]
  · simp [hdlc]

theorem lines_frames (hname : IfaceName sender.interfaceName) {lines : List (List Byte)}
    {ms : List CanMessage} (h : List.Forall₂ (LineOf sender) lines ms) :
    lines.flatMap lineFrames = ms.flatMap passed := by
  induction h with
  | nil => rfl
  | cons hline _ ih => rw [List.flatMap_cons, List.flatMap_cons, hline.frames hname, ih]

/-- Where no send stops inside a line, the frames that pass have all of their
data. Where each frame is queued and encoded and each send takes everything, all
frames that have data pass once everything has arrived. -/
theorem frames_pass_unchanged (hname : IfaceName sender.interfaceName) (tick tick' : BitVec 32)
    (as bs : List ClientAction)
    (hclean : ∀ e ∈ history (step sender) (start tick) as, CleanStep sender e.1 e.2)
    (harrived : journal reads (history (step receiver) (start tick') bs) <+:
      (run (step sender) (start tick) as).sent) :
    let s := run (step sender) (start tick) as
    let r := run (step receiver) (start tick') bs
    r.transmitted.Sublist ((as.flatMap ClientAction.offered).flatMap passed) ∧
      ((∀ e ∈ history (step sender) (start tick) as, LosslessStep sender e.1 e.2) →
        journal reads (history (step receiver) (start tick') bs) = s.sent →
        s.queue = [] → s.txBuf = [] → s.pc.line = [] →
        r.transmitted = (as.flatMap ClientAction.offered).flatMap passed) := by
  obtain ⟨gone, kept, held, pieces, lines, more, hc, hwhole, hall⟩ := run_carries hname tick as
  obtain ⟨whole, rfl, hgone⟩ := hwhole hclean
  have hsent : (run (step sender) (start tick) as).sent = ended newline whole := by
    rw [hc.sent, ended, List.flatMap_def]
  have hfits : ∀ l ∈ whole, newline ∉ l ∧ l.length ≤ lineBufSize - 1 :=
    forall_of_forall₂ (fun l m hl => ⟨hl.unbroken hname, hl.eq.2.le⟩) hgone
  have hframes := lines_frames hname hgone
  have htransmitted := (run_cut receiver tick' bs).2
  dsimp only
  refine ⟨?_, fun hlossless hread hqueue htx hline => ?_⟩
  · rw [hsent] at harrived
    rw [htransmitted]
    refine ((feedAll_begun hfits harrived).flatMap lineFrames).sublist.trans ?_
    rw [hframes]
    exact (((List.sublist_append_left gone _).trans hc.order).flatMap passed)
  · have hlines : lines = [] := by
      have hbuf := hc.txBuf
      rw [htx] at hbuf
      cases lines with
      | nil => rfl
      | cons l lines => simp [ended_cons] at hbuf
    have hkept : kept = [] := List.forall₂_nil_left_iff.mp (hlines ▸ hc.lines)
    obtain ⟨-, rfl⟩ := hc.noLine hline
    have hevery := hall hlossless
    rw [hkept, hqueue] at hevery
    simp only [List.append_nil] at hevery
    rw [htransmitted, hread, hsent, feedAll_ended [] whole hfits, List.nil_append, hframes, hevery]

def passing : List ClientAction :=
  [.onFrame positionFrame true, turn 1#32 (.took 2560) .timeout, turn 2#32 (.took 2560) .timeout,
    turn 20#32 (.took 2560) .timeout]

theorem passing_lossless :
    ∀ e ∈ history (step boatGateway) (start 0#32) passing, LosslessStep boatGateway e.1 e.2 := by
  have hencoded : ∃ line, candumpEncode ⟨1700000000, 42⟩ positionFrame (ascii "can0") 128 =
      some line := Option.isSome_iff_exists.mp (by decide +kernel)
  have hempty : ∀ {c : CandumpClient} {io : ClientIo}, c.queue.length = 0 →
      ∀ m ∈ c.queue.head?, ∃ line,
        candumpEncode io.now m boatGateway.interfaceName encodeBufSize = some line := by
    intro c io hnone
    simp [List.length_eq_zero_iff.mp hnone]
  simp only [passing, turn, history, historyFrom, List.forall_mem_cons, List.not_mem_nil,
    false_imp_iff, implies_true, and_true]
  refine ⟨⟨fun _ => ⟨2560, rfl, by decide +kernel⟩, hempty (by decide +kernel)⟩,
    ⟨fun _ => ⟨2560, rfl, by decide +kernel⟩, hempty (by decide +kernel)⟩,
    ⟨fun _ => ⟨2560, rfl, by decide +kernel⟩, fun m hm => ?_⟩,
    ⟨rfl, by decide +kernel, by decide +kernel⟩⟩
  obtain rfl : positionFrame = m := Option.some.inj hm
  exact hencoded

theorem frames_pass_unchanged_position :
    (run (step boatGateway) (start 0#32)
      (reading (run (step boatGateway) (start 0#32) passing).sent)).transmitted =
        [positionFrame].flatMap passed :=
  (frames_pass_unchanged boatGateway_name 0#32 0#32 passing
    (reading (run (step boatGateway) (start 0#32) passing).sent)
    (fun e he => (passing_lossless e he).whole) (by decide +kernel)).2
    passing_lossless (by decide +kernel) (by decide +kernel) (by decide +kernel) (by decide +kernel)

end Gateways

end CandumpClient

end RelayBoard
