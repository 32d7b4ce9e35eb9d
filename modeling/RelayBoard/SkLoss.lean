import RelayBoard.SkReports

/-!
# When SignalK counts as lost

The bridge tells relay control of a lost connection once in an outage. An
outage begins with the first disconnect after a connection, and lasts until
the stream connects again; all of this can be read off the calls of the bridge
so far, and so can the settings in force.
-/

set_option autoImplicit false

namespace RelayBoard
open Lib.Clock Lib.Runs

structure SkCall where
  op : SkOp
  time : ℕ
  io : SkIo

abbrev SkEntry := SkPublisher × SkCall

namespace SkPublisher

def result (s : SkPublisher) (c : SkCall) : SkResult :=
  c.op.perform { c.io with now := reading 32 c.time } s

def step (s : SkPublisher) (c : SkCall) : SkPublisher := (s.result c).state

end SkPublisher

def SkEntry.lost (e : SkEntry) : Bool := (e.1.result e.2).lost

def SkOp.stream : SkOp → Option Bool
  | .streamChanged connected => some connected
  | _ => none

def SkOp.isTick : SkOp → Bool
  | .tick => true
  | _ => false

/-- The stream as the newest of its events has it. -/
def streamOf (past : List SkEntry) : Option Bool := past.findSome? fun e => e.2.op.stream

def treesInForce (past : List SkEntry) : Bool :=
  (past.findSome? fun e => match e.2.op with
    | .start cfg _ => some (treePublished cfg.toDeviceConfig)
    | _ => none).getD false

def graceInForce (past : List SkEntry) : BitVec 16 :=
  (past.findSome? fun e => match e.2.op with
    | .start cfg _ => some cfg.skLossGraceS
    | .updateConfig cfg => some cfg.skLossGraceS
    | _ => none).getD 0

/-- The stream went down with `d`, after it was connected. -/
def Begins (d : SkEntry) (earlier : List SkEntry) : Prop :=
  d.2.op.stream = some false ∧ streamOf earlier = some true

/-- The stream has been down since `d`, the calls after which are `later`. -/
def DownSince (past later : List SkEntry) (d : SkEntry) : Prop :=
  ∃ earlier, past = later ++ d :: earlier ∧ Begins d earlier ∧
    ∀ x ∈ later, x.2.op.stream ≠ some true

/-- The same, found by going through the calls. -/
def downSince : List SkEntry → Option (List SkEntry × SkEntry)
  | [] => none
  | e :: past =>
    match e.2.op.stream with
    | some true => none
    | some false =>
      match downSince past with
      | some (later, d) => some (e :: later, d)
      | none => if streamOf past = some true then some ([], e) else none
    | none => (downSince past).map fun o => (e :: o.1, o.2)

theorem downSince_connected {e : SkEntry} (past : List SkEntry)
    (h : e.2.op.stream = some true) : downSince (e :: past) = none := by
  rw [downSince, h]

theorem downSince_disconnected {e : SkEntry} (past : List SkEntry)
    (h : e.2.op.stream = some false) : downSince (e :: past) =
      match downSince past with
      | some (later, d) => some (e :: later, d)
      | none => if streamOf past = some true then some ([], e) else none := by
  rw [downSince, h]

theorem downSince_other {e : SkEntry} (past : List SkEntry) (h : e.2.op.stream = none) :
    downSince (e :: past) = (downSince past).map fun o => (e :: o.1, o.2) := by
  rw [downSince, h]

theorem streamOf_cons_some {e : SkEntry} (past : List SkEntry) {connected : Bool}
    (h : e.2.op.stream = some connected) : streamOf (e :: past) = some connected := by
  simp [streamOf, h]

theorem streamOf_cons_none {e : SkEntry} (past : List SkEntry) (h : e.2.op.stream = none) :
    streamOf (e :: past) = streamOf past := by
  simp [streamOf, h]

theorem downSince_sound {past later : List SkEntry} {d : SkEntry}
    (h : downSince past = some (later, d)) : DownSince past later d := by
  induction past generalizing later with
  | nil => cases h
  | cons e past ih =>
    have hgrow : ∀ {ls}, downSince past = some (ls, d) → e.2.op.stream ≠ some true →
        DownSince (e :: past) (e :: ls) d := by
      intro ls hls he
      obtain ⟨earlier, hpast, hbegins, hdown⟩ := ih hls
      exact ⟨earlier, congrArg (List.cons e) hpast, hbegins, List.forall_mem_cons.mpr ⟨he, hdown⟩⟩
    cases hs : e.2.op.stream with
    | none =>
      rw [downSince_other past hs] at h
      obtain ⟨⟨ls, d'⟩, hls, heq⟩ := Option.map_eq_some_iff.mp h
      cases heq
      exact hgrow hls (by rw [hs]; exact nofun)
    | some connected =>
      cases connected with
      | true => rw [downSince_connected past hs] at h; cases h
      | false =>
        rw [downSince_disconnected past hs] at h
        split at h
        · rename_i ls d' hls
          cases h
          exact hgrow hls (by rw [hs]; exact nofun)
        · split_ifs at h with hup
          cases h
          exact ⟨past, rfl, ⟨hs, hup⟩, by simp⟩

theorem downSince_of_connected {past : List SkEntry} (h : streamOf past = some true) :
    downSince past = none := by
  induction past with
  | nil => rfl
  | cons e past ih =>
    cases hs : e.2.op.stream with
    | none =>
      rw [streamOf_cons_none past hs] at h
      rw [downSince_other past hs, ih h, Option.map_none]
    | some connected =>
      rw [streamOf_cons_some past hs] at h
      cases h
      exact downSince_connected past hs

theorem downSince_complete {past later : List SkEntry} {d : SkEntry}
    (h : DownSince past later d) : downSince past = some (later, d) := by
  obtain ⟨earlier, rfl, hbegins, hdown⟩ := h
  induction later with
  | nil =>
    rw [List.nil_append, downSince_disconnected earlier hbegins.1,
      downSince_of_connected hbegins.2]
    exact if_pos hbegins.2
  | cons x later ih =>
    obtain ⟨hx, hdown⟩ := List.forall_mem_cons.mp hdown
    rw [List.cons_append]
    cases hs : x.2.op.stream with
    | none => rw [downSince_other _ hs, ih hdown]; rfl
    | some connected =>
      cases connected with
      | true => exact absurd hs hx
      | false => rw [downSince_disconnected _ hs, ih hdown]

/-- The loss timer sees what its own part of the bridge's model does. -/
theorem result_timer (s : SkPublisher) (c : SkCall) :
    ((s.step c).toSkBridge, (s.result c).lost) =
      match c.op with
      | .start cfg _ => (skBridgeStart cfg.toDeviceConfig s.toSkBridge, false)
      | .updateConfig cfg => (skBridgeUpdateConfig cfg.toDeviceConfig s.toSkBridge, false)
      | .streamChanged connected =>
        (skBridgeStreamChanged connected (reading 32 c.time) s.toSkBridge, false)
      | .tick => ((skBridgeTick (reading 32 c.time) s.toSkBridge).2,
        (skBridgeTick (reading 32 c.time) s.toSkBridge).1)
      | .relayChanged _ => (s.toSkBridge, false)
      | .inputChanged _ _ => (s.toSkBridge, false) := by
  obtain ⟨op, time, io⟩ := c
  unfold SkPublisher.step SkPublisher.result
  cases op with
  | start cfg putErr => rfl
  | updateConfig cfg =>
    simp only [SkOp.perform, SkPublisher.updateConfig_state]
    rfl
  | relayChanged channel => rfl
  | inputChanged i on => rfl
  | streamChanged connected =>
    simp only [SkOp.perform, SkPublisher.skBridgeStreamChanged]
    split_ifs <;> rfl
  | tick =>
    simp only [SkOp.perform, SkPublisher.skBridgeTick]
    split_ifs <;> rfl

theorem step_settings {s : SkPublisher} {past : List SkEntry} (c : SkCall)
    (htrees : treePublished s.cfg = treesInForce past)
    (hgrace : s.cfg.skLossGraceS = graceInForce past) :
    treePublished (s.step c).cfg = treesInForce ((s, c) :: past) ∧
      (s.step c).cfg.skLossGraceS = graceInForce ((s, c) :: past) := by
  have htimer := result_timer s c
  rw [treesInForce, graceInForce, List.findSome?_cons, List.findSome?_cons]
  cases hc : c.op with
  | start cfg putErr =>
    rw [hc] at htimer
    have hb := (Prod.mk.inj htimer).1
    rw [hb]
    exact ⟨rfl, rfl⟩
  | updateConfig cfg =>
    rw [hc] at htimer
    have hb := (Prod.mk.inj htimer).1
    rw [hb]
    exact ⟨htrees, rfl⟩
  | relayChanged channel =>
    rw [hc] at htimer
    have hb := (Prod.mk.inj htimer).1
    rw [hb]
    exact ⟨htrees, hgrace⟩
  | inputChanged i on =>
    rw [hc] at htimer
    have hb := (Prod.mk.inj htimer).1
    rw [hb]
    exact ⟨htrees, hgrace⟩
  | streamChanged connected =>
    rw [hc] at htimer
    have hb := (Prod.mk.inj htimer).1
    have hcfg : (s.step c).cfg = s.cfg := by
      rw [hb]
      unfold skBridgeStreamChanged
      split_ifs <;> rfl
    rw [hcfg]
    exact ⟨htrees, hgrace⟩
  | tick =>
    rw [hc] at htimer
    have hb := (Prod.mk.inj htimer).1
    rw [hb, (skBridgeTick_keeps (reading 32 c.time) s.toSkBridge).1]
    exact ⟨htrees, hgrace⟩

/-- What the timer's fields stand for, given the calls so far. -/
structure LossWatch (s : SkPublisher) (past : List SkEntry) : Prop where
  trees : treePublished s.cfg = treesInForce past
  grace : s.cfg.skLossGraceS = graceInForce past
  connected : downSince past = none → (s.connectedOnce = true ↔ streamOf past = some true)
  down : s.down = (downSince past).isSome
  since : ∀ later d, downSince past = some (later, d) →
    s.downSince = reading 32 d.2.time ∧ s.lostFired = later.any SkEntry.lost

section Watch

variable {s : SkPublisher} {past : List SkEntry} {c : SkCall}

theorem LossWatch.of_up (h : LossWatch s past) (hup : downSince ((s, c) :: past) = none)
    (hconnected : (s.step c).connectedOnce = true ↔ streamOf ((s, c) :: past) = some true)
    (hdown : (s.step c).down = false) : LossWatch (s.step c) ((s, c) :: past) where
  trees := (step_settings c h.trees h.grace).1
  grace := (step_settings c h.trees h.grace).2
  connected _ := hconnected
  down := by rw [hup, hdown]; rfl
  since later d hd := by rw [hup] at hd; cases hd

theorem LossWatch.of_down (h : LossWatch s past) {later : List SkEntry} {d : SkEntry}
    (hout : downSince ((s, c) :: past) = some (later, d)) (hdown : (s.step c).down = true)
    (hsince : (s.step c).downSince = reading 32 d.2.time)
    (hfired : (s.step c).lostFired = later.any SkEntry.lost) :
    LossWatch (s.step c) ((s, c) :: past) where
  trees := (step_settings c h.trees h.grace).1
  grace := (step_settings c h.trees h.grace).2
  connected hnone := by rw [hout] at hnone; cases hnone
  down := by rw [hout, hdown]; rfl
  since later' d' hd := by
    rw [hout] at hd
    cases hd
    exact ⟨hsince, hfired⟩

/-- A call that is no stream event may fire, and otherwise leaves the outage as
it is. -/
theorem LossWatch.other (h : LossWatch s past) (hc : c.op.stream = none)
    (hconnected : (s.step c).connectedOnce = s.connectedOnce)
    (hdown : (s.step c).down = s.down) (hsince : (s.step c).downSince = s.downSince)
    (hfired : (s.step c).lostFired = ((s.result c).lost || s.lostFired)) :
    LossWatch (s.step c) ((s, c) :: past) := by
  have hout := downSince_other (e := (s, c)) past hc
  cases ho : downSince past with
  | none =>
    have hwas := h.down
    rw [ho] at hout hwas
    refine h.of_up hout ?_ (hdown.trans hwas)
    rw [hconnected, streamOf_cons_none past hc]
    exact h.connected ho
  | some o =>
    have hwas := h.down
    rw [ho] at hout hwas
    obtain ⟨hd, hf⟩ := h.since o.1 o.2 ho
    refine h.of_down hout (hdown.trans hwas) (hsince.trans hd) ?_
    rw [hfired, hf]
    rfl

theorem LossWatch.connect (h : LossWatch s past) (hc : c.op = .streamChanged true) :
    LossWatch (s.step c) ((s, c) :: past) := by
  have hs : c.op.stream = some true := by rw [hc]; rfl
  have htimer := result_timer s c
  rw [hc] at htimer
  have hb : (s.step c).toSkBridge = { s.toSkBridge with connectedOnce := true, down := false } :=
    (Prod.mk.inj htimer).1
  refine h.of_up (downSince_connected past hs) ?_ ?_
  · rw [hb, streamOf_cons_some past hs]
    exact iff_of_true rfl rfl
  · rw [hb]

/-- A disconnect goes on with an outage, begins one after a connection, or
means nothing before the first. -/
theorem LossWatch.disconnect (h : LossWatch s past) (hc : c.op = .streamChanged false) :
    LossWatch (s.step c) ((s, c) :: past) := by
  have hs : c.op.stream = some false := by rw [hc]; rfl
  have htimer := result_timer s c
  rw [hc] at htimer
  obtain ⟨hb, hlost⟩ := Prod.mk.inj htimer
  have hout := downSince_disconnected (e := (s, c)) past hs
  have hdown := h.down
  cases ho : downSince past with
  | some o =>
    rw [ho] at hout hdown
    have hsame : (s.step c).toSkBridge = s.toSkBridge := by
      rw [hb]
      simp [skBridgeStreamChanged, hdown]
    obtain ⟨hd, hf⟩ := h.since o.1 o.2 ho
    have hquiet : SkEntry.lost (s, c) = false := hlost
    refine h.of_down hout (by rw [hsame, hdown]; rfl) (by rw [hsame, hd]) ?_
    rw [hsame, hf, List.any_cons, hquiet, Bool.false_or]
  | none =>
    rw [ho] at hout hdown
    have hup := h.connected ho
    by_cases hstream : streamOf past = some true
    · have hnew : (s.step c).toSkBridge =
          { s.toSkBridge with down := true, lostFired := false,
                              downSince := reading 32 c.time } := by
        rw [hb]
        simp [skBridgeStreamChanged, hup.mpr hstream, hdown]
      refine h.of_down (hout.trans (if_pos hstream)) ?_ ?_ ?_ <;> rw [hnew]
      rfl
    · have honce : s.connectedOnce = false := by
        cases hco : s.connectedOnce with
        | true => exact absurd (hup.mp hco) hstream
        | false => rfl
      have hsame : (s.step c).toSkBridge = s.toSkBridge := by
        rw [hb]
        simp [skBridgeStreamChanged, honce]
      refine h.of_up (hout.trans (if_neg hstream)) ?_ (by rw [hsame, hdown]; rfl)
      rw [hsame, honce, streamOf_cons_some past hs]
      simp

theorem LossWatch.step (c : SkCall) (h : LossWatch s past) :
    LossWatch (s.step c) ((s, c) :: past) := by
  have htimer := result_timer s c
  cases hc : c.op with
  | start cfg putErr =>
    rw [hc] at htimer
    obtain ⟨hb, hlost⟩ := Prod.mk.inj htimer
    exact h.other (by rw [hc]; rfl) (by rw [hb]; rfl) (by rw [hb]; rfl) (by rw [hb]; rfl)
      (by rw [hb, hlost]; rfl)
  | updateConfig cfg =>
    rw [hc] at htimer
    obtain ⟨hb, hlost⟩ := Prod.mk.inj htimer
    exact h.other (by rw [hc]; rfl) (by rw [hb]; rfl) (by rw [hb]; rfl) (by rw [hb]; rfl)
      (by rw [hb, hlost]; rfl)
  | relayChanged channel =>
    rw [hc] at htimer
    obtain ⟨hb, hlost⟩ := Prod.mk.inj htimer
    exact h.other (by rw [hc]; rfl) (by rw [hb]) (by rw [hb]) (by rw [hb])
      (by rw [hb, hlost, Bool.false_or])
  | inputChanged i on =>
    rw [hc] at htimer
    obtain ⟨hb, hlost⟩ := Prod.mk.inj htimer
    exact h.other (by rw [hc]; rfl) (by rw [hb]) (by rw [hb]) (by rw [hb])
      (by rw [hb, hlost, Bool.false_or])
  | streamChanged connected =>
    cases connected with
    | true => exact h.connect hc
    | false => exact h.disconnect hc
  | tick =>
    rw [hc] at htimer
    obtain ⟨hb, hlost⟩ := Prod.mk.inj htimer
    obtain ⟨-, hdown, hsince, honce⟩ := skBridgeTick_keeps (reading 32 c.time) s.toSkBridge
    refine h.other (by rw [hc]; rfl) (by rw [hb, honce]) (by rw [hb, hdown])
      (by rw [hb, hsince]) ?_
    rw [hb, hlost]
    unfold skBridgeTick
    dsimp only
    cases skLossDue (reading 32 c.time) s.toSkBridge <;> simp

end Watch

theorem LossWatch.boot : LossWatch .zero [] :=
  ⟨rfl, rfl, fun _ => iff_of_false Bool.false_ne_true nofun, rfl, fun _ _ h => nomatch h⟩

theorem LossWatch.run (cs : List SkCall) :
    LossWatch (run SkPublisher.step .zero cs) (history SkPublisher.step .zero cs) :=
  run_induction SkPublisher.step (P := fun _ _ => True) .zero LossWatch.boot
    (fun _ _ c h _ => LossWatch.step c h) cs (fun _ _ => trivial)

theorem lost_of_tick {s : SkPublisher} {c : SkCall} (hc : c.op = .tick) :
    (s.result c).lost = skLossDue (reading 32 c.time) s.toSkBridge := by
  have htimer := result_timer s c
  rw [hc] at htimer
  exact (Prod.mk.inj htimer).2

theorem isTick_of_lost {s : SkPublisher} {c : SkCall} (h : (s.result c).lost = true) :
    c.op = .tick := by
  have htimer := (Prod.mk.inj (result_timer s c)).2
  cases hc : c.op with
  | tick => rfl
  | _ =>
    rw [hc] at htimer
    exact absurd (htimer.symm.trans h) Bool.false_ne_true

/-- The grace period as the code measures it, on a clock that has turned over
at most once since. -/
theorem graceMs_le_iff (cfg : DeviceConfig) {since now : ℕ} (hle : since ≤ now)
    (hturn : now < since + 2 ^ 32) : graceMs cfg ≤ reading 32 now - reading 32 since ↔
      cfg.skLossGraceS.toNat * 1000 ≤ now - since := by
  rw [BitVec.le_def, graceMs_toNat, reading_sub_toNat 32 now since hle,
    Nat.mod_eq_of_lt (by omega)]

/-- The timer's test as a statement about the calls so far. -/
theorem lost_iff {s : SkPublisher} {past : List SkEntry} {c : SkCall} (h : LossWatch s past)
    (hpast : ∀ e ∈ past, e.2.time ≤ c.time)
    (hclock : c.op = .tick → ∀ later d, DownSince past later d → c.time < d.2.time + 2 ^ 32) :
    (s.result c).lost = true ↔ c.op = .tick ∧ treesInForce past = true ∧
      ∃ later d, DownSince past later d ∧
        (graceInForce past).toNat * 1000 ≤ c.time - d.2.time ∧
        ∀ x ∈ later, SkEntry.lost x = false := by
  have hgrace : c.op = .tick → ∀ later d, DownSince past later d →
      (graceMs s.cfg ≤ reading 32 c.time - s.downSince ↔
        (graceInForce past).toNat * 1000 ≤ c.time - d.2.time) := by
    intro hc later d hd
    rw [(h.since later d (downSince_complete hd)).1, ← h.grace]
    obtain ⟨earlier, hpastd, -⟩ := id hd
    exact graceMs_le_iff s.cfg (hpast d (by rw [hpastd]; simp)) (hclock hc later d hd)
  constructor
  · intro hlost
    have hc := isTick_of_lost hlost
    rw [lost_of_tick hc, skLossDue] at hlost
    simp only [Bool.and_eq_true, Bool.not_eq_true', decide_eq_true_eq] at hlost
    obtain ⟨⟨⟨hdown, hfired⟩, htrees⟩, hover⟩ := hlost
    rw [h.down, Option.isSome_iff_exists] at hdown
    obtain ⟨⟨later, d⟩, ho⟩ := hdown
    have hd := downSince_sound ho
    refine ⟨hc, h.trees ▸ htrees, later, d, hd, (hgrace hc later d hd).mp hover, ?_⟩
    rw [(h.since later d ho).2, List.any_eq_false] at hfired
    exact fun x hx => by simpa using hfired x hx
  · rintro ⟨hc, htrees, later, d, hd, hover, hquiet⟩
    have ho := downSince_complete hd
    have hfired : s.lostFired = false := by
      rw [(h.since later d ho).2, List.any_eq_false]
      exact fun x hx => by simpa using hquiet x hx
    have hdown : s.down = true := by rw [h.down, ho]; rfl
    rw [lost_of_tick hc, skLossDue, hdown, hfired, h.trees, htrees]
    simpa using (hgrace hc later d hd).mpr hover

/-- In every run from static storage, in which the clock turns over at most
once between the start of an outage and a tick within it, a call leads to
`sk_lost` exactly if it is a tick, a tree is published, the stream has been
down for the grace period in force since it was last connected, and no earlier
tick of this outage did. -/
theorem run_lost_iff (cs : List SkCall) (htimes : (cs.map SkCall.time).Pairwise (· ≤ ·))
    (hclock : ∀ e past, e :: past <:+ history SkPublisher.step .zero cs → e.2.op = .tick →
      ∀ later d, DownSince past later d → e.2.time < d.2.time + 2 ^ 32) :
    ∀ e past, e :: past <:+ history SkPublisher.step .zero cs →
      (SkEntry.lost e = true ↔ e.2.op = .tick ∧ treesInForce past = true ∧
        ∃ later d, DownSince past later d ∧
          (graceInForce past).toNat * 1000 ≤ e.2.time - d.2.time ∧
          ∀ x ∈ later, SkEntry.lost x = false) := by
  intro e past he
  obtain ⟨js, ks, -, hs, hpast⟩ := entry_of_suffix he
  have hwatch := LossWatch.run js
  rw [← hs, ← hpast] at hwatch
  exact lost_iff hwatch (past_le htimes he) (hclock e past he)

/-- Connected, down for ten seconds with a second disconnect event, connected
again, and down for good. -/
def twoOutages : List SkCall :=
  [⟨.start .bothTrees fun _ => none, 0, .quiet⟩, ⟨.streamChanged true, 10, .quiet⟩,
    ⟨.streamChanged false, 1000, .quiet⟩, ⟨.streamChanged false, 9000, .quiet⟩,
    ⟨.tick, 11000, .quiet⟩, ⟨.streamChanged true, 12000, .quiet⟩,
    ⟨.streamChanged false, 20000, .quiet⟩, ⟨.tick, 49999, .quiet⟩, ⟨.tick, 50000, .quiet⟩,
    ⟨.tick, 50010, .quiet⟩]

/-- The ninth call fires, for the second outage. -/
theorem two_outages_fire :
    treesInForce (history SkPublisher.step .zero (twoOutages.take 8)) = true ∧
      ∃ later d, DownSince (history SkPublisher.step .zero (twoOutages.take 8)) later d ∧
        (graceInForce (history SkPublisher.step .zero (twoOutages.take 8))).toNat * 1000 ≤
          50000 - d.2.time ∧
        ∀ x ∈ later, SkEntry.lost x = false := by
  have htimes : ∀ c ∈ twoOutages, c.time < 2 ^ 32 := by decide
  have hclock : ∀ e past, e :: past <:+ history SkPublisher.step .zero twoOutages →
      e.2.op = .tick → ∀ later d, DownSince past later d → e.2.time < d.2.time + 2 ^ 32 := by
    intro e past he _ _ d _
    have hmem := input_of_history SkPublisher.step .zero twoOutages e
      (he.subset (List.mem_cons_self ..))
    exact (htimes e.2 hmem).trans_le (Nat.le_add_left _ _)
  have hninth := suffix_history SkPublisher.step .zero (twoOutages.take 8)
    ⟨.tick, 50000, .quiet⟩ [⟨.tick, 50010, .quiet⟩]
  exact ((run_lost_iff twoOutages (by decide) hclock _ _ hninth).mp (by decide +kernel)).2

example : (history SkPublisher.step .zero twoOutages).reverse.map SkEntry.lost =
    [false, false, false, false, false, false, false, false, true, false] := by
  decide +kernel

end RelayBoard
