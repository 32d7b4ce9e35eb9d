import RelayBoard.AlertTrace

/-!
# What every channel keeps

Seven fields of a channel are changed by five functions. They keep to a few
rules, and they agree with the ledger of what happened to the channel; what
happens to it follows the rules for events.
-/

set_option autoImplicit false

namespace RelayBoard
open BitVec Lib Lib.Loops Lib.Runs Lib.Journal

structure ChanInv (c : AlertChan) (L : Ledger) : Prop where
  acked : c.acked = true → c.active = true
  text : c.textDue = true → c.active = true
  status : c.statusDue = true → c.active = true ∨ 0 < c.clearLeft
  left : c.clearLeft ≤ 3
  opened : L.opened = if c.active then some (c.level, c.occurrence) else none
  ackName : c.active = true → L.acked = if c.acked then some c.ackName else none
  ended : 0 < c.clearLeft → L.ended = some (c.clearLevel, c.clearOccurrence)
  next : 0 < c.clearLeft → c.occurrence =
    if c.active then AlertChan.nextOccurrence c.clearOccurrence else c.clearOccurrence
  number : c.occurrence = occurrenceOf L.raises
  owed : L.lost = false → ∀ p, L.owed = some p →
    p = (c.clearLevel, c.clearOccurrence) ∧ c.clearLeft = 3 ∧ c.statusDue = true

/-- The channel has come to this by events that follow the rules. -/
structure Kept (L : Ledger) (es : List ChanEvent) (c : AlertChan) : Prop where
  follows : Traces.Follows Ledger.note AlertRule L es
  inv : ChanInv c (L.read es)

theorem ChanInv.kept {c : AlertChan} {L : Ledger} (h : ChanInv c L) : Kept L [] c := ⟨trivial, h⟩

theorem Kept.append {c c' : AlertChan} {L : Ledger} {xs ys : List ChanEvent} (h : Kept L xs c)
    (h' : Kept (L.read xs) ys c') : Kept L (xs ++ ys) c' :=
  ⟨(Traces.follows_append L xs ys).mpr ⟨h.follows, h'.follows⟩, by
    rw [Ledger.read_append]
    exact h'.inv⟩

theorem nextOccurrence_ne (o : Byte) : AlertChan.nextOccurrence o ≠ o := by
  revert o
  decide +kernel

theorem nextOccurrence_occurrenceOf (n : ℕ) :
    AlertChan.nextOccurrence (occurrenceOf n) = occurrenceOf (n + 1) := by
  unfold AlertChan.nextOccurrence occurrenceOf
  rw [if_neg (Nat.succ_ne_zero n), Nat.add_sub_cancel]
  cases n with
  | zero => rfl
  | succ n =>
    rw [if_neg (Nat.succ_ne_zero n), Nat.add_sub_cancel]
    have hlt : n % 255 < 255 := Nat.mod_lt _ (by decide)
    by_cases hlast : n % 255 = 254
    · have hwrap : (n + 1) % 255 = 0 := by omega
      rw [hlast, hwrap]
      rfl
    · have hnext : (n + 1) % 255 = n % 255 + 1 := by omega
      have hne : BitVec.ofNat 8 (n % 255 + 1) ≠ 255#8 := by
        intro h
        have hnat := congrArg BitVec.toNat h
        simp only [BitVec.toNat_ofNat] at hnat
        omega
      rw [if_neg hne, hnext, ← BitVec.ofNat_add]

namespace ChanInv

variable {c : AlertChan} {L : Ledger}

theorem zero : ChanInv .zero .empty :=
  ⟨nofun, nofun, nofun, by decide, rfl, nofun, by decide, by decide, rfl, nofun⟩

theorem beginClear (h : ChanInv c L) (hc : c.active = true) : Kept L [.cleared] c.beginClear := by
  have hopened := h.opened.trans (if_pos hc)
  refine ⟨⟨⟨_, hopened⟩, trivial⟩,
    ⟨nofun, nofun, fun _ => .inr ?_, ?_, rfl, nofun, fun _ => ?_, fun _ => rfl, h.number, ?_⟩⟩
  · exact Nat.succ_pos 2
  · exact Nat.le_refl 3
  · exact hopened
  · intro hlost p hp
    change (L.lost || L.owed.isSome) = false at hlost
    change (if L.told then L.opened else L.owed) = some p at hp
    split at hp
    · cases hopened.symm.trans hp
      exact ⟨rfl, rfl, rfl⟩
    · rw [hp] at hlost
      simp at hlost

theorem next_number (h : ChanInv c L) :
    AlertChan.nextOccurrence c.occurrence = occurrenceOf (L.raises + 1) := by
  rw [h.number, nextOccurrence_occurrenceOf]

theorem raiseAlert (h : ChanInv c L) (hc : c.active = false) {level : InputAlarm}
    (hlevel : level ≠ .off) :
    Kept L [.raised level (AlertChan.nextOccurrence c.occurrence)] (c.raiseAlert level) := by
  refine ⟨⟨⟨?_, hlevel, h.next_number⟩, trivial⟩,
    ⟨nofun, fun _ => rfl, fun _ => .inl rfl, h.left, rfl, fun _ => rfl, h.ended, fun hl => ?_,
      h.next_number, fun hlost p hp => ?_⟩⟩
  · rw [h.opened, hc]
    rfl
  · have hsame : c.occurrence = c.clearOccurrence := by simpa [hc] using h.next hl
    exact congrArg AlertChan.nextOccurrence hsame
  · obtain ⟨hpair, hleft, -⟩ := h.owed hlost p hp
    exact ⟨hpair, hleft, rfl⟩

theorem react (h : ChanInv c L) {want : Bool} {level : InputAlarm}
    (hlevel : want = true → level ≠ .off) :
    Kept L (c.turns want level) (c.react want level) := by
  unfold AlertChan.react AlertChan.turns
  cases hclears : c.clears want level with
  | true =>
    have hc : c.active = true := by
      simp only [AlertChan.clears, Bool.and_eq_true] at hclears
      exact hclears.1
    have hcleared := h.beginClear hc
    cases want with
    | true =>
      have hraises : c.raises true level = true := by
        simpa [AlertChan.clears, AlertChan.raises, hc] using hclears
      simp only [hraises, ite_true]
      exact hcleared.append (hcleared.inv.raiseAlert rfl (hlevel rfl))
    | false =>
      simp only [AlertChan.raises, Bool.false_and, ite_true, Bool.false_eq_true, ite_false,
        List.append_nil, Bool.and_false]
      exact hcleared
  | false =>
    cases hc : c.active with
    | true =>
      have hraises : c.raises want level = false := by
        simp only [AlertChan.clears, hc, Bool.true_and, Bool.or_eq_false_iff] at hclears
        simp [AlertChan.raises, hc, hclears.2]
      simpa [hraises, hc] using h.kept
    | false =>
      cases want with
      | true =>
        have hraises : c.raises true level = true := by simp [AlertChan.raises, hc]
        simp only [hraises, hc, Bool.false_eq_true, ite_false, ite_true, List.nil_append,
          Bool.not_false, Bool.and_true]
        exact h.raiseAlert hc (hlevel rfl)
      | false => simpa [AlertChan.raises, hc] using h.kept

theorem flags (h : ChanInv c L) {textDue statusDue : Bool} (ht : textDue = true → c.active = true)
    (hs : statusDue = true → c.active = true ∨ 0 < c.clearLeft)
    (hmore : c.statusDue = true → statusDue = true) :
    ChanInv { c with textDue := textDue, statusDue := statusDue } L := by
  refine ⟨h.acked, ht, hs, h.left, h.opened, h.ackName, h.ended, h.next, h.number, ?_⟩
  intro hlost p hp
  obtain ⟨hpair, hleft, hdue⟩ := h.owed hlost p hp
  exact ⟨hpair, hleft, hmore hdue⟩

theorem fallDue_eq (c : AlertChan) (statusPeriod textPeriod : Bool) :
    c.fallDue statusPeriod textPeriod =
      { c with
        textDue := c.textDue || (textPeriod && c.active)
        statusDue := c.statusDue || (statusPeriod && (c.active || c.clearLeft != 0)) } := by
  unfold AlertChan.fallDue
  cases hs : statusPeriod && (c.active || c.clearLeft != 0) with
  | true => cases ht : textPeriod && c.active <;> simp [ht]
  | false => cases ht : textPeriod && c.active <;> simp [ht]

theorem fallDue (h : ChanInv c L) (statusPeriod textPeriod : Bool) :
    ChanInv (c.fallDue statusPeriod textPeriod) L := by
  rw [fallDue_eq]
  refine h.flags (fun ht => ?_) (fun hs => ?_) (fun hs => ?_)
  · rcases (Bool.or_eq_true _ _).mp ht with ht | ht
    · exact h.text ht
    · exact (Bool.and_eq_true _ _ ▸ ht).2
  · rcases (Bool.or_eq_true _ _).mp hs with hs | hs
    · exact h.status hs
    · simp only [Bool.and_eq_true, Bool.or_eq_true, bne_iff_ne] at hs
      exact hs.2.imp_right Nat.pos_of_ne_zero
  · rw [hs, Bool.true_or]

/-- Sending leaves nothing due; an alert still owed must have been reported by
what was sent. -/
theorem sent (h : ChanInv c L) (howed : L.lost = false → L.owed = none) : ChanInv c.sent L := by
  have hless : c.sent.clearLeft ≤ c.clearLeft := by
    change (if c.statusDue then c.clearLeft - 1 else c.clearLeft) ≤ _
    split_ifs <;> omega
  refine ⟨h.acked, nofun, nofun, hless.trans h.left, h.opened, h.ackName,
    fun hl => h.ended (hl.trans_le hless), fun hl => h.next (hl.trans_le hless), h.number, ?_⟩
  intro hlost p hp
  rw [howed hlost] at hp
  cases hp

theorem acknowledge (h : ChanInv c L) (hc : c.active = true) (hacked : c.acked = false)
    (name : IsoName) :
    Kept L [.acked name] { c with acked := true, ackName := name, statusDue := true } := by
  refine ⟨⟨⟨⟨_, h.opened.trans (if_pos hc)⟩, ?_⟩, trivial⟩,
    ⟨fun _ => hc, h.text, fun _ => .inl hc, h.left, h.opened, fun _ => rfl, h.ended, h.next,
      h.number, fun hlost p hp => ?_⟩⟩
  · rw [h.ackName hc, hacked]
    rfl
  · obtain ⟨hpair, hleft, -⟩ := h.owed hlost p hp
    exact ⟨hpair, hleft, rfl⟩

theorem told (h : ChanInv c L) (st : Alert) : ChanInv c (L.note (.told st)) :=
  ⟨h.acked, h.text, h.status, h.left, h.opened, h.ackName, h.ended, h.next, h.number, h.owed⟩

theorem normal (h : ChanInv c L) (st : Alert) : ChanInv c (L.note (.normal st)) := by
  refine ⟨h.acked, h.text, h.status, h.left, h.opened, h.ackName, h.ended, h.next, h.number, ?_⟩
  intro hlost p hp
  exact h.owed hlost p (Option.eq_some_of_filter_eq_some hp)

end ChanInv

namespace N2kAlerts

variable {a : N2kAlerts} {i : Channel} {L : Ledger}

theorem normal_reports (a : N2kAlerts) (i : Channel) :
    (a.n2kAlertsStatusOf i true).reports ((a.ch i).clearLevel, (a.ch i).clearOccurrence) :=
  ⟨rfl, rfl⟩

theorem told_reports (a : N2kAlerts) (i : Channel) :
    (a.n2kAlertsStatusOf i false).reports ((a.ch i).level, (a.ch i).occurrence) :=
  ⟨rfl, rfl⟩

/-- What is sent as normal is the alert cleared last, not the open one. -/
theorem normal_kept (h : ChanInv (a.ch i) L) (hleft : 0 < (a.ch i).clearLeft) :
    Kept L [.normal (a.n2kAlertsStatusOf i true)] (a.ch i) := by
  refine ⟨⟨⟨⟨_, h.ended hleft, a.normal_reports i⟩, fun q hq hrep => ?_⟩, trivial⟩, h.normal _⟩
  rw [h.opened] at hq
  split at hq
  · rename_i hactive
    cases hq
    have hnext := h.next hleft
    rw [if_pos hactive] at hnext
    have hsame : (a.ch i).clearOccurrence = (a.ch i).occurrence := hrep.2
    exact nextOccurrence_ne _ (hnext.symm.trans hsame.symm)
  · cases hq

theorem normal_owed (h : ChanInv (a.ch i) L)
    (hlost : (L.note (.normal (a.n2kAlertsStatusOf i true))).lost = false) :
    (L.note (.normal (a.n2kAlertsStatusOf i true))).owed = none := by
  change L.owed.filter _ = none
  rw [Option.filter_eq_none_iff]
  intro p hp
  obtain ⟨rfl, -⟩ := h.owed hlost p hp
  simp [normal_reports]

theorem told_kept (h : ChanInv (a.ch i) L) (hactive : (a.ch i).active = true) :
    Kept L [.told (a.n2kAlertsStatusOf i false)] (a.ch i) := by
  refine ⟨⟨⟨⟨_, h.opened.trans (if_pos hactive), a.told_reports i⟩, ?_, ?_⟩, trivial⟩,
    h.told (a.n2kAlertsStatusOf i false)⟩
  · rw [h.ackName hactive]
    change (if (a.ch i).acked then _ else _) = _
    cases (a.ch i).acked <;> rfl
  · rw [h.ackName hactive]
    change (if (a.ch i).acked then _ else _) = _
    cases (a.ch i).acked <;> rfl

theorem statuses_kept (h : ChanInv (a.ch i) L) :
    Kept L (a.statuses i) (a.ch i) ∧
      ((L.read (a.statuses i)).lost = false → (L.read (a.statuses i)).owed = none) := by
  have hquiet : (a.ch i).statusDue = false ∨ (a.ch i).clearLeft = 0 → L.lost = false →
      L.owed = none := by
    intro hno hlost
    rw [Option.eq_none_iff_forall_ne_some]
    intro p hp
    obtain ⟨-, hleft, hdue⟩ := h.owed hlost p hp
    rcases hno with hno | hno
    · rw [hdue] at hno
      cases hno
    · omega
  unfold statuses
  by_cases hdue : (a.ch i).statusDue = true
  · rw [if_pos hdue]
    by_cases hleft : (a.ch i).clearLeft = 0
    · simp only [hleft, bne_self_eq_false, Bool.false_eq_true, ite_false, List.nil_append]
      split
      · rename_i hactive
        exact ⟨told_kept h hactive, hquiet (.inr hleft)⟩
      · exact ⟨h.kept, hquiet (.inr hleft)⟩
    · rw [if_pos (bne_iff_ne.mpr hleft)]
      have hnormal := normal_kept h (Nat.pos_of_ne_zero hleft)
      split
      · rename_i hactive
        exact ⟨hnormal.append (told_kept hnormal.inv hactive), normal_owed h⟩
      · exact ⟨hnormal, normal_owed h⟩
  · rw [if_neg hdue]
    exact ⟨h.kept, hquiet (.inl (by simpa using hdue))⟩

theorem idle_kept (h : ChanInv (a.ch i) L) :
    Kept L (if (a.ch i).idle then [.idle] else []) (a.ch i) := by
  split
  · rename_i hidle
    simp only [AlertChan.idle, AlertChan.due, Bool.and_eq_true, Bool.not_eq_true',
      Bool.or_eq_false_iff, beq_iff_eq] at hidle
    obtain ⟨⟨hinactive, hleft⟩, -⟩ := hidle
    refine ⟨⟨⟨?_, fun hlost => ?_⟩, trivial⟩, h⟩
    · rw [h.opened, hinactive]
      rfl
    · rw [Option.eq_none_iff_forall_ne_some]
      intro p hp
      have hthree := (h.owed hlost p hp).2.1
      omega
  · exact h.kept

theorem wants_level {inputsReady : Bool} {inputMask : Mask}
    (h : a.wants inputsReady inputMask i = true) : a.cfg.level i ≠ .off := by
  simp only [wants, Bool.and_eq_true, bne_iff_ne] at h
  exact h.1.2

theorem settle_kept (h : ChanInv (a.ch i) L) (inputsReady : Bool) (inputMask : Mask) (now : Ms) :
    Kept L ((a.ch i).turns (a.wants inputsReady inputMask i) (a.cfg.level i))
      ((a.settle inputsReady inputMask now).ch i) :=
  have hreact : Kept L ((a.ch i).turns (a.wants inputsReady inputMask i) (a.cfg.level i)) _ :=
    h.react wants_level
  ⟨hreact.follows, hreact.inv.fallDue _ _⟩

theorem tick_kept (h : ChanInv (a.ch i) L) (inputsReady : Bool) (inputMask : Mask) (now : Ms) :
    Kept L ((a.ch i).turns (a.wants inputsReady inputMask i) (a.cfg.level i) ++
        (a.n2kAlertsTick inputsReady inputMask now).2.filterMap (ChanEvent.ofMsg i))
      ((a.n2kAlertsTick inputsReady inputMask now).1.ch i) := by
  have hsettled := settle_kept h inputsReady inputMask now
  rw [tick_ch, tick_statuses]
  split
  · obtain ⟨hstatuses, howed⟩ := statuses_kept hsettled.inv
    exact hsettled.append ⟨hstatuses.follows, hstatuses.inv.sent howed⟩
  · exact hsettled.append hsettled.inv.kept

theorem response_kept (h : ChanInv (a.ch i) L) (data : List Byte) :
    Kept L (a.acks data i) ((a.n2kAlertsOnResponse data).2.ch i) := by
  unfold acks
  rcases a.onResponse_cases data with ⟨r, j, hr, hack, hresult⟩ | ⟨-, hresult⟩
  · rw [hr, hresult]
    dsimp only
    by_cases hij : i = j
    · subst hij
      simp only [acknowledge, hack.id, Function.update_self, Bool.true_and, decide_true, ite_true]
      exact h.acknowledge hack.active hack.unacked r.ackName
    · have hid : r.id.id ≠ BitVec.ofNat 16 (i.val + 1) := by
        rw [hack.id, Ne, chanId_inj]
        exact Ne.symm hij
      simp only [acknowledge, hid, Function.update_of_ne hij, decide_false, Bool.and_false,
        Bool.false_eq_true, ite_false]
      exact h.kept
  · rw [hresult]
    cases n2kAlertDecodeResponse data <;> exact h.kept

theorem setConfig_kept (h : ChanInv (a.ch i) L) (cfg : AlertsCfg) :
    Kept L [] ((a.n2kAlertsSetConfig cfg).ch i) := by
  change Kept L [] (if _ then _ else _)
  split
  · rename_i hretext
    have hactive := (Bool.and_eq_true _ _ ▸ hretext).1
    exact (h.flags (fun _ => hactive) h.status id).kept
  · exact h.kept

theorem step_kept (h : ChanInv (a.ch i) L) (op : AlertOp) :
    Kept L (events i a op) ((a.step op).ch i) := by
  have hidle : ∀ {es : List ChanEvent}, Kept L es ((a.step op).ch i) →
      Kept L (es ++ if ((a.step op).ch i).idle then [.idle] else []) ((a.step op).ch i) :=
    fun hes => hes.append (idle_kept hes.inv)
  unfold events
  refine hidle ?_
  cases op with
  | tick inputsReady inputMask now => exact tick_kept h inputsReady inputMask now
  | setConfig cfg => exact setConfig_kept h cfg
  | response data =>
    simp only [sends, List.filterMap_nil, List.append_nil]
    exact response_kept h data

/-- Along every run a channel agrees with its ledger, and what happens to it
follows the rules. -/
theorem run_kept_from (h : ChanInv (a.ch i) L) (ops : List AlertOp) :
    Kept L (trace i a ops) ((run step a ops).ch i) := by
  have hrun := Traces.run_follows step (events i) (I := fun a L => ChanInv (a.ch i) L)
    (P := fun _ _ _ => True) a L h
    (fun _ _ op h _ => ⟨(step_kept h op).follows, (step_kept h op).inv⟩) ops
    (fun _ _ _ => trivial)
  exact ⟨hrun.1, hrun.2⟩

theorem run_kept (cfg : AlertsCfg) (inst : Byte) (sourceName : IsoName) (now : Ms)
    (ops : List AlertOp) : Kept .empty (trace i (n2kAlertsInit cfg inst sourceName now) ops)
      ((run step (n2kAlertsInit cfg inst sourceName now) ops).ch i) :=
  run_kept_from ChanInv.zero ops

end N2kAlerts

end RelayBoard
