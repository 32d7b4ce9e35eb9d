import RelayBoard.AlertText

/-!
# Code points of any bytes

What `next_code_point` takes from the bytes at a position of a text, whether
they are UTF-8 or not. It joins the bits of every marked sequence, also of one
that is longer than its number needs and of one that spells a surrogate.
-/

set_option autoImplicit false

namespace RelayBoard
open Lib.Characters Lib.LittleEndian Lib.Memory Lib.Scanning

/-- The code unit for a number, a question mark where it has none. -/
def unitOf (v : ℕ) : BitVec 16 := if 0xffff < v then 0x3f#16 else BitVec.ofNat 16 v

theorem lead_four : ∀ k < 8, ¬BitVec.ofNat 8 (k + 0xf0) < 0x80#8 ∧
    ¬BitVec.ofNat 8 (k + 0xf0) &&& 0xe0#8 = 0xc0#8 ∧
    ¬BitVec.ofNat 8 (k + 0xf0) &&& 0xf0#8 = 0xe0#8 ∧
    BitVec.ofNat 8 (k + 0xf0) &&& 0xf8#8 = 0xf0#8 ∧
    (BitVec.ofNat 8 (k + 0xf0) &&& 0x07#8).setWidth 32 = BitVec.ofNat 32 k := by
  decide +kernel

theorem stray_byte : ∀ n < 0x100, 0x80 ≤ n → n < 0xc0 ∨ 0xf8 ≤ n → ¬BitVec.ofNat 8 n < 0x80#8 ∧
    ¬BitVec.ofNat 8 n &&& 0xe0#8 = 0xc0#8 ∧ ¬BitVec.ofNat 8 n &&& 0xf0#8 = 0xe0#8 ∧
    ¬BitVec.ofNat 8 n &&& 0xf8#8 = 0xf0#8 := by
  decide +kernel

theorem marked_trail : ∀ n < 0x100, BitVec.ofNat 8 n &&& 0xc0#8 = 0x80#8 → 0x80 ≤ n ∧ n < 0xc0 := by
  decide +kernel

theorem exists_trailByte {c : Byte} (h : c &&& 0xc0#8 = 0x80#8) : ∃ k < 64, c = trailByte k := by
  have hbyte : BitVec.ofNat 8 c.toNat = c := BitVec.ofNat_toNat 8 c
  obtain ⟨hlow, hhigh⟩ := marked_trail c.toNat c.isLt (by rw [hbyte, h])
  refine ⟨c.toNat - 0x80, by omega, ?_⟩
  rw [trailByte, Nat.sub_add_cancel hlow, hbyte]

theorem continueCodePoint_unit {v : ℕ} (hv : v < 2 ^ 32) (s : List Byte) :
    continueCodePoint 0 (BitVec.ofNat 32 v) s = some (unitOf v, s) := by
  have hlt : 0xffff#32 < BitVec.ofNat 32 v ↔ 0xffff < v := by
    rw [BitVec.lt_def, BitVec.toNat_ofNat, BitVec.toNat_ofNat, Nat.mod_eq_of_lt hv]
  simp only [continueCodePoint, unitOf, hlt, BitVec.setWidth_ofNat_of_le (show 16 ≤ 32 by decide)]

theorem continueCodePoint_all {ks : List ℕ} {v : ℕ} (hks : ∀ k ∈ ks, k < 64)
    (hlen : ks.length ≤ 3) (hv : v < 2 ^ (32 - 6 * ks.length)) (s : List Byte) :
    continueCodePoint ks.length (BitVec.ofNat 32 v) (ks.map trailByte ++ s) =
      some (unitOf (joinBits v ks), s) := by
  induction ks generalizing v with
  | nil => exact continueCodePoint_unit hv s
  | cons k ks ih =>
    have hk : k < 64 := hks k (List.mem_cons_self ..)
    have hshort : ks.length ≤ 2 := by
      rw [List.length_cons] at hlen
      omega
    have hbound : 2 ^ (32 - 6 * ks.length) = 2 ^ (32 - 6 * (k :: ks).length) * 64 := by
      rw [List.length_cons, show 64 = 2 ^ 6 from rfl, ← Nat.pow_add]
      congr 1
      omega
    have hsmall : v < 2 ^ 26 := by
      refine hv.trans_le (Nat.pow_le_pow_right (by decide) ?_)
      rw [List.length_cons]
      omega
    rw [List.length_cons, List.map_cons, List.cons_append, trailByte,
      continueCodePoint_trail ks.length hsmall hk,
      ih (fun j hj => hks j (List.mem_cons_of_mem k hj)) (by omega) (by omega)]
    rfl

theorem continueCodePoint_missing {more : ℕ} {cp : BitVec 32} (text : List Byte)
    (h : ∀ (ks : List ℕ) (rest : List Byte), ks.length = more →
      (∀ k ∈ ks, k < 64) → text ≠ ks.map trailByte ++ rest) :
    ∃ rest, continueCodePoint more cp (terminated text) = some (0x3f#16, rest) := by
  induction more generalizing cp text with
  | zero => exact absurd rfl (h [] text rfl (by simp))
  | succ more ih =>
    cases text with
    | nil => exact ⟨_, rfl⟩
    | cons c text =>
      rw [terminated_cons, continueCodePoint]
      by_cases hmark : c &&& 0xc0#8 = 0x80#8
      · rw [if_neg (by simp [hmark])]
        obtain ⟨k, hk, rfl⟩ := exists_trailByte hmark
        refine ih text fun ks rest hlen hks htext => ?_
        refine h (k :: ks) rest (by rw [List.length_cons, hlen]) ?_ ?_
        · exact List.forall_mem_cons.mpr ⟨hk, hks⟩
        · rw [htext, List.map_cons, List.cons_append]
      · rw [if_pos hmark]
        exact ⟨_, rfl⟩

theorem nextCodePoint_lead {more a : ℕ} (hmore : 1 ≤ more ∧ more ≤ 3) (ha : a < 2 ^ (6 - more))
    (s : List Byte) :
    nextCodePoint (leadByte more a :: s) = continueCodePoint more (BitVec.ofNat 32 a) s := by
  obtain rfl | rfl | rfl : more = 1 ∨ more = 2 ∨ more = 3 := by omega
  · obtain ⟨hhigh, hmark, hvalue⟩ := lead_two a ha
    rw [leadByte, mark, nextCodePoint, if_neg hhigh, if_pos hmark, hvalue]
  · obtain ⟨hhigh, hother, hmark, hvalue⟩ := lead_three a ha
    rw [leadByte, mark, nextCodePoint, if_neg hhigh, if_neg hother, if_pos hmark, hvalue]
  · obtain ⟨hhigh, hother, hother', hmark, hvalue⟩ := lead_four a ha
    rw [leadByte, mark, nextCodePoint, if_neg hhigh, if_neg hother, if_neg hother', if_pos hmark,
      hvalue]
    · simp
    · simp

/-- A marked sequence gives the unit of its number, whatever the number. -/
theorem nextCodePoint_spells {more v : ℕ} {bytes : List Byte} (h : Spells more v bytes)
    (s : List Byte) : nextCodePoint (bytes ++ s) = some (unitOf v, s) := by
  cases h with
  | @lead a ks hmore ha hlen hks =>
    have hbits : a < 2 ^ (32 - 6 * ks.length) :=
      ha.trans_le (Nat.pow_le_pow_right (by decide) (by omega))
    rw [List.cons_append, nextCodePoint_lead hmore ha, ← hlen,
      continueCodePoint_all hks (by omega) hbits]

theorem byte_kinds (c : Byte) : c.toNat < 0x80 ∨
    (∃ more a, (1 ≤ more ∧ more ≤ 3) ∧ a < 2 ^ (6 - more) ∧ c = leadByte more a) ∨
    ∀ s, nextCodePoint (c :: s) = some (0x3f#16, s) := by
  have hbyte : BitVec.ofNat 8 c.toNat = c := BitVec.ofNat_toNat 8 c
  have hlt : c.toNat < 0x100 := c.isLt
  have hlead : ∀ more, mark more ≤ c.toNat → c = leadByte more (c.toNat - mark more) := by
    intro more hmark
    rw [leadByte, Nat.sub_add_cancel hmark, hbyte]
  by_cases hlow : c.toNat < 0x80
  · exact Or.inl hlow
  by_cases hstray : c.toNat < 0xc0 ∨ 0xf8 ≤ c.toNat
  · obtain ⟨h1, h2, h3, h4⟩ := stray_byte c.toNat hlt (by omega) hstray
    rw [hbyte] at h1 h2 h3 h4
    exact Or.inr (Or.inr fun s => by rw [nextCodePoint, if_neg h1, if_neg h2, if_neg h3, if_neg h4])
  · refine Or.inr (Or.inl ?_)
    by_cases hone : c.toNat < 0xe0
    · exact ⟨1, _, by omega, by simp only [mark]; omega, hlead 1 (by simp only [mark]; omega)⟩
    by_cases htwo : c.toNat < 0xf0
    · exact ⟨2, _, by omega, by simp only [mark]; omega, hlead 2 (by simp only [mark]; omega)⟩
    · exact ⟨3, _, by omega, by simp only [mark]; omega, hlead 3 (by simp only [mark]; omega)⟩

theorem nextCodePoint_broken {c : Byte} (hc : ¬c.toNat < 0x80) (text : List Byte)
    (h : ∀ more v bytes, Spells more v bytes → ¬bytes <+: c :: text) :
    ∃ rest, nextCodePoint (terminated (c :: text)) = some (0x3f#16, rest) := by
  rw [terminated_cons]
  rcases byte_kinds c with hlow | ⟨more, a, hmore, ha, rfl⟩ | hstray
  · exact absurd hlow hc
  · rw [nextCodePoint_lead hmore ha]
    refine continueCodePoint_missing text fun ks rest hlen hks htext => ?_
    refine h more (joinBits a ks) _ (.lead hmore ha hlen hks) ⟨rest, ?_⟩
    rw [htext, List.cons_append]
  · exact ⟨_, hstray _⟩

theorem nextCodePoint_low {c : Byte} (hc : c.toNat < 0x80) (s : List Byte) :
    nextCodePoint (c :: s) = some (unitOf c.toNat, s) := by
  have hlt : c < 0x80#8 := BitVec.lt_def.mpr hc
  have hunit : unitOf c.toNat = c.setWidth 16 := by
    rw [unitOf, if_neg (by omega), BitVec.ofNat_toNat]
  rw [nextCodePoint, if_pos hlt, hunit]

theorem nextCodePoint_char (c : Char) (s : List Byte) :
    nextCodePoint (utf8Char c ++ s) = some (unitOf c.toNat, s) := by
  by_cases hlow : c.toNat < 0x80
  · have hbyte : (BitVec.ofNat 8 c.toNat).toNat = c.toNat := by
      rw [BitVec.toNat_ofNat, Nat.mod_eq_of_lt (by omega)]
    rw [utf8Char_one hlow, List.singleton_append, nextCodePoint_low (by rw [hbyte]; exact hlow),
      hbyte]
  · obtain ⟨more, hspells, -⟩ := spells_utf8Char (Nat.not_lt.mp hlow)
    exact nextCodePoint_spells hspells s

/-- The code point at a position, the bytes from there on being `s`. -/
structure Decoded (s : List Byte) : Prop where
  advances : ∃ u n, nextCodePoint (terminated s) = some (u, terminated (s.drop n)) ∧
    1 ≤ n ∧ n ≤ s.length
  character : ∀ c : Char, utf8Char c <+: s → nextCodePoint (terminated s) =
    some (unitOf c.toNat, terminated (s.drop (utf8Char c).length))
  malformed : (∀ c : Char, ¬utf8Char c <+: s) →
    ∃ rest, nextCodePoint (terminated s) = some (0x3f#16, rest)

/-- At the position there is a whole sequence, of a number that has a shorter
one or is a surrogate, the question mark apart. -/
def Miscoded (s : List Byte) : Prop :=
  ∃ more v bytes, Spells more v bytes ∧ bytes <+: s ∧
    (v < least more ∨ 0xd800 ≤ v ∧ v ≤ 0xdfff) ∧ v ≠ 0x3f

theorem decoded_advances {s : List Byte} (hs : s ≠ []) :
    ∃ u n, nextCodePoint (terminated s) = some (u, terminated (s.drop n)) ∧
      1 ≤ n ∧ n ≤ s.length := by
  cases s with
  | nil => exact absurd rfl hs
  | cons c text =>
    obtain ⟨u, rest, hnext, front, rfl⟩ := nextCodePoint_terminated c text
    refine ⟨u, front.length + 1, ?_, by omega, ?_⟩
    · rw [hnext, List.drop_succ_cons, List.drop_left]
    · rw [List.length_cons, List.length_append]
      omega

theorem decoded_character {s : List Byte} (c : Char) (h : utf8Char c <+: s) :
    nextCodePoint (terminated s) =
      some (unitOf c.toNat, terminated (s.drop (utf8Char c).length)) := by
  obtain ⟨rest, rfl⟩ := h
  rw [terminated_append, nextCodePoint_char, List.drop_left]

theorem lead_high {more v : ℕ} {bytes s : List Byte} {c : Byte} (h : Spells more v bytes)
    (hs : bytes <+: c :: s) : 0xc0 ≤ c.toNat := by
  cases h with
  | @lead a ks hmore ha hlen hks =>
    obtain ⟨rest, hrest⟩ := hs
    rw [← (List.cons.inj hrest).1, (toNat_leadByte hmore ha).1]
    obtain rfl | rfl | rfl : more = 1 ∨ more = 2 ∨ more = 3 := by omega
    all_goals
      simp only [mark]
      omega

/-- Where a sequence is spelled, a character can only be the one it spells. -/
theorem char_of_spells {more v : ℕ} {bytes s : List Byte} {c : Char} (h : Spells more v bytes)
    (hs : bytes <+: s) (hc : utf8Char c <+: s) : c.toNat = v ∧ least more ≤ v := by
  obtain ⟨rest, rfl⟩ := hs
  obtain ⟨rest', heq⟩ := hc
  by_cases hlow : c.toNat < 0x80
  · rw [utf8Char_one hlow, List.singleton_append] at heq
    have hhigh := lead_high h ⟨rest, heq.symm⟩
    rw [BitVec.toNat_ofNat, Nat.mod_eq_of_lt (by omega)] at hhigh
    omega
  · obtain ⟨more', hspells, hleast⟩ := spells_utf8Char (Nat.not_lt.mp hlow)
    obtain ⟨rfl, rfl⟩ := hspells.unique h heq
    exact ⟨rfl, hleast⟩

theorem decoded_malformed {s : List Byte} (hs : s ≠ []) (hspelled : ¬Miscoded s)
    (h : ∀ c : Char, ¬utf8Char c <+: s) :
    ∃ rest, nextCodePoint (terminated s) = some (0x3f#16, rest) := by
  cases s with
  | nil => exact absurd rfl hs
  | cons c text =>
    have hhigh : ¬c.toNat < 0x80 := by
      intro hlow
      have hvalid : (Char.ofNat c.toNat).toNat = c.toNat := toNat_ofNat (Or.inl (by omega))
      refine h (Char.ofNat c.toNat) ⟨text, ?_⟩
      rw [utf8Char_one (by rw [hvalid]; exact hlow), hvalid, BitVec.ofNat_toNat]
      rfl
    by_cases hall : ∃ more v bytes, Spells more v bytes ∧ bytes <+: c :: text
    · obtain ⟨more, v, bytes, hspells, rest, hrest⟩ := hall
      refine ⟨terminated rest, ?_⟩
      rw [← hrest, terminated_append, nextCodePoint_spells hspells]
      -- the number is too large for a unit, or it is the question mark's
      by_cases hmark : v = 0x3f
      · rw [hmark]
        rfl
      have hright : ¬(v < least more ∨ 0xd800 ≤ v ∧ v ≤ 0xdfff) := fun hwrong =>
        hspelled ⟨more, v, bytes, hspells, ⟨rest, hrest⟩, hwrong, hmark⟩
      have hlarge : 0x110000 ≤ v := by
        by_contra hsmall
        have hvalid : (Char.ofNat v).toNat = v := by
          apply toNat_ofNat
          unfold Nat.isValidChar
          omega
        refine h (Char.ofNat v) ⟨rest, ?_⟩
        rw [← utf8Char_of_spells hspells (by omega) hvalid, hrest]
      rw [unitOf, if_pos (by omega)]
    · exact nextCodePoint_broken hhigh text fun more v bytes hspells hprefix =>
        hall ⟨more, v, bytes, hspells, hprefix⟩

/-- A position is decoded right exactly if no miscoded sequence begins there. -/
theorem decoded_iff {s : List Byte} (hs : s ≠ []) : Decoded s ↔ ¬Miscoded s := by
  constructor
  · rintro h ⟨more, v, bytes, hspells, hprefix, hwrong, hmark⟩
    have hnone : ∀ c : Char, ¬utf8Char c <+: s := by
      intro c hc
      obtain ⟨hv, hleast⟩ := char_of_spells hspells hprefix hc
      have hvalid := toNat_valid c
      omega
    have hsmall : v ≤ 0xffff := by
      cases hspells with
      | @lead a ks hmore ha hlen hks =>
        obtain rfl | rfl | rfl : more = 1 ∨ more = 2 ∨ more = 3 := by omega
        all_goals
          simp only [least] at hwrong
          omega
    obtain ⟨rest, hnext⟩ := h.malformed hnone
    obtain ⟨tail, rfl⟩ := hprefix
    rw [terminated_append, nextCodePoint_spells hspells] at hnext
    have hunit := (Prod.mk.inj (Option.some.inj hnext)).1
    rw [unitOf, if_neg (by omega)] at hunit
    have hnum := congrArg BitVec.toNat hunit
    rw [BitVec.toNat_ofNat, Nat.mod_eq_of_lt (by omega)] at hnum
    exact hmark hnum
  · intro h
    exact ⟨decoded_advances hs, decoded_character, decoded_malformed hs h⟩

def Clean (u : BitVec 16) : Prop := u ≠ 0#16 ∧ ¬(0xd800 ≤ u.toNat ∧ u.toNat ≤ 0xdfff)

theorem clean_unitOf {c : Char} (hc : c.toNat ≠ 0) : Clean (unitOf c.toNat) := by
  have hvalid := toNat_valid c
  rw [unitOf]
  split_ifs with hlarge
  · exact ⟨by decide, by decide⟩
  · have hnum : (BitVec.ofNat 16 c.toNat).toNat = c.toNat := by
      rw [BitVec.toNat_ofNat, Nat.mod_eq_of_lt (by omega)]
    refine ⟨fun hzero => hc ?_, by rw [hnum]; omega⟩
    rw [← hnum, hzero]
    rfl

theorem Decoded.clean {s rest : List Byte} {u : BitVec 16} (h : Decoded s) (hs : 0#8 ∉ s)
    (hnext : nextCodePoint (terminated s) = some (u, rest)) : Clean u := by
  by_cases hchar : ∃ c : Char, utf8Char c <+: s
  · obtain ⟨c, hc⟩ := hchar
    rw [h.character c hc] at hnext
    rw [← (Prod.mk.inj (Option.some.inj hnext)).1]
    refine clean_unitOf fun hzero => hs (hc.subset ?_)
    rw [utf8Char_one (by omega), hzero]
    exact List.mem_singleton_self _
  · obtain ⟨rest', hmark⟩ := h.malformed fun c hc => hchar ⟨c, hc⟩
    rw [hmark] at hnext
    rw [← (Prod.mk.inj (Option.some.inj hnext)).1]
    exact ⟨by decide, by decide⟩

/-- Every unit of a text is clean whose positions are all decoded right. -/
theorem codePoints_clean (text : List Byte) (h : 0#8 ∉ text)
    (hall : ∀ s, s ≠ [] → s <:+ text → Decoded s) :
    ∀ u ∈ codePoints (terminated text), Clean u := by
  induction hlen : text.length using Nat.strong_induction_on generalizing text with
  | _ len ih =>
    cases text with
    | nil =>
      rw [terminated, List.nil_append, codePoints, if_pos rfl]
      simp
    | cons c text =>
      obtain ⟨u, rest, hnext, hrest⟩ := nextCodePoint_terminated c text
      have hc : c ≠ 0#8 := fun hc => h (by simp [hc])
      have hshort : rest.length < len := by
        rw [← hlen, List.length_cons]
        exact Nat.lt_succ_of_le hrest.length_le
      have hfirst := (hall (c :: text) (List.cons_ne_nil c text) (List.suffix_refl _)).clean h hnext
      rw [terminated_cons] at hnext ⊢
      rw [codePoints_cons hc hnext]
      refine List.forall_mem_cons.mpr ⟨hfirst, ih rest.length hshort rest ?_ ?_ rfl⟩
      · exact fun hz => h (List.mem_cons_of_mem c (hrest.subset hz))
      · exact fun s hs hsuffix => hall s hs (hsuffix.trans (hrest.trans (List.suffix_cons c text)))

/-- Whatever the room, the string sent for the text has clean units alone. -/
def SentClean (text : List Byte) : Prop :=
  ∀ (mem : ℕ → Byte) (out room : ℕ), 2 ≤ room → ∃ (f : StringLau) (us : List (BitVec 16)),
    putString (terminated text) mem out room =
      some (f.bytes.length, storeAll mem out f.bytes) ∧
    f.decode = some us ∧ ∀ u ∈ us, Clean u

theorem sentClean_of_decoded (text : List Byte) (h : 0#8 ∉ text)
    (hall : ∀ s, s ≠ [] → s <:+ text → Decoded s) : SentClean text := by
  intro mem out room hroom
  obtain ⟨f, hput, -, -, hdecode⟩ := putString_terminated text h mem out hroom
  exact ⟨f, _, hput, hdecode, fun u hu =>
    codePoints_clean text h hall u (List.mem_of_mem_take hu)⟩

/-- The positions of a text and the string sent for it. -/
theorem code_points_decoded_iff (text : List Byte) (h : 0#8 ∉ text) :
    (∀ i < text.length, Decoded (text.drop i) ↔ ¬Miscoded (text.drop i)) ∧
    ((∀ i < text.length, Decoded (text.drop i)) ∧ SentClean text ↔
      ∀ i < text.length, ¬Miscoded (text.drop i)) := by
  have hpos : ∀ i < text.length, Decoded (text.drop i) ↔ ¬Miscoded (text.drop i) :=
    fun i hi => decoded_iff (by simpa using hi)
  refine ⟨hpos, fun hall i hi => (hpos i hi).mp (hall.1 i hi), fun hall => ?_⟩
  have hdecoded : ∀ i < text.length, Decoded (text.drop i) := fun i hi =>
    (hpos i hi).mpr (hall i hi)
  refine ⟨hdecoded, sentClean_of_decoded text h fun s hs hsuffix => ?_⟩
  obtain ⟨front, rfl⟩ := hsuffix
  have hlen : 0 < s.length := List.length_pos_iff.mpr hs
  have hdrop := hdecoded front.length (by rw [List.length_append]; omega)
  rwa [List.drop_left] at hdrop

/-- Two letters, the second of two bytes. -/
theorem umlaut_decoded :
    (∀ i < 3, Decoded ([0x6c#8, 0xc3#8, 0xa4#8].drop i)) ∧ SentClean [0x6c#8, 0xc3#8, 0xa4#8] := by
  refine (code_points_decoded_iff [0x6c#8, 0xc3#8, 0xa4#8] (by decide)).2.mpr ?_
  rintro i hi ⟨more, v, bytes, hspells, hprefix, hwrong, -⟩
  obtain rfl | rfl | rfl : i = 0 ∨ i = 1 ∨ i = 2 := by
    simp only [List.length_cons, List.length_nil] at hi
    omega
  · exact absurd (lead_high hspells hprefix) (by decide)
  · have humlaut : Spells 1 0xe4 [0xc3#8, 0xa4#8] :=
      @Spells.lead 1 3 [0x24] (by decide) (by decide) rfl (by decide)
    obtain ⟨rest, hrest⟩ := hprefix
    obtain ⟨rfl, rfl⟩ := @Spells.unique 1 more 0xe4 v _ bytes [] rest humlaut hspells hrest.symm
    revert hwrong
    decide
  · exact absurd (lead_high hspells hprefix) (by decide)

/-- The two bytes of a zero that is spelled too long put a zero on the bus. -/
theorem long_zero_sent : 0#8 ∉ [0xc0#8, 0x80#8] ∧ ¬Decoded [0xc0#8, 0x80#8] ∧
    nextCodePoint (terminated [0xc0#8, 0x80#8]) = some (0#16, terminated []) ∧
    (putString (terminated [0xc0#8, 0x80#8]) (fun _ => 0xff#8) 0 4).map
      (fun r => slice r.2 0 r.1) = some [4#8, 0#8, 0#8, 0#8] := by
  have hspells : Spells 1 0 [0xc0#8, 0x80#8] :=
    @Spells.lead 1 0 [0] (by decide) (by decide) rfl (by decide)
  have hwrong : Miscoded [0xc0#8, 0x80#8] :=
    ⟨1, 0, _, hspells, List.prefix_refl _, Or.inl (by decide), by decide⟩
  refine ⟨by decide, fun h => (decoded_iff (by decide)).mp h hwrong, by decide +kernel,
    by decide +kernel⟩

end RelayBoard
