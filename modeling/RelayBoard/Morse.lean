import RelayBoard.Lib.Splitting
import RelayBoard.Rtttl

/-!
# Morse

`morse_encode`. A silence is owed between one element and the next, whose length
is known only when the next one comes; blanks and characters without a code come
in between.
-/

set_option autoImplicit false

namespace RelayBoard
open Lib.Splitting

/-- `toupper` of the C locale. -/
def toupper (c : Byte) : Byte := if 0x61#8 ≤ c ∧ c ≤ 0x7a#8 then c - 0x20 else c

def dot : Byte := 0x2e
def dash : Byte := 0x2d

def morseLetters : List String :=
  [".-", "-...", "-.-.", "-..", ".", "..-.", "--.", "....", "..", ".---", "-.-", ".-..", "--",
    "-.", "---", ".--.", "--.-", ".-.", "...", "-", "..-", "...-", ".--", "-..-", "-.--", "--.."]

def morseDigits : List String :=
  ["-----", ".----", "..---", "...--", "....-", ".....", "-....", "--...", "---..", "----."]

def morseOf (c : Byte) : Option (List Byte) :=
  let c := toupper c
  if 0x41#8 ≤ c ∧ c ≤ 0x5a#8 then morseLetters[(c - 0x41).toNat]?.map ascii
  else if 0x30#8 ≤ c ∧ c ≤ 0x39#8 then morseDigits[(c - 0x30).toNat]?.map ascii
  else none

structure MorseSeg where
  on : Bool
  units : ℕ
  deriving DecidableEq

abbrev MorseState := List MorseSeg × ℕ

def elementSeg (e : Byte) : MorseSeg := ⟨true, if e = dash then 3 else 1⟩

def morseElement (max : ℕ) (s : MorseState) (e : Byte) : MorseState :=
  let out := if s.2 ≠ 0 ∧ s.1.length < max then s.1 ++ [⟨false, s.2⟩] else s.1
  let out := if out.length < max then out ++ [elementSeg e] else out
  (out, 1)

def morseChar (max : ℕ) (s : MorseState) (c : Byte) : MorseState :=
  if c = blank then (s.1, if s.1.length ≠ 0 then 7 else 0)
  else
    match morseOf c with
    | none => s
    | some code => ((code.foldl (morseElement max) s).1, 3)

/-- The text is the bytes before the terminating zero. -/
def morseEncode (text : List Byte) (max : ℕ) : List MorseSeg :=
  (text.foldl (morseChar max) ([], 0)).1

example : morseEncode (ascii " #e  42") 64 =
    [⟨true, 1⟩, ⟨false, 7⟩, ⟨true, 1⟩, ⟨false, 1⟩, ⟨true, 1⟩, ⟨false, 1⟩, ⟨true, 1⟩, ⟨false, 1⟩,
      ⟨true, 1⟩, ⟨false, 1⟩, ⟨true, 3⟩, ⟨false, 3⟩, ⟨true, 1⟩, ⟨false, 1⟩, ⟨true, 1⟩, ⟨false, 1⟩,
      ⟨true, 3⟩, ⟨false, 1⟩, ⟨true, 3⟩, ⟨false, 1⟩, ⟨true, 3⟩] := by decide

/-- What a text says: its characters with a code in capitals, its words with
one blank between them. -/
def spoken (text : List Byte) : List Byte :=
  squeeze blank ((text.map toupper).filter fun c => c = blank ∨ (morseOf c).isSome)

def morseAlphabet : List Byte := ascii "ABCDEFGHIJKLMNOPQRSTUVWXYZ0123456789"

def letterOf (code : List Byte) : Option Byte := morseAlphabet.find? fun c => morseOf c = some code

/-- A reader of segments: what it has read, and the elements since. -/
structure MorseReader where
  done : List Byte
  code : List Byte

/-- What has been read when the letter in progress ends. -/
def MorseReader.close (r : MorseReader) : Option (List Byte) :=
  if r.code = [] then some r.done else (letterOf r.code).map fun c => r.done ++ [c]

/-- One unit of silence is within a letter, three are between letters and seven
between words. -/
def MorseReader.read (r : MorseReader) (seg : MorseSeg) : Option MorseReader :=
  match seg.on, seg.units with
  | true, 1 => some { r with code := r.code ++ [dot] }
  | true, 3 => some { r with code := r.code ++ [dash] }
  | false, 1 => some r
  | false, 3 => r.close.map fun done => ⟨done, []⟩
  | false, 7 => r.close.map fun done => ⟨done ++ [blank], []⟩
  | _, _ => none

def readBack (segs : List MorseSeg) : Option (List Byte) :=
  (segs.foldlM MorseReader.read ⟨[], []⟩).bind MorseReader.close

/-- On and off in turn, the first one on. -/
def Alternates (segs : List MorseSeg) : Prop :=
  ∀ i seg, segs[i]? = some seg → (seg.on = true ↔ i % 2 = 0)

def ProperUnits (seg : MorseSeg) : Prop :=
  seg.on = true ∧ (seg.units = 1 ∨ seg.units = 3) ∨
    seg.on = false ∧ (seg.units = 1 ∨ seg.units = 3 ∨ seg.units = 7)

def gapSegs (gap : ℕ) : List MorseSeg := if gap = 0 then [] else [⟨false, gap⟩]

/-- The segments of a code after the silence that is owed. -/
def codeSegs (gap : ℕ) : List Byte → List MorseSeg
  | [] => []
  | e :: code => gapSegs gap ++ elementSeg e :: codeSegs 1 code

def charSegs (s : MorseState) (c : Byte) : MorseState :=
  if c = blank then (s.1, if s.1 = [] then 0 else 7)
  else
    match morseOf c with
    | none => s
    | some code => (s.1 ++ codeSegs s.2 code, 3)

def morseSegs (text : List Byte) : List MorseSeg := (text.foldl charSegs ([], 0)).1

section Room

variable {max : ℕ}

theorem take_snoc_of_room {α : Type} (full : List α) (x : α) :
    (if (full.take max).length < max then full.take max ++ [x] else full.take max) =
      (full ++ [x]).take max := by
  rw [List.length_take]
  split_ifs with hroom
  · have hshort : full.length < max := by omega
    rw [List.take_of_length_le hshort.le, List.take_of_length_le]
    rw [List.length_append]
    exact hshort
  · rw [List.take_append_of_le_length (by omega)]

theorem morseElement_take (full : List MorseSeg) (gap : ℕ) (e : Byte) :
    morseElement max (full.take max, gap) e =
      ((full ++ (gapSegs gap ++ [elementSeg e])).take max, 1) := by
  have hgap : (if gap ≠ 0 ∧ (full.take max).length < max then
      full.take max ++ [⟨false, gap⟩] else full.take max) = (full ++ gapSegs gap).take max := by
    by_cases hzero : gap = 0
    · rw [if_neg (fun h => h.1 hzero), gapSegs, if_pos hzero, List.append_nil]
    · rw [gapSegs, if_neg hzero, ← take_snoc_of_room]
      simp only [ne_eq, hzero, not_false_eq_true, true_and]
  rw [morseElement]
  dsimp only
  rw [hgap, take_snoc_of_room, List.append_assoc]

theorem morseCode_take (full : List MorseSeg) (gap : ℕ) (code : List Byte) :
    (code.foldl (morseElement max) (full.take max, gap)).1 =
      (full ++ codeSegs gap code).take max := by
  induction code generalizing full gap with
  | nil => simp [codeSegs]
  | cons e code ih =>
    rw [List.foldl_cons, morseElement_take, ih, codeSegs, List.append_assoc, List.append_assoc]
    rfl

/-- With any room the first segments are written, and the same silence is owed. -/
theorem morseState_take (hmax : max ≠ 0) (text : List Byte) :
    text.foldl (morseChar max) ([], 0) =
      ((text.foldl charSegs ([], 0)).1.take max, (text.foldl charSegs ([], 0)).2) := by
  induction text using List.reverseRecOn with
  | nil => simp
  | append_singleton text c ih =>
    rw [List.foldl_append, List.foldl_append, ih]
    generalize text.foldl charSegs ([], 0) = s
    obtain ⟨full, gap⟩ := s
    simp only [List.foldl_cons, List.foldl_nil, morseChar, charSegs]
    split_ifs with hblank hlen hnil hnil
    · simp [hnil] at hlen
    · rfl
    · rfl
    · simp [hnil, hmax] at hlen
    · cases hcode : morseOf c with
      | none => rfl
      | some code => simp only [morseCode_take]

theorem morseChar_noRoom (gap : ℕ) (c : Byte) : (morseChar 0 ([], gap) c).1 = [] := by
  have hcode : ∀ (code : List Byte) gap, (code.foldl (morseElement 0) ([], gap)).1 = [] := by
    intro code
    induction code with
    | nil => exact fun _ => rfl
    | cons e code ih =>
      intro gap
      have helement : morseElement 0 ([], gap) e = ([], 1) := by simp [morseElement]
      rw [List.foldl_cons, helement]
      exact ih 1
  rw [morseChar]
  by_cases hblank : c = blank
  · rw [if_pos hblank]
  · rw [if_neg hblank]
    cases morseOf c with
    | none => rfl
    | some code => exact hcode code gap

theorem morseEncode_eq_take (text : List Byte) (max : ℕ) :
    morseEncode text max = (morseSegs text).take max := by
  rcases Nat.eq_zero_or_pos max with rfl | hpos
  · rw [List.take_zero, morseEncode]
    induction text using List.reverseRecOn with
    | nil => rfl
    | append_singleton text c ih =>
      rw [List.foldl_append]
      generalize text.foldl (morseChar 0) ([], 0) = s at ih
      obtain ⟨out, gap⟩ := s
      obtain rfl : out = [] := ih
      exact morseChar_noRoom gap c
  · rw [morseEncode, morseState_take (Nat.ne_of_gt hpos)]
    rfl

end Room

section Codes

theorem toupper_eq_blank : ∀ c : Byte, toupper c = blank ↔ c = blank := by decide +kernel

theorem morseOf_toupper : ∀ c : Byte, morseOf (toupper c) = morseOf c := by decide +kernel

theorem morseOf_codes : ∀ c : Byte, (morseOf c).all (fun code =>
    decide (letterOf code = some (toupper c)) && !code.isEmpty &&
      code.all fun e => e == dot || e == dash) = true := by decide +kernel

theorem morseOf_some {c : Byte} {code : List Byte} (h : morseOf c = some code) :
    letterOf code = some (toupper c) ∧ code ≠ [] ∧ ∀ e ∈ code, e = dot ∨ e = dash := by
  have hall := morseOf_codes c
  rw [h, Option.all_some, Bool.and_eq_true, Bool.and_eq_true, decide_eq_true_iff] at hall
  refine ⟨hall.1.1, by simpa using hall.1.2, ?_⟩
  simpa using hall.2

variable {code : List Byte}

theorem codeSegs_gap (hne : code ≠ []) (gap : ℕ) :
    codeSegs gap code = gapSegs gap ++ codeSegs 0 code := by
  cases code with
  | nil => exact absurd rfl hne
  | cons e code => rfl

/-- On and off in turn, proper units, and on at the end. -/
structure Sound (segs : List MorseSeg) : Prop where
  alternates : Alternates segs
  odd : segs.length % 2 = 1
  proper : ∀ seg ∈ segs, ProperUnits seg

theorem sound_single (e : Byte) : Sound [elementSeg e] where
  alternates := by
    intro i seg hseg
    cases i with
    | zero =>
      obtain rfl := Option.some.inj hseg
      exact iff_of_true rfl rfl
    | succ i => cases hseg
  odd := rfl
  proper := by
    intro seg hseg
    obtain rfl := List.mem_singleton.mp hseg
    refine Or.inl ⟨rfl, ?_⟩
    rw [elementSeg]
    split_ifs <;> simp

theorem Sound.append {before after : List MorseSeg} (hbefore : Sound before) (hafter : Sound after)
    {gap : ℕ} (hgap : gap = 1 ∨ gap = 3 ∨ gap = 7) :
    Sound (before ++ ⟨false, gap⟩ :: after) where
  alternates := by
    intro i seg hseg
    have hodd := hbefore.odd
    rcases Nat.lt_trichotomy i before.length with hlt | heq | hgt
    · rw [List.getElem?_append_left hlt] at hseg
      exact hbefore.alternates i seg hseg
    · rw [List.getElem?_append_right heq.ge, heq, Nat.sub_self, List.getElem?_cons_zero] at hseg
      obtain rfl := Option.some.inj hseg
      exact iff_of_false Bool.false_ne_true (by omega)
    · obtain ⟨j, rfl⟩ := Nat.exists_eq_add_of_lt hgt
      have hindex : before.length + j + 1 - before.length = j + 1 := by omega
      rw [List.getElem?_append_right (by omega), hindex, List.getElem?_cons_succ] at hseg
      rw [hafter.alternates j seg hseg]
      omega
  odd := by
    have hodd := hbefore.odd
    have hodd' := hafter.odd
    rw [List.length_append, List.length_cons]
    omega
  proper := by
    intro seg hseg
    rcases List.mem_append.mp hseg with hseg | hseg
    · exact hbefore.proper seg hseg
    · rcases List.mem_cons.mp hseg with rfl | hseg
      · exact Or.inr ⟨rfl, hgap⟩
      · exact hafter.proper seg hseg

theorem sound_code (hne : code ≠ []) : Sound (codeSegs 0 code) := by
  induction code with
  | nil => exact absurd rfl hne
  | cons e code ih =>
    rcases List.eq_nil_or_concat code with rfl | ⟨more, last, hmore⟩
    · exact sound_single e
    · have hne' : code ≠ [] := by simp [hmore]
      have hsegs : codeSegs 0 (e :: code) = [elementSeg e] ++ ⟨false, 1⟩ :: codeSegs 0 code := by
        rw [codeSegs, codeSegs_gap hne' 1]
        rfl
      rw [hsegs]
      exact (sound_single e).append (ih hne') (Or.inl rfl)

theorem read_code (hcode : ∀ e ∈ code, e = dot ∨ e = dash) (done before : List Byte) {gap : ℕ}
    (hgap : gap = 0 ∨ gap = 1) :
    (codeSegs gap code).foldlM MorseReader.read ⟨done, before⟩ = some ⟨done, before ++ code⟩ := by
  induction code generalizing before gap with
  | nil => simp [codeSegs]
  | cons e code ih =>
    have hsilence : (gapSegs gap).foldlM MorseReader.read ⟨done, before⟩ =
        some ⟨done, before⟩ := by
      rcases hgap with rfl | rfl <;> rfl
    have helement : (⟨done, before⟩ : MorseReader).read (elementSeg e) =
        some ⟨done, before ++ [e]⟩ := by
      rcases hcode e (List.mem_cons_self ..) with rfl | rfl <;> rfl
    rw [codeSegs, List.foldlM_append, hsilence, Option.bind_eq_bind, Option.bind_some,
      List.foldlM_cons, helement, Option.bind_eq_bind, Option.bind_some,
      ih (fun d hd => hcode d (List.mem_cons_of_mem e hd)) _ (Or.inr rfl), List.append_assoc]
    rfl

end Codes

section Text

variable {text : List Byte} {c : Byte}

def kept (text : List Byte) : List Byte :=
  (text.map toupper).filter fun c => c = blank ∨ (morseOf c).isSome

theorem spoken_eq (text : List Byte) : spoken text = squeeze blank (kept text) := rfl

theorem kept_snoc (text : List Byte) (c : Byte) :
    kept (text ++ [c]) =
      kept text ++ if c = blank ∨ (morseOf c).isSome then [toupper c] else [] := by
  rw [kept, List.map_append, List.filter_append]
  congr 1
  by_cases h : c = blank ∨ (morseOf c).isSome
  · rw [if_pos h]
    exact List.filter_eq_self.mpr (by simpa [toupper_eq_blank, morseOf_toupper] using h)
  · rw [if_neg h]
    exact List.filter_eq_nil_iff.mpr (by simpa [toupper_eq_blank, morseOf_toupper] using h)

theorem kept_blank (text : List Byte) : kept (text ++ [blank]) = kept text ++ [blank] := by
  rw [kept_snoc, if_pos (Or.inl rfl)]
  rfl

theorem kept_dropped (hblank : c ≠ blank) (hcode : morseOf c = none) (text : List Byte) :
    kept (text ++ [c]) = kept text := by
  rw [kept_snoc, if_neg (by simp [hblank, hcode]), List.append_nil]

theorem kept_letter {code : List Byte} (hcode : morseOf c = some code) (text : List Byte) :
    kept (text ++ [c]) = kept text ++ [toupper c] := by
  rw [kept_snoc, if_pos (Or.inr (by simp [hcode]))]

structure NotBegun (text : List Byte) (s : MorseState) : Prop where
  state : s = ([], 0)
  nothing : spoken text = []
  last : kept text = [] ∨ ∃ front, kept text = front ++ [blank]

/-- What has been sent reads as what the text says so far. The silence owed is
that after a letter or, with blanks since, that after a word. -/
structure Begun (text : List Byte) (s : MorseState) : Prop where
  sound : Sound s.1
  reads : ∃ r, s.1.foldlM MorseReader.read ⟨[], []⟩ = some r ∧ r.close = some (spoken text)
  something : spoken text ≠ []
  gap : s.2 = 3 ∧ (∃ front y, y ≠ blank ∧ kept text = front ++ [y]) ∨
    s.2 = 7 ∧ ∃ front, kept text = front ++ [blank]

theorem Sound.ne_nil {segs : List MorseSeg} (h : Sound segs) : segs ≠ [] := by
  rintro rfl
  exact absurd h.odd (by decide)

theorem NotBegun.letter {s : MorseState} (h : NotBegun text s) {code : List Byte}
    (hblank : c ≠ blank) (hcode : morseOf c = some code) :
    Begun (text ++ [c]) (s.1 ++ codeSegs s.2 code, 3) := by
  obtain ⟨hletter, hne, hparts⟩ := morseOf_some hcode
  obtain rfl := h.state
  have hup : toupper c ≠ blank := fun heq => hblank ((toupper_eq_blank c).mp heq)
  have hspoken : spoken (text ++ [c]) = [toupper c] := by
    rw [spoken_eq, kept_letter hcode, squeeze_snoc_part hup h.last, ← spoken_eq,
      if_pos h.nothing]
  refine ⟨sound_code hne, ⟨⟨[], code⟩, read_code hparts [] [] (Or.inl rfl), ?_⟩, ?_, ?_⟩
  · rw [MorseReader.close, if_neg hne, hletter, hspoken]
    rfl
  · simp [hspoken]
  · exact Or.inl ⟨rfl, kept text, toupper c, hup, kept_letter hcode text⟩

theorem Begun.letter {s : MorseState} (h : Begun text s) {code : List Byte} (hblank : c ≠ blank)
    (hcode : morseOf c = some code) : Begun (text ++ [c]) (s.1 ++ codeSegs s.2 code, 3) := by
  obtain ⟨hletter, hne, hparts⟩ := morseOf_some hcode
  obtain ⟨r, hr, hclose⟩ := h.reads
  have hup : toupper c ≠ blank := fun heq => hblank ((toupper_eq_blank c).mp heq)
  have hgap : s.2 = 1 ∨ s.2 = 3 ∨ s.2 = 7 := Or.inr (h.gap.imp And.left And.left)
  have hsegs : s.1 ++ codeSegs s.2 code = s.1 ++ ⟨false, s.2⟩ :: codeSegs 0 code := by
    have hnot : s.2 ≠ 0 := by omega
    rw [codeSegs_gap hne, gapSegs, if_neg hnot]
    rfl
  -- the reader ends the letter before, and the word before if the silence is that long
  have hread : ∃ done, r.read ⟨false, s.2⟩ = some ⟨done, []⟩ ∧
      spoken (text ++ [c]) = done ++ [toupper c] := by
    rcases h.gap with ⟨h3, front, y, hy, hkept⟩ | ⟨h7, hkept⟩
    · refine ⟨spoken text, ?_, ?_⟩
      · rw [h3]
        change r.close.map _ = _
        rw [hclose]
        rfl
      · rw [spoken_eq, spoken_eq, kept_letter hcode, hkept, squeeze_snoc hy hup]
    · refine ⟨spoken text ++ [blank], ?_, ?_⟩
      · rw [h7]
        change r.close.map _ = _
        rw [hclose]
        rfl
      · rw [spoken_eq, kept_letter hcode, squeeze_snoc_part hup (Or.inr hkept), ← spoken_eq,
          if_neg h.something, List.append_assoc]
        rfl
  obtain ⟨done, hdone, hspoken⟩ := hread
  refine ⟨?_, ⟨⟨done, code⟩, ?_, ?_⟩, by simp [hspoken], ?_⟩
  · rw [hsegs]
    exact h.sound.append (sound_code hne) hgap
  · dsimp only
    rw [hsegs, List.foldlM_append, hr, Option.bind_eq_bind, Option.bind_some, List.foldlM_cons,
      hdone, Option.bind_eq_bind, Option.bind_some, read_code hparts done [] (Or.inl rfl)]
    rfl
  · rw [MorseReader.close, if_neg hne, hletter, hspoken]
    rfl
  · exact Or.inl ⟨rfl, kept text, toupper c, hup, kept_letter hcode text⟩

theorem spoken_blank (text : List Byte) : spoken (text ++ [blank]) = spoken text := by
  rw [spoken_eq, kept_blank, squeeze_snoc_self, spoken_eq]

theorem charSegs_spec {s : MorseState} (h : NotBegun text s ∨ Begun text s) (c : Byte) :
    NotBegun (text ++ [c]) (charSegs s c) ∨ Begun (text ++ [c]) (charSegs s c) := by
  rw [charSegs]
  by_cases hblank : c = blank
  · subst hblank
    rw [if_pos rfl]
    rcases h with h | h
    · obtain rfl := h.state
      exact Or.inl ⟨rfl, (spoken_blank text).trans h.nothing, Or.inr ⟨_, kept_blank text⟩⟩
    · rw [if_neg h.sound.ne_nil]
      obtain ⟨r, hr, hclose⟩ := h.reads
      exact Or.inr ⟨h.sound, ⟨r, hr, by rw [hclose, spoken_blank]⟩,
        by rw [spoken_blank]; exact h.something, Or.inr ⟨rfl, _, kept_blank text⟩⟩
  · rw [if_neg hblank]
    cases hcode : morseOf c with
    | none =>
      have hsame : spoken (text ++ [c]) = spoken text := by
        rw [spoken_eq, kept_dropped hblank hcode, spoken_eq]
      rcases h with h | h
      · exact Or.inl ⟨h.state, hsame.trans h.nothing, kept_dropped hblank hcode text ▸ h.last⟩
      · exact Or.inr ⟨h.sound, hsame ▸ h.reads, hsame ▸ h.something,
          kept_dropped hblank hcode text ▸ h.gap⟩
    | some code =>
      rcases h with h | h
      · exact Or.inr (h.letter hblank hcode)
      · exact Or.inr (h.letter hblank hcode)

theorem morseSegs_spec (text : List Byte) :
    NotBegun text (text.foldl charSegs ([], 0)) ∨ Begun text (text.foldl charSegs ([], 0)) := by
  induction text using List.reverseRecOn with
  | nil => exact Or.inl ⟨rfl, rfl, Or.inl rfl⟩
  | append_singleton text c ih =>
    rw [List.foldl_append]
    exact charSegs_spec ih c

theorem Alternates.take {segs : List MorseSeg} (h : Alternates segs) (n : ℕ) :
    Alternates (segs.take n) := by
  intro i seg hseg
  rw [List.getElem?_take] at hseg
  split_ifs at hseg
  exact h i seg hseg

/-- The segments of a text are sound and read as what it says; with less room
than they need the first of them are written. -/
theorem morse_round_trip (text : List Byte) :
    (∀ max, morseEncode text max = (morseSegs text).take max) ∧
    (∀ max, Alternates (morseEncode text max)) ∧
    (∀ max, ∀ seg ∈ morseEncode text max, ProperUnits seg) ∧
    ∀ max, (morseSegs text).length ≤ max →
      (∀ seg, (morseEncode text max).getLast? = some seg → seg.on = true) ∧
      readBack (morseEncode text max) = some (spoken text) := by
  have hsound : morseSegs text = [] ∨ Sound (morseSegs text) :=
    (morseSegs_spec text).imp (fun h => congrArg Prod.fst h.state) Begun.sound
  have hreads : readBack (morseSegs text) = some (spoken text) := by
    rw [readBack]
    rcases morseSegs_spec text with h | h
    · rw [morseSegs, h.state, h.nothing]
      rfl
    · obtain ⟨r, hr, hclose⟩ := h.reads
      rw [morseSegs, hr]
      exact hclose
  have halternates : Alternates (morseSegs text) := by
    rcases hsound with hnil | hsound
    · rw [hnil]
      intro i seg hseg
      cases hseg
    · exact hsound.alternates
  refine ⟨morseEncode_eq_take text, fun max => ?_, fun max seg hseg => ?_, fun max hroom => ?_⟩
  · rw [morseEncode_eq_take]
    exact halternates.take max
  · rw [morseEncode_eq_take] at hseg
    rcases hsound with hnil | hsound
    · simp [hnil] at hseg
    · exact hsound.proper seg (List.mem_of_mem_take hseg)
  · rw [morseEncode_eq_take, List.take_of_length_le hroom]
    refine ⟨fun seg hlast => ?_, hreads⟩
    rcases hsound with hnil | hsound
    · simp [hnil] at hlast
    · rw [List.getLast?_eq_getElem?] at hlast
      rw [hsound.alternates _ seg hlast]
      have hodd := hsound.odd
      omega

end Text

end RelayBoard
