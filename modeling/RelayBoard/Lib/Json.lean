import RelayBoard.Lib.Characters
import RelayBoard.Lib.Scanning

/-!
# JSON

A reader of JSON texts that are given as bytes, and how texts are put together
that it reads as intended. Bytes beyond ASCII stand for themselves in strings.
-/

set_option autoImplicit false

namespace Lib.Json
open Lib.Characters Lib.Scanning

/-- A number is kept as it is written. -/
inductive Value where
  | null
  | bool (b : Bool)
  | number (text : List (BitVec 8))
  | string (text : List (BitVec 8))
  | array (items : List Value)
  | object (members : List (List (BitVec 8) × Value))

def isSpace (c : BitVec 8) : Bool := c == 0x20#8 || c == 0x09#8 || c == 0x0a#8 || c == 0x0d#8

def skipWs (s : List (BitVec 8)) : List (BitVec 8) := s.dropWhile isSpace

/-- What a string is written with: a byte, or a UTF-16 code unit by its number. -/
inductive Piece where
  | byte (c : BitVec 8)
  | unit (v : ℕ)

def hexValue (c : BitVec 8) : Option ℕ :=
  if isDigit c then some (digit c)
  else if 0x61#8 ≤ c ∧ c ≤ 0x66#8 then some (c.toNat - 0x57)
  else if 0x41#8 ≤ c ∧ c ≤ 0x46#8 then some (c.toNat - 0x37)
  else none

def hexUnit (a b c d : BitVec 8) : Option ℕ := do
  return (((← hexValue a) * 16 + (← hexValue b)) * 16 + (← hexValue c)) * 16 + (← hexValue d)

def shortEscape (c : BitVec 8) : Option (BitVec 8) :=
  if c = 0x22#8 ∨ c = 0x5c#8 ∨ c = 0x2f#8 then some c
  else if c = 0x62#8 then some 0x08#8
  else if c = 0x66#8 then some 0x0c#8
  else if c = 0x6e#8 then some 0x0a#8
  else if c = 0x72#8 then some 0x0d#8
  else if c = 0x74#8 then some 0x09#8
  else none

def pieces : List (BitVec 8) → Option (List Piece × List (BitVec 8))
  | [] => none
  | c :: s =>
    if c = 0x22#8 then some ([], s)
    else if c = 0x5c#8 then
      match s with
      | [] => none
      | l :: s =>
        if l = 0x75#8 then
          match s with
          | h₃ :: h₂ :: h₁ :: h₀ :: s => do
            let v ← hexUnit h₃ h₂ h₁ h₀
            let (ps, rest) ← pieces s
            return (.unit v :: ps, rest)
          | _ => none
        else do
          let b ← shortEscape l
          let (ps, rest) ← pieces s
          return (.byte b :: ps, rest)
    else if c < 0x20#8 then none
    else do
      let (ps, rest) ← pieces s
      return (.byte c :: ps, rest)

/-- Surrogates stand in pairs; all other units are characters. -/
def joinPieces : List Piece → Option (List (BitVec 8))
  | [] => some []
  | .byte c :: ps => do return c :: (← joinPieces ps)
  | .unit v :: ps =>
    if v < 0xd800 ∨ 0xdfff < v then do return utf8Char (Char.ofNat v) ++ (← joinPieces ps)
    else
      match ps with
      | .unit w :: ps =>
        if v ≤ 0xdbff ∧ 0xdc00 ≤ w ∧ w ≤ 0xdfff then do
          let pair := 0x10000 + (v - 0xd800) * 0x400 + (w - 0xdc00)
          return utf8Char (Char.ofNat pair) ++ (← joinPieces ps)
        else none
      | _ => none

def string (s : List (BitVec 8)) : Option (List (BitVec 8) × List (BitVec 8)) := do
  let (ps, rest) ← pieces s
  return (← joinPieces ps, rest)

def someDigits (s : List (BitVec 8)) : Option (List (BitVec 8) × List (BitVec 8)) :=
  let ds := s.takeWhile isDigit
  if ds = [] then none else some (ds, s.drop ds.length)

/-- A mark from a list and what has to follow it, where there is one. -/
def optional (marks : List (BitVec 8)) (s : List (BitVec 8)) (f : List (BitVec 8) →
    Option (List (BitVec 8) × List (BitVec 8))) : Option (List (BitVec 8) × List (BitVec 8)) :=
  match s with
  | [] => some ([], [])
  | c :: s => if c ∈ marks then (f s).map fun r => (c :: r.1, r.2) else some ([], c :: s)

def number (s : List (BitVec 8)) : Option (List (BitVec 8) × List (BitVec 8)) := do
  let (minus, s) ← optional [0x2d#8] s fun s => some ([], s)
  let (whole, s) ← someDigits s
  if whole.head? = some 0x30#8 ∧ whole.length ≠ 1 then none
  let (fraction, s) ← optional [0x2e#8] s someDigits
  let (exponent, s) ← optional [0x65#8, 0x45#8] s fun s => do
    let (sign, s) ← optional [0x2b#8, 0x2d#8] s fun s => some ([], s)
    let (ds, s) ← someDigits s
    return (sign ++ ds, s)
  return (minus ++ whole ++ fraction ++ exponent, s)

section Sequences

variable {α : Type} (p : List (BitVec 8) → Option (α × List (BitVec 8))) (close : BitVec 8)

def items : ℕ → List (BitVec 8) → Option (List α × List (BitVec 8))
  | 0, _ => none
  | fuel + 1, s => do
    let (a, s) ← p s
    match skipWs s with
    | [] => none
    | c :: s =>
      if c = close then return ([a], s)
      else if c = 0x2c#8 then do
        let (as, s) ← items fuel s
        return (a :: as, s)
      else none

def sequence (fuel : ℕ) (s : List (BitVec 8)) : Option (List α × List (BitVec 8)) :=
  if (skipWs s).head? = some close then some ([], (skipWs s).tail) else items p close fuel s

def member (s : List (BitVec 8)) : Option ((List (BitVec 8) × α) × List (BitVec 8)) :=
  match skipWs s with
  | [] => none
  | c :: s =>
    if c ≠ 0x22#8 then none
    else do
      let (key, s) ← string s
      match skipWs s with
      | [] => none
      | c :: s =>
        if c ≠ 0x3a#8 then none
        else do
          let (a, s) ← p s
          return ((key, a), s)

end Sequences

def word (rest : List (BitVec 8)) (v : Value) (s : List (BitVec 8)) :
    Option (Value × List (BitVec 8)) :=
  if rest.isPrefixOf s then some (v, s.drop rest.length) else none

/-- One value from the start of the text. The fuel bounds its depth and the
length of its arrays and objects. -/
def value : ℕ → List (BitVec 8) → Option (Value × List (BitVec 8))
  | 0, _ => none
  | fuel + 1, s =>
    match skipWs s with
    | [] => none
    | c :: s =>
      if c = 0x22#8 then (string s).map fun r => (.string r.1, r.2)
      else if c = 0x5b#8 then
        (sequence (value fuel) 0x5d#8 fuel s).map fun r => (.array r.1, r.2)
      else if c = 0x7b#8 then
        (sequence (member (value fuel)) 0x7d#8 fuel s).map fun r => (.object r.1, r.2)
      else if c = 0x6e#8 then word [0x75#8, 0x6c#8, 0x6c#8] .null s
      else if c = 0x74#8 then word [0x72#8, 0x75#8, 0x65#8] (.bool true) s
      else if c = 0x66#8 then word [0x61#8, 0x6c#8, 0x73#8, 0x65#8] (.bool false) s
      else (number (c :: s)).map fun r => (.number r.1, r.2)

def parse (text : List (BitVec 8)) : Option Value := do
  let (v, rest) ← value text.length text
  if skipWs rest = [] then some v else none

section Pieces

variable {s : List (BitVec 8)}

theorem pieces_quote : pieces (0x22#8 :: s) = some ([], s) := by
  rw [pieces.eq_def]
  exact if_pos rfl

theorem pieces_plain {c : BitVec 8} (hc : 0x20#8 ≤ c) (hquote : c ≠ 0x22#8) (hslash : c ≠ 0x5c#8) :
    pieces (c :: s) = (pieces s).map fun r => (.byte c :: r.1, r.2) := by
  rw [pieces.eq_def]
  simp only [if_neg hquote, if_neg hslash, if_neg (BitVec.not_lt.mpr hc)]
  cases pieces s <;> rfl

theorem pieces_short {c l : BitVec 8} (hl : shortEscape l = some c) :
    pieces (0x5c#8 :: l :: s) = (pieces s).map fun r => (.byte c :: r.1, r.2) := by
  have hu : l ≠ 0x75#8 := by
    rintro rfl
    cases hl
  rw [pieces.eq_def]
  simp only [if_neg (show 0x5c#8 ≠ 0x22#8 by decide), if_true, if_neg hu, hl]
  cases pieces s <;> rfl

theorem pieces_unit {a b c d : BitVec 8} {v : ℕ} (hv : hexUnit a b c d = some v) :
    pieces (0x5c#8 :: 0x75#8 :: a :: b :: c :: d :: s) =
      (pieces s).map fun r => (.unit v :: r.1, r.2) := by
  rw [pieces.eq_def]
  simp only [if_neg (show 0x5c#8 ≠ 0x22#8 by decide), if_true, hv]
  cases pieces s <;> rfl

theorem joinPieces_unit {v : ℕ} (hchar : v < 0xd800 ∨ 0xdfff < v) (ps : List Piece) :
    joinPieces (.unit v :: ps) = (joinPieces ps).map (utf8Char (Char.ofNat v) ++ ·) := by
  rw [joinPieces.eq_def]
  simp only [if_pos hchar]
  cases joinPieces ps <;> rfl

end Pieces

/-- How the bytes of a string may be written between its quotes. -/
inductive Spelt : List (BitVec 8) → List (BitVec 8) → Prop
  | nil : Spelt [] []
  | plain {c : BitVec 8} {text body : List (BitVec 8)} (hc : 0x20#8 ≤ c) (hquote : c ≠ 0x22#8)
      (hslash : c ≠ 0x5c#8) (h : Spelt text body) : Spelt (c :: text) (c :: body)
  | short {c l : BitVec 8} {text body : List (BitVec 8)} (hl : shortEscape l = some c)
      (h : Spelt text body) : Spelt (c :: text) (0x5c#8 :: l :: body)
  | unit {a b c d : BitVec 8} {v : ℕ} {text body : List (BitVec 8)} (hv : hexUnit a b c d = some v)
      (hchar : v < 0xd800 ∨ 0xdfff < v) (h : Spelt text body) :
      Spelt (utf8Char (Char.ofNat v) ++ text) (0x5c#8 :: 0x75#8 :: a :: b :: c :: d :: body)

/-- What is spelt is read as it was meant, up to the closing quote. -/
theorem string_spelt {text body : List (BitVec 8)} (h : Spelt text body)
    (rest : List (BitVec 8)) : string (body ++ 0x22#8 :: rest) = some (text, rest) := by
  have hpieces : ∃ ps, pieces (body ++ 0x22#8 :: rest) = some (ps, rest) ∧
      joinPieces ps = some text := by
    induction h with
    | nil => exact ⟨[], pieces_quote, rfl⟩
    | @plain c text body hc hquote hslash h ih =>
      obtain ⟨ps, hps, hjoin⟩ := ih
      refine ⟨.byte c :: ps, ?_, by simp [joinPieces, hjoin]⟩
      rw [List.cons_append, pieces_plain hc hquote hslash, hps]
      rfl
    | @short c l text body hl h ih =>
      obtain ⟨ps, hps, hjoin⟩ := ih
      refine ⟨.byte c :: ps, ?_, by simp [joinPieces, hjoin]⟩
      rw [List.cons_append, List.cons_append, pieces_short hl, hps]
      rfl
    | @unit a b c d v text body hv hchar h ih =>
      obtain ⟨ps, hps, hjoin⟩ := ih
      refine ⟨.unit v :: ps, ?_, by rw [joinPieces_unit hchar, hjoin]; rfl⟩
      have hunit := @pieces_unit (body ++ 0x22#8 :: rest) a b c d v hv
      rw [hps] at hunit
      exact hunit
  obtain ⟨ps, hps, hjoin⟩ := hpieces
  rw [string, hps]
  simp [hjoin]

def quoted (body : List (BitVec 8)) : List (BitVec 8) := 0x22#8 :: (body ++ [0x22#8])

/-- Bytes that are read as a value with fuel `k` or more, whatever follows. -/
structure Reads (k : ℕ) (bytes : List (BitVec 8)) (v : Value) : Prop where
  read : ∀ n, k ≤ n → ∀ rest, value n (bytes ++ rest) = some (v, rest)
  start : ∃ c s, bytes = c :: s ∧ isSpace c = false ∧ c ≠ 0x5d#8

theorem Reads.mono {k n : ℕ} {bytes : List (BitVec 8)} {v : Value} (h : Reads k bytes v)
    (hn : k ≤ n) : Reads n bytes v :=
  ⟨fun m hm => h.read m (hn.trans hm), h.start⟩

theorem skipWs_cons {c : BitVec 8} (hc : isSpace c = false) (s : List (BitVec 8)) :
    skipWs (c :: s) = c :: s := by
  rw [skipWs, List.dropWhile_cons_of_neg (by simp [hc])]

theorem reads_string {text body : List (BitVec 8)} (h : Spelt text body) :
    Reads 1 (quoted body) (.string text) where
  read := by
    intro n hn rest
    obtain ⟨m, rfl⟩ := Nat.exists_eq_add_of_le hn
    rw [Nat.add_comm, quoted, List.cons_append, List.append_assoc, value, skipWs_cons (by decide)]
    simp only [if_true, List.singleton_append, string_spelt h, Option.map_some]
  start := ⟨_, _, rfl, by decide, by decide⟩

section Sequences

variable {α : Type} {p : List (BitVec 8) → Option (α × List (BitVec 8))} {close : BitVec 8}

def joined : List (List (BitVec 8)) → List (BitVec 8)
  | [] => []
  | [part] => part
  | part :: parts => part ++ 0x2c#8 :: joined parts

theorem items_joined (hclose : isSpace close = false) (hcomma : close ≠ 0x2c#8)
    {parts : List (List (BitVec 8))} {as : List α}
    (hparts : List.Forall₂ (fun bytes a => ∀ rest, p (bytes ++ rest) = some (a, rest)) parts as)
    (hne : parts ≠ []) {fuel : ℕ} (hfuel : parts.length ≤ fuel) (rest : List (BitVec 8)) :
    items p close fuel (joined parts ++ close :: rest) = some (as, rest) := by
  induction hparts generalizing fuel with
  | nil => exact absurd rfl hne
  | @cons part a parts as hpart hparts ih =>
    obtain ⟨fuel, rfl⟩ : ∃ m, fuel = m + 1 := ⟨fuel - 1, by simp at hfuel; omega⟩
    cases hparts with
    | nil =>
      simp only [joined, items, hpart, Option.bind_eq_bind, Option.bind_some, skipWs_cons hclose,
        if_true]
      rfl
    | @cons part' a' parts as hpart' hparts =>
      have hrest := ih (List.cons_ne_nil _ _) (Nat.le_of_succ_le_succ hfuel)
      rw [joined, List.append_assoc, List.cons_append, items, hpart]
      · simp only [Option.bind_eq_bind, Option.bind_some, skipWs_cons (c := 0x2c#8) (by decide),
          if_neg hcomma.symm, if_true, hrest]
        rfl
      · simp

theorem sequence_joined (hclose : isSpace close = false) (hcomma : close ≠ 0x2c#8)
    {parts : List (List (BitVec 8))} {as : List α}
    (hparts : List.Forall₂ (fun bytes a =>
      (∃ c s, bytes = c :: s ∧ isSpace c = false ∧ c ≠ close) ∧
        ∀ rest, p (bytes ++ rest) = some (a, rest)) parts as) {fuel : ℕ}
    (hfuel : parts.length ≤ fuel) (rest : List (BitVec 8)) :
    sequence p close fuel (joined parts ++ close :: rest) = some (as, rest) := by
  have hitems := @items_joined _ p close hclose hcomma parts as
    (hparts.imp fun bytes a hread => hread.2)
  cases hparts with
  | nil =>
    rw [joined, List.nil_append, sequence, skipWs_cons hclose]
    exact if_pos rfl
  | @cons part a parts as hpart hparts =>
    obtain ⟨c, s, rfl, hspace, hother⟩ := hpart.1
    have hjoined : ∃ s', joined ((c :: s) :: parts) = c :: s' := by
      cases parts with
      | nil => exact ⟨s, rfl⟩
      | cons part' parts => exact ⟨_, rfl⟩
    obtain ⟨s', hs'⟩ := hjoined
    rw [← hitems (List.cons_ne_nil _ _) hfuel rest, sequence, hs', List.cons_append,
      skipWs_cons hspace, if_neg (by simpa using hother)]

end Sequences

def arrayText (parts : List (List (BitVec 8))) : List (BitVec 8) :=
  0x5b#8 :: (joined parts ++ [0x5d#8])

def objectText (parts : List (List (BitVec 8))) : List (BitVec 8) :=
  0x7b#8 :: (joined parts ++ [0x7d#8])

def memberText (body bytes : List (BitVec 8)) : List (BitVec 8) := quoted body ++ 0x3a#8 :: bytes

theorem reads_array {k : ℕ} {parts : List (List (BitVec 8))} {vs : List Value}
    (hparts : List.Forall₂ (Reads k) parts vs) (hlen : parts.length ≤ k) :
    Reads (k + 1) (arrayText parts) (.array vs) where
  read := by
    intro n hn rest
    obtain ⟨m, rfl⟩ : ∃ m, n = m + 1 := ⟨n - 1, by omega⟩
    have hseq := @sequence_joined _ (value m) 0x5d#8 (by decide) (by decide) parts vs
      (hparts.imp fun bytes v hreads => ⟨hreads.start, hreads.read m (by omega)⟩) m (by omega) rest
    rw [arrayText, List.cons_append, List.append_assoc, value, skipWs_cons (by decide)]
    simp only [List.singleton_append, hseq, Option.map_some]
    rfl
  start := ⟨_, _, rfl, by decide, by decide⟩

inductive ReadsMember (k : ℕ) : List (BitVec 8) → List (BitVec 8) × Value → Prop
  | member {key body bytes : List (BitVec 8)} {v : Value} (hkey : Spelt key body)
      (hv : Reads k bytes v) : ReadsMember k (memberText body bytes) (key, v)

theorem member_start {k : ℕ} {bytes : List (BitVec 8)} {e : List (BitVec 8) × Value}
    (h : ReadsMember k bytes e) : ∃ c s, bytes = c :: s ∧ isSpace c = false ∧ c ≠ 0x7d#8 := by
  cases h with
  | member _ _ => exact ⟨_, _, rfl, by decide, by decide⟩

theorem member_read {k m : ℕ} {bytes : List (BitVec 8)} {e : List (BitVec 8) × Value}
    (h : ReadsMember k bytes e) (hm : k ≤ m) (rest : List (BitVec 8)) :
    member (value m) (bytes ++ rest) = some (e, rest) := by
  cases h with
  | @member key body bytes v hkey hv =>
    rw [memberText, quoted, List.append_assoc, List.cons_append, List.append_assoc, member,
      skipWs_cons (by decide)]
    simp only [List.cons_append, ne_eq, not_true_eq_false, if_false, string_spelt hkey,
      Option.bind_eq_bind, Option.bind_some, List.nil_append,
      skipWs_cons (c := 0x3a#8) (by decide), hv.read m hm]
    rfl

theorem reads_object {k : ℕ} {parts : List (List (BitVec 8))}
    {members : List (List (BitVec 8) × Value)} (hparts : List.Forall₂ (ReadsMember k) parts members)
    (hlen : parts.length ≤ k) : Reads (k + 1) (objectText parts) (.object members) where
  read := by
    intro n hn rest
    obtain ⟨m, rfl⟩ : ∃ m, n = m + 1 := ⟨n - 1, by omega⟩
    have hseq := @sequence_joined _ (member (value m)) 0x7d#8 (by decide) (by decide) parts
      members (hparts.imp fun bytes e hreads =>
        ⟨member_start hreads, member_read hreads (by omega)⟩)
      m (by omega) rest
    rw [objectText, List.cons_append, List.append_assoc, value, skipWs_cons (by decide)]
    simp only [List.singleton_append, hseq, Option.map_some]
    rfl
  start := ⟨_, _, rfl, by decide, by decide⟩

theorem Reads.parse {k : ℕ} {text : List (BitVec 8)} {v : Value} (h : Reads k text v)
    (hlen : k ≤ text.length) : parse text = some v := by
  have hread := h.read text.length hlen []
  rw [List.append_nil] at hread
  simp [Json.parse, hread, skipWs]

end Lib.Json
