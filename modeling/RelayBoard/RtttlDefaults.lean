import RelayBoard.Lib.Splitting
import RelayBoard.Rtttl

/-!
# The defaults section of an RTTTL string

Its tokens as they stand between commas, against what the passes of the
defaults loop take. A pass begins at a token and looks for an equals sign over
as many commas as come before the next one, so that it takes a group of tokens,
of which the last has the sign.
-/

set_option autoImplicit false

namespace RelayBoard
open Lib.Passes Lib.Scanning Lib.Splitting

def sectionTokens (sec : List Byte) : List (List Byte) := sec.splitOn comma

/-- What a token sets on its own: a key, an equals sign and digits to its end,
after any blanks. -/
def tokenSetting (token : List Byte) : Option (RtttlKey × ℕ) :=
  match token.dropWhile (· == blank) with
  | key :: eq :: digits =>
    if eq = equalsSign ∧ digits ≠ [] ∧ digits.all isDigit then
      (rtttlKeyOf key).map fun key => (key, min (value digits) numberMax)
    else none
  | _ => none

def sectionSettings (sec : List Byte) : List (RtttlKey × ℕ) :=
  (sectionTokens sec).filterMap tokenSetting

/-- What a section has set last, before zeros are taken for missing. -/
def lastSettings (sec : List Byte) : RtttlDefaults :=
  (sectionSettings sec).foldl RtttlDefaults.set .initial

/-- The defaults that are due: a zero `d` or `b` is as good as none. -/
def sectionDefaults (sec : List Byte) : RtttlDefaults where
  duration := if (lastSettings sec).duration = 0 then 4 else (lastSettings sec).duration
  octave := (lastSettings sec).octave
  bpm := if (lastSettings sec).bpm = 0 then 63 else (lastSettings sec).bpm

def defaultsSection (text : List Byte) : List Byte :=
  (text.dropWhile (· != colon)).tail.takeWhile (· != colon)

def tuneSection (text : List Byte) : List Byte :=
  ((text.dropWhile (· != colon)).tail.dropWhile (· != colon)).tail

/-- A token that begins with a note's letter or a rest's, after its duration. -/
def PlayableToken (token : List Byte) : Prop :=
  ∃ letter rest, (token.dropWhile (· == blank)).dropWhile isDigit = letter :: rest ∧
    noteLetter letter ≠ none

def Playable (tune : List Byte) : Prop := ∃ token ∈ sectionTokens tune, PlayableToken token

def numbered (token : List Byte) : Bool :=
  (token.dropWhile (· != equalsSign)).tail.head?.any isDigit

/-- A token with an equals sign in a group that begins with `opening`: where it is
a setting, the group begins with its key; where it is none, the group does not
begin with a key or no number follows. -/
def ReadRight (opening : Option Byte) (token : List Byte) : Prop :=
  match tokenSetting token with
  | some set => opening.bind rtttlKeyOf = some set.1
  | none => opening.bind rtttlKeyOf = none ∨ numbered token = false

/-- All groups of these tokens are read right; `pending` is what the current
one has before them. -/
def WellGrouped (pending : List Byte) : List (List Byte) → Prop
  | [] => True
  | token :: tokens =>
    if equalsSign ∈ token then
      ReadRight ((pending ++ token).dropWhile (· == blank)).head? token ∧ WellGrouped [] tokens
    else WellGrouped (pending ++ token) tokens

instance (opening : Option Byte) (token : List Byte) : Decidable (ReadRight opening token) :=
  match h : tokenSetting token with
  | some set => decidable_of_iff (opening.bind rtttlKeyOf = some set.1) (by rw [ReadRight, h])
  | none =>
    decidable_of_iff (opening.bind rtttlKeyOf = none ∨ numbered token = false)
      (by rw [ReadRight, h])

instance decidableWellGrouped (pending : List Byte) :
    (tokens : List (List Byte)) → Decidable (WellGrouped pending tokens)
  | [] => .isTrue trivial
  | token :: tokens =>
    haveI := decidableWellGrouped [] tokens
    haveI := decidableWellGrouped (pending ++ token) tokens
    inferInstanceAs (Decidable (if equalsSign ∈ token then
      ReadRight ((pending ++ token).dropWhile (· == blank)).head? token ∧ WellGrouped [] tokens
    else WellGrouped (pending ++ token) tokens))

/-- Every pass from a state on sets what the tokens say that it passes over. -/
def SectionRead (defsEnd : List Byte) (start : List Byte × RtttlDefaults) : Prop :=
  ∀ s set q part, Reaches (defaultsPass defsEnd) start s →
    defsEnd.length < (scanBefore defsEnd isGap s.1).length →
    readSetting defsEnd (scanBefore defsEnd isGap s.1) = some (set, q) →
    s.1 = part ++ q → set.toList = sectionSettings part

/-- The defaults loop sets what the tokens say, the defaults that are due are in
force and a tune does not lose its notes by them. -/
structure DefaultsRead (text : List Byte) : Prop where
  tokens : ∀ colonOn defsEnd tune, strchrColon (terminated text) = some (some colonOn) →
    sectionEnd colonOn.tail = some (defsEnd, tune) →
    SectionRead defsEnd (colonOn.tail, .initial)
  inForce : ∀ fuel, (terminated text).length < fuel → ∃ p,
    readDefaults fuel (terminated text) = some (sectionDefaults (defaultsSection text), p)
  playable : ∀ fuel max, (terminated text).length < fuel → 1 ≤ max →
    Playable (tuneSection text) → ∃ note notes,
      rtttlParse fuel (some (terminated text)) max = some (note :: notes)

section Tokens

variable {sec : List Byte}

theorem sectionTokens_append (front rest : List Byte) :
    sectionTokens (front ++ comma :: rest) = sectionTokens front ++ sectionTokens rest :=
  List.splitOn_append_cons_self front rest

theorem sectionTokens_single {token : List Byte} (h : comma ∉ token) :
    sectionTokens token = [token] := List.splitOn_eq_singleton h

theorem sectionTokens_comma (rest : List Byte) :
    sectionTokens (comma :: rest) = [] :: sectionTokens rest := sectionTokens_append [] rest

theorem sectionTokens_flatten (sec : List Byte) :
    (sectionTokens sec).flatten = sec.filter (· != comma) := flatten_splitOn comma sec

theorem mem_of_token {token : List Byte} {c : Byte} (htoken : token ∈ sectionTokens sec)
    (hc : c ∈ token) : c ∈ sec := by
  have hflat : c ∈ (sectionTokens sec).flatten := List.mem_flatten.mpr ⟨token, htoken, hc⟩
  rw [sectionTokens_flatten] at hflat
  exact (List.mem_filter.mp hflat).1

theorem head_without_commas (sec : List Byte) :
    ((sec.filter (· != comma)).dropWhile (· == blank)).head? = (sec.dropWhile isGap).head? := by
  induction sec with
  | nil => rfl
  | cons c sec ih =>
    rw [List.filter_cons, List.dropWhile_cons]
    by_cases hcomma : c = comma
    · have hgap : isGap c = true := by rw [hcomma]; decide
      rw [if_neg (by simp [hcomma]), if_pos hgap, ih]
    · rw [if_pos (bne_iff_ne.mpr hcomma), List.dropWhile_cons]
      by_cases hblank : c = blank
      · have hgap : isGap c = true := by rw [hblank]; decide
        rw [if_pos (beq_iff_eq.mpr hblank), if_pos hgap, ih]
      · have hgap : isGap c = false := by simp [isGap, hblank, hcomma]
        rw [if_neg (by simpa using hblank), hgap]
        rfl

end Tokens

section Settings

variable {token last w : List Byte}

theorem dropWhile_append_cons {go : Byte → Bool} {c : Byte} (hc : go c = false)
    (front rest : List Byte) :
    (front ++ c :: rest).dropWhile go = front.dropWhile go ++ c :: rest := by
  induction front with
  | nil => simp [hc]
  | cons d front ih =>
    rw [List.cons_append, List.dropWhile_cons, List.dropWhile_cons, ih]
    split_ifs <;> rfl

theorem tokenSetting_none (h : equalsSign ∉ token) : tokenSetting token = none := by
  unfold tokenSetting
  split
  · rename_i key eq digits htoken
    rw [if_neg]
    rintro ⟨rfl, -⟩
    have hmem : equalsSign ∈ token.dropWhile (· == blank) := by rw [htoken]; simp
    exact h ((List.dropWhile_suffix _).subset hmem)
  · rfl

theorem digitsValue_none {ds : List Byte} : digitsValue ds = none ↔ ds = [] := by
  rw [digitsValue]
  split_ifs with h
  · exact iff_of_true rfl h
  · exact iff_of_false (by simp) h

theorem tokenSetting_value (hlast : equalsSign ∉ last) {set : RtttlKey × ℕ}
    (h : tokenSetting (last ++ equalsSign :: w) = some set) :
    digitsValue (w.takeWhile isDigit) = some set.2 := by
  have hdrop : (last ++ equalsSign :: w).dropWhile (· == blank) =
      last.dropWhile (· == blank) ++ equalsSign :: w := dropWhile_append_cons (by decide) last w
  have hlast' : equalsSign ∉ last.dropWhile (· == blank) := fun hmem =>
    hlast ((List.dropWhile_suffix _).subset hmem)
  rw [tokenSetting, hdrop] at h
  cases hfront : last.dropWhile (· == blank) with
  | nil =>
    rw [hfront] at h
    cases w with
    | nil => cases h
    | cons eq digits =>
      have hkey : rtttlKeyOf equalsSign = none := by decide
      simp [hkey] at h
  | cons key front =>
    rw [hfront] at h hlast'
    cases front with
    | nil =>
      simp only [List.cons_append, List.nil_append, Option.ite_none_right_eq_some] at h
      obtain ⟨⟨-, hne, hall⟩, hset⟩ := h
      obtain ⟨k, -, rfl⟩ := Option.map_eq_some_iff.mp hset
      have htake : w.takeWhile isDigit = w :=
        List.takeWhile_eq_self_iff.mpr (List.all_eq_true.mp hall)
      rw [htake, digitsValue, if_neg hne]
    | cons eq front =>
      simp only [List.cons_append, Option.ite_none_right_eq_some] at h
      exact absurd h.1.1 fun heq => hlast' (by simp [heq])

theorem numbered_eq (hlast : equalsSign ∉ last) :
    numbered (last ++ equalsSign :: w) = w.head?.any isDigit := by
  have hskip : last.dropWhile (· != equalsSign) = [] :=
    List.dropWhile_eq_nil_iff.mpr fun c hc => bne_iff_ne.mpr fun heq => hlast (heq ▸ hc)
  rw [numbered, dropWhile_append_cons (by decide), hskip]
  rfl

theorem numbered_eq_false (hlast : equalsSign ∉ last) :
    numbered (last ++ equalsSign :: w) = false ↔ digitsValue (w.takeWhile isDigit) = none := by
  rw [numbered_eq hlast, digitsValue_none]
  cases w with
  | nil => exact iff_of_true rfl rfl
  | cons c w =>
    rw [List.takeWhile_cons]
    cases hc : isDigit c <;> simp [hc]

/-- A group is read right if what its pass sets is what its last token says. -/
theorem readRight_iff (hlast : equalsSign ∉ last) (key : Byte) :
    ReadRight (some key) (last ++ equalsSign :: w) ↔
      settingRead key w = tokenSetting (last ++ equalsSign :: w) := by
  unfold ReadRight settingRead
  cases hset : tokenSetting (last ++ equalsSign :: w) with
  | some set =>
    rw [tokenSetting_value hlast hset]
    obtain ⟨k, val⟩ := set
    cases hkey : rtttlKeyOf key <;> simp [hkey]
  | none =>
    rw [numbered_eq_false hlast]
    cases hkey : rtttlKeyOf key <;>
      cases hval : digitsValue (w.takeWhile isDigit) <;> simp [hkey]

end Settings

section Groups

variable {sec rest : List Byte} {tokens : List (List Byte)}

theorem wellGrouped_plain (h : ∀ token ∈ tokens, equalsSign ∉ token) (pending : List Byte)
    (more : List (List Byte)) :
    WellGrouped pending (tokens ++ more) ↔ WellGrouped (pending ++ tokens.flatten) more := by
  induction tokens generalizing pending with
  | nil => simp
  | cons token tokens ih =>
    rw [List.cons_append, WellGrouped, if_neg (h token (List.mem_cons_self ..)),
      ih (fun t ht => h t (List.mem_cons_of_mem token ht)), List.flatten_cons, List.append_assoc]

theorem wellGrouped_group {init : List (List Byte)} {token : List Byte}
    (hinit : ∀ t ∈ init, equalsSign ∉ t) (htoken : equalsSign ∈ token)
    (tokens : List (List Byte)) :
    WellGrouped [] (init ++ [token] ++ tokens) ↔
      ReadRight (((init ++ [token]).flatten).dropWhile (· == blank)).head? token ∧
        WellGrouped [] tokens := by
  rw [List.append_assoc, wellGrouped_plain hinit, List.singleton_append, WellGrouped,
    if_pos htoken, List.flatten_append, List.flatten_singleton, List.nil_append]

theorem plain_tokens (h : equalsSign ∉ sec) : ∀ token ∈ sectionTokens sec, equalsSign ∉ token :=
  fun _ htoken hmem => h (mem_of_token htoken hmem)

theorem sectionSettings_plain (h : equalsSign ∉ sec) : sectionSettings sec = [] := by
  rw [sectionSettings, List.filterMap_eq_nil_iff]
  exact fun token htoken => tokenSetting_none (plain_tokens h token htoken)

theorem wellGrouped_section_plain (h : equalsSign ∉ sec) : WellGrouped [] (sectionTokens sec) := by
  have hall := wellGrouped_plain (plain_tokens h) [] []
  rw [List.append_nil] at hall
  exact hall.mpr trivial

theorem tokens_after_group (hrest : rest = [] ∨ ∃ r, rest = comma :: r) (part : List Byte) :
    ∃ tokens, sectionTokens (part ++ rest) = sectionTokens part ++ tokens ∧
      (WellGrouped [] (sectionTokens rest) ↔ WellGrouped [] tokens) ∧
      sectionSettings rest = tokens.filterMap tokenSetting := by
  rcases hrest with rfl | ⟨r, rfl⟩
  · refine ⟨[], by simp, iff_of_true ?_ trivial, rfl⟩
    exact wellGrouped_section_plain (by simp)
  · refine ⟨sectionTokens r, sectionTokens_append part r, ?_, ?_⟩
    · rw [sectionTokens_comma, WellGrouped, if_neg List.not_mem_nil, List.append_nil]
    · rw [sectionSettings, sectionTokens_comma, List.filterMap_cons]
      rfl

theorem dropWhile_comma (v : List Byte) :
    v.dropWhile (· != comma) = [] ∨ ∃ r, v.dropWhile (· != comma) = comma :: r := by
  cases hdrop : v.dropWhile (· != comma) with
  | nil => exact Or.inl rfl
  | cons c r =>
    have hcomma : (c != comma) = false := @dropWhile_stop (· != comma) v r c hdrop
    exact Or.inr ⟨r, by rw [bne_eq_false_iff_eq.mp hcomma]⟩

theorem after_equals (v : List Byte) :
    ∃ w rest, v = w ++ rest ∧ rest = (v.dropWhile isDigit).dropWhile (· != comma) ∧
      comma ∉ w ∧ w.takeWhile isDigit = v.takeWhile isDigit := by
  have hdigits := takeWhile_isDigit v
  refine ⟨v.takeWhile isDigit ++ (v.dropWhile isDigit).takeWhile (· != comma), _, ?_, rfl, ?_, ?_⟩
  · rw [List.append_assoc, List.takeWhile_append_dropWhile, List.takeWhile_append_dropWhile]
  · intro hmem
    rcases List.mem_append.mp hmem with hmem | hmem
    · exact absurd (hdigits comma hmem) (by decide)
    · exact absurd (List.mem_takeWhile_imp hmem) (by simp)
  · rw [List.takeWhile_append_of_pos hdigits]
    have hstop : ((v.dropWhile isDigit).takeWhile (· != comma)).takeWhile isDigit = [] := by
      cases hdrop : v.dropWhile isDigit with
      | nil => rfl
      | cons c r =>
        rw [List.takeWhile_cons]
        split_ifs
        · rw [List.takeWhile_cons, dropWhile_stop hdrop]
          rfl
        · rfl
    rw [hstop, List.append_nil]

variable {stop : Byte} {tail : List Byte}

theorem eq_iff_toList {α : Type} {a b : Option α} : a = b ↔ a.toList = b.toList := by
  cases a <;> cases b <;> simp

theorem head_of_group {key : Byte} {body u v w : List Byte} (hkey : isGap key = false)
    (hbody : key :: body = u ++ equalsSign :: v) :
    ((u ++ equalsSign :: w).dropWhile isGap).head? = some key := by
  cases u with
  | nil =>
    obtain ⟨rfl, -⟩ := List.cons.inj hbody
    rw [List.nil_append, List.dropWhile_cons, hkey]
    rfl
  | cons c u =>
    obtain ⟨rfl, -⟩ := List.cons.inj hbody
    rw [List.cons_append, List.dropWhile_cons, hkey]
    rfl

/-- Of a group only the last token can set something. -/
theorem settings_of_group {init : List (List Byte)} (hinit : ∀ t ∈ init, equalsSign ∉ t)
    (last : List Byte) :
    (init ++ [last]).filterMap tokenSetting = (tokenSetting last).toList := by
  have hnone : init.filterMap tokenSetting = [] :=
    List.filterMap_eq_nil_iff.mpr fun t ht => tokenSetting_none (hinit t ht)
  rw [List.filterMap_append, hnone, List.nil_append]
  cases hlast : tokenSetting last <;> simp [hlast]

/-- What a pass takes of a section: a group of tokens, of which it sets what the
last one says if the group is read right. -/
theorem pass_group (hstop : isDigit stop = false) {key : Byte} {body : List Byte}
    (hsec : sec.dropWhile isGap = key :: body) :
    ∃ part rest set, sec = part ++ rest ∧ rest.length < sec.length ∧
      readSetting (stop :: tail) (key :: body ++ stop :: tail) = some (set, rest ++ stop :: tail) ∧
      sectionSettings sec = sectionSettings part ++ sectionSettings rest ∧
      (WellGrouped [] (sectionTokens sec) ↔
        set.toList = sectionSettings part ∧ WellGrouped [] (sectionTokens rest)) := by
  have hsplit : sec = sec.takeWhile isGap ++ key :: body := by
    rw [← hsec, List.takeWhile_append_dropWhile]
  have hgaps : equalsSign ∉ sec.takeWhile isGap := fun hmem =>
    absurd (List.mem_takeWhile_imp hmem) (by decide)
  by_cases heq : equalsSign ∈ key :: body
  · obtain ⟨u, v, hbody, hu⟩ := List.eq_append_cons_of_mem heq
    obtain ⟨w, rest, hv, hrest, hw, hdigits⟩ := after_equals v
    obtain ⟨init, last, hfront, -, htokens⟩ := exists_last_part comma (sec.takeWhile isGap ++ u)
    change sectionTokens _ = _ at hfront
    have hplain : equalsSign ∉ sec.takeWhile isGap ++ u := fun hmem =>
      (List.mem_append.mp hmem).elim hgaps hu
    have hparts := plain_tokens hplain
    rw [hfront] at hparts
    have hlast : equalsSign ∉ last := hparts last (by simp)
    have hinit : ∀ t ∈ init, equalsSign ∉ t := fun t ht => hparts t (List.mem_append_left _ ht)
    have hgroup : sectionTokens _ = _ :=
      htokens (equalsSign :: w) (by simpa [equalsSign, comma] using hw)
    have hpart : sec = sec.takeWhile isGap ++ u ++ equalsSign :: w ++ rest := by
      calc sec = sec.takeWhile isGap ++ (u ++ equalsSign :: (w ++ rest)) := by
            rw [← hv, ← hbody, ← hsplit]
        _ = _ := by simp
    generalize hpartdef : sec.takeWhile isGap ++ u ++ equalsSign :: w = part at hgroup hpart
    have hset : settingRead key v = settingRead key w := by
      rw [settingRead, settingRead, hdigits]
    obtain ⟨tokens, hall, hafter, hsettings⟩ :=
      tokens_after_group (hrest ▸ dropWhile_comma _) part
    have hopening : (((init ++ [last ++ equalsSign :: w]).flatten).dropWhile (· == blank)).head? =
        some key := by
      rw [← hgroup, sectionTokens_flatten, head_without_commas, ← hpartdef, List.append_assoc,
        List.dropWhile_append_of_pos fun c hc => List.mem_takeWhile_imp hc]
      exact head_of_group (dropWhile_stop hsec) hbody
    have hpart' : sectionSettings part = (tokenSetting (last ++ equalsSign :: w)).toList := by
      rw [sectionSettings, hgroup, settings_of_group hinit]
    refine ⟨part, rest, settingRead key v, hpart, ?_, ?_, ?_, ?_⟩
    · rw [hpart, ← hpartdef]
      simp only [List.length_append, List.length_cons]
      omega
    · rw [readSetting_some hstop hbody hu, ← hrest]
    · rw [hpart, sectionSettings, hall, List.filterMap_append, hsettings]
      rfl
    · rw [hpart, hall, hgroup, wellGrouped_group hinit (by simp), hopening, readRight_iff hlast,
        hafter, hpart', hset, eq_iff_toList]
  · have hplain : equalsSign ∉ sec := by
      rw [hsplit]
      exact fun hmem => (List.mem_append.mp hmem).elim hgaps heq
    refine ⟨sec, [], none, by simp, ?_, readSetting_none key heq, ?_, ?_⟩
    · rw [hsplit, List.length_append, List.length_cons, List.length_nil]
      omega
    · rw [sectionSettings_plain hplain]
      rfl
    · rw [sectionSettings_plain hplain]
      exact iff_of_true (wellGrouped_section_plain hplain)
        ⟨rfl, wellGrouped_section_plain (by simp)⟩

theorem equalsSign_not_mem (h : sec.dropWhile isGap = []) : equalsSign ∉ sec := fun hmem => by
  have hgap := List.dropWhile_eq_nil_iff.mp h equalsSign hmem
  exact absurd hgap (by decide)

/-- All passes set what their tokens say exactly if the groups are read right. -/
theorem sectionRead_iff (hstop : isDigit stop = false) (sec : List Byte) (d : RtttlDefaults) :
    SectionRead (stop :: tail) (sec ++ stop :: tail, d) ↔
      WellGrouped [] (sectionTokens sec) := by
  obtain ⟨n, hn⟩ : ∃ n, sec.length = n := ⟨_, rfl⟩
  induction n using Nat.strong_induction_on generalizing sec d with
  | _ n ih =>
    cases hsec : sec.dropWhile isGap with
    | nil =>
      refine iff_of_true ?_ (wellGrouped_section_plain (equalsSign_not_mem hsec))
      intro s set q part hreach hlong
      rcases hreach.cases_head with rfl | ⟨t, ht, -⟩
      · rw [scanBefore_append, hsec] at hlong
        exact absurd hlong (Nat.lt_irrefl _)
      · rw [defaultsPass_leave hsec] at ht
        cases ht
    | cons key body =>
      obtain ⟨part, rest, set, hpart, hshort, hset, -, hgroup⟩ :=
        @pass_group sec stop tail hstop key body hsec
      have hpass := defaultsPass_setting hsec d hset
      have hscan : scanBefore (stop :: tail) isGap (sec ++ stop :: tail) =
          key :: body ++ stop :: tail := by rw [scanBefore_append, hsec]
      rw [hgroup, ← ih rest.length (by omega) rest (set.elim d d.set) rfl]
      constructor
      · intro hread
        refine ⟨hread _ set _ part .refl ?_ (by rw [hscan]; exact hset) ?_, ?_⟩
        · rw [hscan]
          simp only [List.cons_append, List.length_append, List.length_cons]
          omega
        · rw [hpart, List.append_assoc]
        · exact fun s set' q part' hreach => hread s set' q part' (.head hpass hreach)
      · rintro ⟨hfirst, hrest⟩ s set' q part' hreach hlong hset' hpart'
        rcases hreach.cases_head with rfl | ⟨t, ht, hreach⟩
        · rw [hscan, hset] at hset'
          obtain ⟨rfl, rfl⟩ := Prod.mk.inj (Option.some.inj hset')
          rw [hpart, List.append_assoc] at hpart'
          rwa [← List.append_cancel_right hpart']
        · rw [hpass] at ht
          cases ht
          exact hrest s set' q part' hreach hlong hset' hpart'

/-- What the loop has set in the end, if the groups are read right. -/
theorem loop_settings (hstop : isDigit stop = false) {fuel : ℕ} {d r : RtttlDefaults}
    (hread : WellGrouped [] (sectionTokens sec))
    (hloop : loop (defaultsPass (stop :: tail)) fuel (sec ++ stop :: tail, d) = some r) :
    r = (sectionSettings sec).foldl RtttlDefaults.set d := by
  induction fuel generalizing sec d with
  | zero => cases hloop
  | succ fuel ih =>
    cases hsec : sec.dropWhile isGap with
    | nil =>
      rw [loop_leave (defaultsPass_leave hsec d)] at hloop
      rw [sectionSettings_plain (equalsSign_not_mem hsec)]
      exact (Option.some.inj hloop).symm
    | cons key body =>
      obtain ⟨part, rest, set, -, -, hset, hsettings, hgroup⟩ :=
        @pass_group sec stop tail hstop key body hsec
      obtain ⟨hfirst, hrest⟩ := hgroup.mp hread
      rw [loop_again (defaultsPass_setting hsec d hset)] at hloop
      rw [ih hrest hloop, hsettings, List.foldl_append, ← hfirst]
      cases set <;> rfl

end Groups

section Playing

variable {tune : List Byte} {defaults : RtttlDefaults} {wholeNoteMs : Float} {max : ℕ}

theorem not_playableToken_nil : ¬PlayableToken [] := by
  rintro ⟨letter, rest, hnil, -⟩
  cases hnil

theorem playable_append (front rest : List Byte) :
    Playable (front ++ comma :: rest) ↔ Playable front ∨ Playable rest := by
  simp only [Playable, sectionTokens_append, List.mem_append, or_and_right, exists_or]

theorem playable_single {token : List Byte} (h : comma ∉ token) :
    Playable token ↔ PlayableToken token := by
  rw [Playable, sectionTokens_single h]
  simp

theorem playable_comma (rest : List Byte) : Playable (comma :: rest) ↔ Playable rest := by
  have hnil : ¬Playable [] := (playable_single List.not_mem_nil).not.mpr not_playableToken_nil
  rw [← List.nil_append (comma :: rest), playable_append, or_iff_right hnil]

theorem playable_blank (rest : List Byte) : Playable (blank :: rest) ↔ Playable rest := by
  have htoken : ∀ token : List Byte, PlayableToken (blank :: token) ↔ PlayableToken token :=
    fun token => Iff.rfl
  by_cases h : comma ∈ rest
  · obtain ⟨a, b, rfl, ha⟩ := List.eq_append_cons_of_mem h
    have ha' : comma ∉ blank :: a := by simpa [comma, blank] using ha
    rw [← List.cons_append, playable_append, playable_append, playable_single ha,
      playable_single ha', htoken]
  · have h' : comma ∉ blank :: rest := by simpa [comma, blank] using h
    rw [playable_single h, playable_single h', htoken]

theorem playable_dropWhile (tune : List Byte) :
    Playable (tune.dropWhile isGap) ↔ Playable tune := by
  induction tune with
  | nil => rfl
  | cons c tune ih =>
    rw [List.dropWhile_cons]
    split_ifs with hgap
    · rw [ih]
      rw [isGap, Bool.or_eq_true, beq_iff_eq, beq_iff_eq] at hgap
      rcases hgap with rfl | rfl
      · exact (playable_blank tune).symm
      · exact (playable_comma tune).symm
    · rfl

theorem dropWhile_idem {go : Byte → Bool} {w front rest : List Byte}
    (h : w.dropWhile go = front ++ rest) : front.dropWhile go = front := by
  cases front with
  | nil => rfl
  | cons c front =>
    rw [List.dropWhile_cons, dropWhile_stop h]
    rfl

/-- The letter of a token that begins where gaps end and goes on as far as the
next comma. -/
theorem playableToken_letter {front back : List Byte} (hfront : ∀ c ∈ front, isDigit c = true)
    (htoken : (front ++ back).dropWhile (· == blank) = front ++ back)
    (hback : back.dropWhile isDigit = back) (h : PlayableToken (front ++ back)) :
    ∃ letter rest, back = letter :: rest ∧ noteLetter letter ≠ none := by
  obtain ⟨letter, rest, hletter, hnote⟩ := h
  rw [htoken, List.dropWhile_append_of_pos hfront, hback] at hletter
  exact ⟨letter, rest, hletter, hnote⟩

theorem dropWhile_blank {token : List Byte} (h : token.dropWhile isGap = token) :
    token.dropWhile (· == blank) = token := by
  cases token with
  | nil => rfl
  | cons c token =>
    have hgap := dropWhile_stop h
    rw [isGap, Bool.or_eq_false_iff] at hgap
    rw [List.dropWhile_cons, hgap.1]
    rfl

/-- The letter that a pass comes to is that of a playable token, or the playable
tokens are behind the next comma. -/
theorem playable_next (h : Playable tune) :
    ∃ letter rest, nextLetter tune = letter :: rest ∧
      (noteLetter letter ≠ none ∨ Playable ((letter :: rest).dropWhile (· != comma))) := by
  have hsplit := List.takeWhile_append_dropWhile (p := isDigit) (l := tune.dropWhile isGap)
  have hcut := List.takeWhile_append_dropWhile (p := (· != comma)) (l := nextLetter tune)
  have hdigits := takeWhile_isDigit (tune.dropWhile isGap)
  change _ ++ nextLetter tune = _ at hsplit
  generalize hfront : (tune.dropWhile isGap).takeWhile isDigit = front at hsplit hdigits
  generalize hback : (nextLetter tune).takeWhile (· != comma) = back at hcut
  have hwhole : tune.dropWhile isGap =
      (front ++ back) ++ (nextLetter tune).dropWhile (· != comma) := by
    rw [List.append_assoc, hcut, hsplit]
  have hcomma : comma ∉ front ++ back := by
    intro hmem
    rcases List.mem_append.mp hmem with hmem | hmem
    · exact absurd (hdigits comma hmem) (by decide)
    · rw [← hback] at hmem
      exact absurd (List.mem_takeWhile_imp hmem) (by simp)
  have hgap : (front ++ back).dropWhile isGap = front ++ back := dropWhile_idem hwhole
  have hblank := dropWhile_blank hgap
  have hnodigit : back.dropWhile isDigit = back := @dropWhile_idem isDigit
    (tune.dropWhile isGap) back ((nextLetter tune).dropWhile (· != comma)) hcut.symm
  rw [← playable_dropWhile, hwhole] at h
  have hcases : PlayableToken (front ++ back) ∨
      Playable ((nextLetter tune).dropWhile (· != comma)) := by
    rcases dropWhile_comma (nextLetter tune) with hnil | ⟨r, hr⟩
    · rw [hnil, List.append_nil, playable_single hcomma] at h
      exact Or.inl h
    · rw [hr, playable_append, playable_single hcomma] at h
      rw [hr, playable_comma]
      exact h
  rcases hcases with htoken | hrest
  · obtain ⟨letter, rest, rfl, hnote⟩ := playableToken_letter hdigits hblank hnodigit htoken
    exact ⟨letter, _, hcut.symm, Or.inl hnote⟩
  · cases hnext : nextLetter tune with
    | nil =>
      rw [hnext] at hrest
      exact absurd hrest ((playable_single List.not_mem_nil).not.mpr not_playableToken_nil)
    | cons letter rest => exact ⟨letter, rest, rfl, Or.inr (hnext ▸ hrest)⟩

def PlaysInv (max : ℕ) (s : List Byte × List RtttlNote) : Prop :=
  ∃ w, s.1 = terminated w ∧ 0#8 ∉ w ∧ s.2.length ≤ max ∧ (s.2 ≠ [] ∨ Playable w)

theorem notesPass_plays (hmax : 1 ≤ max) (s : List Byte × List RtttlNote) (h : PlaysInv max s) :
    Advances (PlaysInv max) (fun s => s.1.length) (fun out => out ≠ []) s
      (notesPass defaults wholeNoteMs max s) := by
  obtain ⟨p, out⟩ := s
  obtain ⟨w, rfl, h0, hle, hplays⟩ := h
  rcases Nat.lt_or_eq_of_le hle with hout | hfull
  · rcases @notesPass_cases w defaults wholeNoteMs max out h0 hout with
      ⟨hnext, hpass⟩ | ⟨letter, w', hnext, hnote, hpass⟩ |
        ⟨letter, w', note, rest, hnext, hnote, hrest, hpass⟩
    · refine Or.inr ⟨out, hpass, hplays.resolve_right fun hplay => ?_⟩
      obtain ⟨letter, rest, hletter, -⟩ := playable_next hplay
      rw [hnext] at hletter
      cases hletter
    · refine Or.inl ⟨_, hpass, ⟨_, rfl, skipped_noZero hnext h0, hle, ?_⟩, ?_⟩
      · refine hplays.imp_right fun hplay => ?_
        obtain ⟨c, r, hletter, hcase⟩ := playable_next hplay
        rw [hnext] at hletter
        obtain ⟨rfl, rfl⟩ := List.cons.inj hletter
        exact hcase.resolve_left fun hne => hne hnote
      · exact skipped_terminated hnext
    · refine Or.inl ⟨_, hpass, ⟨_, rfl, noted_noZero hnext h0 hrest, ?_, Or.inl (by simp)⟩, ?_⟩
      · rw [List.length_append]
        exact hout
      · exact noted_terminated hnext hrest
  · refine Or.inr ⟨out, notesPass_full h0 hfull, fun hnil => ?_⟩
    rw [hnil] at hfull
    exact absurd (hfull.trans_ge hmax) (by simp)

/-- A tune with something to play yields a note, unless a default is zero. -/
theorem readNotes_plays {fuel : ℕ} (h0 : 0#8 ∉ tune) (hbpm : defaults.bpm ≠ 0)
    (hduration : defaults.duration ≠ 0) (hfuel : (terminated tune).length < fuel) (hmax : 1 ≤ max)
    (hplay : Playable tune) :
    ∃ note notes, readNotes fuel defaults (terminated tune) max = some (note :: notes) := by
  obtain ⟨out, hout, hne⟩ := loop_spec
    (@notesPass_plays defaults (wholeNote defaults) max hmax) (s := (terminated tune, []))
    ⟨tune, rfl, h0, Nat.zero_le max, Or.inr hplay⟩ hfuel
  obtain ⟨note, notes, rfl⟩ := List.exists_cons_of_ne_nil hne
  refine ⟨note, notes, ?_⟩
  rw [readNotes, if_neg (by simp [hbpm, hduration])]
  exact hout

end Playing

section Text

variable {text : List Byte}

structure Parts (text name defsEnd : List Byte) : Prop where
  whole : terminated text = name ++ colon :: (defaultsSection text ++ defsEnd)
  tail : SectionTail defsEnd (tuneSection text)
  name0 : 0#8 ∉ name
  name : colon ∉ name
  sec0 : 0#8 ∉ defaultsSection text
  sec : colon ∉ defaultsSection text
  tune0 : 0#8 ∉ tuneSection text

theorem takeWhile_colon (sec rest : List Byte) (h : colon ∉ sec) :
    (sec ++ colon :: rest).takeWhile (· != colon) = sec ∧
      (sec ++ colon :: rest).dropWhile (· != colon) = colon :: rest := by
  have hall : ∀ c ∈ sec, (c != colon) = true := fun c hc => bne_iff_ne.mpr fun heq => h (heq ▸ hc)
  rw [List.takeWhile_append_of_pos hall, List.dropWhile_append_of_pos hall]
  simp

theorem exists_parts (h0 : 0#8 ∉ text) (hcolon : colon ∈ text) :
    ∃ name defsEnd, Parts text name defsEnd := by
  obtain ⟨name, rest, htext, hname⟩ := List.eq_append_cons_of_mem hcolon
  have hname0 : 0#8 ∉ name := fun hz => h0 (htext ▸ List.mem_append_left _ hz)
  have hrest0 : 0#8 ∉ rest := fun hz =>
    h0 (htext ▸ List.mem_append_right _ (List.mem_cons_of_mem _ hz))
  have hafter : (text.dropWhile (· != colon)).tail = rest := by
    rw [htext, (takeWhile_colon name rest hname).2, List.tail_cons]
  by_cases hsecond : colon ∈ rest
  · obtain ⟨sec, tune, rfl, hsec⟩ := List.eq_append_cons_of_mem hsecond
    have hdefaults : defaultsSection text = sec := by
      rw [defaultsSection, hafter, (takeWhile_colon sec tune hsec).1]
    have htune : tuneSection text = tune := by
      rw [tuneSection, hafter, (takeWhile_colon sec tune hsec).2, List.tail_cons]
    refine ⟨name, colon :: terminated tune, ?_, Or.inl (by rw [htune]), hname0, hname, ?_, ?_, ?_⟩
    · rw [hdefaults, htext, terminated_append, terminated_cons, terminated_append, terminated_cons]
    · exact hdefaults ▸ fun hz => hrest0 (List.mem_append_left _ hz)
    · exact hdefaults ▸ hsec
    · exact htune ▸ fun hz => hrest0 (List.mem_append_right _ (List.mem_cons_of_mem _ hz))
  · have hall : ∀ c ∈ rest, (c != colon) = true := fun c hc =>
      bne_iff_ne.mpr fun heq => hsecond (heq ▸ hc)
    have hdefaults : defaultsSection text = rest := by
      rw [defaultsSection, hafter]
      exact List.takeWhile_eq_self_iff.mpr hall
    have htune : tuneSection text = [] := by
      rw [tuneSection, hafter, List.dropWhile_eq_nil_iff.mpr hall]
      rfl
    refine ⟨name, [0#8], ?_, Or.inr ⟨rfl, htune⟩, hname0, hname, ?_, ?_, ?_⟩
    · rw [hdefaults, htext, terminated_append]
      rfl
    · exact hdefaults ▸ hrest0
    · exact hdefaults ▸ hsecond
    · simp [htune]

theorem tokens_of_parts {name defsEnd : List Byte} (h : Parts text name defsEnd) :
    (∀ colonOn stopOn tune, strchrColon (terminated text) = some (some colonOn) →
      sectionEnd colonOn.tail = some (stopOn, tune) → SectionRead stopOn (colonOn.tail, .initial)) ↔
    WellGrouped [] (sectionTokens (defaultsSection text)) := by
  have hfirst : strchrColon (terminated text) =
      some (some (colon :: (defaultsSection text ++ defsEnd))) := by
    rw [h.whole]
    exact strchrColon_some h.name0 h.name _
  have hend := sectionEnd_of_tail h.sec0 h.sec h.tail
  obtain ⟨stop, tail, hstopOn, hstop⟩ := h.tail.stop
  rw [← @sectionRead_iff stop tail hstop _ .initial, ← hstopOn]
  constructor
  · exact fun hall => hall _ defsEnd _ hfirst hend
  · intro hread colonOn stopOn tune hcolonOn hstopOn
    rw [hfirst] at hcolonOn
    obtain rfl := Option.some.inj (Option.some.inj hcolonOn)
    rw [List.tail_cons, hend] at hstopOn
    obtain ⟨rfl, -⟩ := Prod.mk.inj (Option.some.inj hstopOn)
    exact hread

theorem readDefaults_of_parts {name defsEnd : List Byte} (h : Parts text name defsEnd)
    (hread : WellGrouped [] (sectionTokens (defaultsSection text))) {fuel : ℕ}
    (hfuel : (terminated text).length < fuel) :
    readDefaults fuel (terminated text) =
      some (lastSettings (defaultsSection text), terminated (tuneSection text)) := by
  obtain ⟨d, hd⟩ := @defaults_total (defaultsSection text) _ _ h.tail
  have hshort : (defaultsSection text ++ defsEnd).length < fuel := by
    rw [h.whole, List.length_append, List.length_cons] at hfuel
    omega
  have hloop := hd fuel hshort
  obtain ⟨stop, tail, hstopOn, hstop⟩ := h.tail.stop
  have hlast : d = lastSettings (defaultsSection text) :=
    loop_settings hstop hread (by rw [← hstopOn]; exact hloop)
  rw [h.whole, readDefaults_section h.name0 h.name h.sec0 h.sec h.tail hloop, hlast]

theorem sectionDefaults_eq_iff (sec : List Byte) :
    lastSettings sec = sectionDefaults sec ↔
      (lastSettings sec).duration ≠ 0 ∧ (lastSettings sec).bpm ≠ 0 := by
  constructor
  · intro heq
    have hduration : (lastSettings sec).duration = (sectionDefaults sec).duration :=
      congrArg RtttlDefaults.duration heq
    have hbpm : (lastSettings sec).bpm = (sectionDefaults sec).bpm :=
      congrArg RtttlDefaults.bpm heq
    simp only [sectionDefaults] at hduration hbpm
    constructor
    · intro hzero
      rw [if_pos hzero] at hduration
      omega
    · intro hzero
      rw [if_pos hzero] at hbpm
      omega
  · rintro ⟨hduration, hbpm⟩
    simp only [sectionDefaults, if_neg hduration, if_neg hbpm]

/-- The defaults section is read as its tokens say exactly if every group of
tokens is read right and neither the last `d` nor the last `b` is zero. -/
theorem rtttl_defaults_iff (text : List Byte) (h0 : 0#8 ∉ text) (hcolon : colon ∈ text) :
    DefaultsRead text ↔ WellGrouped [] (sectionTokens (defaultsSection text)) ∧
      (lastSettings (defaultsSection text)).duration ≠ 0 ∧
      (lastSettings (defaultsSection text)).bpm ≠ 0 := by
  obtain ⟨name, defsEnd, hparts⟩ := exists_parts h0 hcolon
  constructor
  · intro h
    have hread := (tokens_of_parts hparts).mp h.tokens
    refine ⟨hread, (sectionDefaults_eq_iff _).mp ?_⟩
    obtain ⟨p, hp⟩ := h.inForce _ (Nat.lt_succ_self _)
    rw [readDefaults_of_parts hparts hread (Nat.lt_succ_self _)] at hp
    exact congrArg Prod.fst (Option.some.inj hp)
  · rintro ⟨hread, hnonzero⟩
    refine ⟨(tokens_of_parts hparts).mpr hread, fun fuel hfuel => ?_, ?_⟩
    · rw [readDefaults_of_parts hparts hread hfuel, ← (sectionDefaults_eq_iff _).mpr hnonzero]
      exact ⟨_, rfl⟩
    · intro fuel max hfuel hmax hplay
      have hshort : (terminated (tuneSection text)).length < fuel := by
        have hlen := congrArg List.length hparts.whole
        have htail : (terminated (tuneSection text)).length ≤ defsEnd.length := by
          rcases hparts.tail with rfl | ⟨rfl, hnil⟩
          · simp
          · simp [hnil, terminated]
        rw [List.length_append, List.length_cons, List.length_append] at hlen
        omega
      obtain ⟨note, notes, hnotes⟩ :=
        readNotes_plays hparts.tune0 hnonzero.2 hnonzero.1 hshort hmax hplay
      refine ⟨note, notes, ?_⟩
      rw [rtttlParse]
      dsimp only
      rw [readDefaults_of_parts hparts hread hfuel]
      exact hnotes

/-- A section of three settings, one with a blank before it. -/
theorem plain_section_read : DefaultsRead (ascii "x:d=8, o=6,b=120:c") :=
  (rtttl_defaults_iff _ (by decide) (by decide)).mpr (by decide +kernel)

/-- A `d` without a value takes that of its neighbour. -/
theorem bare_key_takes_value : ¬DefaultsRead (ascii "x:d,o=6:c") := by
  intro h
  obtain ⟨p, hp⟩ := h.inForce 20 (by decide)
  have hread : (readDefaults 20 (terminated (ascii "x:d,o=6:c"))).map Prod.fst =
      some ⟨6, 5, 63⟩ := by decide +kernel
  have hdue : sectionDefaults (defaultsSection (ascii "x:d,o=6:c")) = ⟨4, 6, 63⟩ := by
    decide +kernel
  rw [hp, hdue] at hread
  cases hread

end Text

end RelayBoard
