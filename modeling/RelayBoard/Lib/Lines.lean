import Mathlib.Data.List.Forall2
import Mathlib.Data.List.Infix

/-!
# Lines on a stream

Lists on a stream, a separator after each. One side sends them from a buffer and
may get rid of only a part of it at a time; the other cuts what arrives up again,
with limited room for a line.
-/

set_option autoImplicit false

namespace Lib.Lines

variable {α : Type*} {sep : α}

def ended (sep : α) (ls : List (List α)) : List α := ls.flatMap fun l => l ++ [sep]

@[simp] theorem ended_nil : ended sep [] = [] := rfl

theorem ended_cons (l : List α) (ls : List (List α)) :
    ended sep (l :: ls) = l ++ [sep] ++ ended sep ls := List.flatMap_cons

theorem ended_append (ls ms : List (List α)) :
    ended sep (ls ++ ms) = ended sep ls ++ ended sep ms := List.flatMap_append

section Pieces

variable {β : Type*} {R : List α → β → Prop}

theorem exists_in_flatten {ps : List (List α)} {x : α} {front back : List α}
    (h : ps.flatten = front ++ x :: back) :
    ∃ before pre post after, ps = before ++ (pre ++ x :: post) :: after ∧
      front = before.flatten ++ pre ∧ back = post ++ after.flatten := by
  induction ps generalizing front with
  | nil => simp at h
  | cons p ps ih =>
    rw [List.flatten_cons, List.append_eq_append_iff] at h
    rcases h with ⟨as, rfl, hrest⟩ | ⟨bs, rfl, hrest⟩
    · obtain ⟨before, pre, post, after, rfl, rfl, rfl⟩ := ih hrest
      exact ⟨p :: before, pre, post, after, rfl, by simp, rfl⟩
    · cases bs with
      | nil =>
        have hnil : ps.flatten = [] ++ x :: back := hrest.symm
        obtain ⟨before, pre, post, after, rfl, hfront, rfl⟩ := ih hnil
        refine ⟨(front ++ []) :: before, pre, post, after, rfl, ?_, rfl⟩
        rw [List.flatten_cons, List.append_assoc, ← hfront]
        simp
      | cons y bs =>
        obtain ⟨rfl, rfl⟩ := List.cons.inj hrest
        exact ⟨[], front, bs, ps, rfl, rfl, rfl⟩

theorem append_cons_inj_last {x y u v : List α} {a : α} (hu : a ∉ u) (hv : a ∉ v)
    (h : x ++ a :: u = y ++ a :: v) : x = y ∧ u = v := by
  rcases List.append_eq_append_iff.mp h with ⟨as, rfl, has⟩ | ⟨as, rfl, has⟩
  · cases as with
    | nil => exact ⟨(List.append_nil x).symm, (List.cons.inj has).2⟩
    | cons b as =>
      obtain ⟨-, rfl⟩ := List.cons.inj has
      exact absurd (by simp) hu
  · cases as with
    | nil => exact ⟨List.append_nil y, (List.cons.inj has).2.symm⟩
    | cons b as =>
      obtain ⟨-, rfl⟩ := List.cons.inj has
      exact absurd (by simp) hv

theorem prefix_of_notMem {xs ys : List α} {a : α} (h : xs <+: ys ++ [a]) (ha : a ∉ xs) :
    xs <+: ys := by
  rcases List.prefix_concat_iff.mp h with rfl | h
  · exact absurd (by simp) ha
  · exact h

theorem sublistForall₂_trans {γ : Type*} {S : γ → β → Prop} {cs : List γ} {bs bs' : List β}
    (h : List.SublistForall₂ S cs bs) (hsub : bs.Sublist bs') : List.SublistForall₂ S cs bs' := by
  obtain ⟨ds, hds, hbs⟩ := List.sublistForall₂_iff.mp h
  exact List.sublistForall₂_iff.mpr ⟨ds, hds, hbs.trans hsub⟩

/-- What is found in the parts of a stream, where what remains of the stream can
yield only what is left, and what is found in a part is of what is left no more. -/
theorem sublistForall₂_of_remains {γ δ : Type*} {S : δ → β → Prop}
    (Remains : List α → List β → Prop) (text : γ → List α) (found : γ → List δ)
    (parts : List γ) (hstep : ∀ part ∈ parts, ∀ s bs, Remains (text part ++ s) bs →
      ∃ left, Remains s left ∧ (found part = [] ∧ left.Sublist bs ∨
        ∃ d b, found part = [d] ∧ (b :: left).Sublist bs ∧ S d b))
    (s : List α) (bs : List β) (h : Remains (parts.flatMap text ++ s) bs) :
    List.SublistForall₂ S (parts.flatMap found) bs := by
  induction parts generalizing bs with
  | nil => exact .nil
  | cons part parts ih =>
    rw [List.flatMap_cons, List.append_assoc] at h
    obtain ⟨hpart, hparts⟩ := List.forall_mem_cons.mp hstep
    obtain ⟨left, hleft, hfound⟩ := hpart _ bs h
    have hrest := ih hparts left hleft
    rw [List.flatMap_cons]
    rcases hfound with ⟨hnone, hbs⟩ | ⟨d, b, hone, hbs, hS⟩
    · rw [hnone, List.nil_append]
      exact sublistForall₂_trans hrest hbs
    · rw [hone]
      exact sublistForall₂_trans (.cons hS hrest) hbs

theorem forall₂_split {γ : Type*} {S : γ → β → Prop} {ls ms : List γ} {bs : List β}
    (h : List.Forall₂ S (ls ++ ms) bs) :
    ∃ cs ds, bs = cs ++ ds ∧ List.Forall₂ S ls cs ∧ List.Forall₂ S ms ds := by
  induction ls generalizing bs with
  | nil => exact ⟨[], bs, rfl, .nil, h⟩
  | cons l ls ih =>
    obtain ⟨b, bs', hb, hbs, rfl⟩ := List.forall₂_cons_left_iff.mp h
    obtain ⟨cs, ds, rfl, hcs, hds⟩ := ih hbs
    exact ⟨b :: cs, ds, rfl, .cons hb hcs, hds⟩

theorem forall₂_comp {γ δ : Type*} {S : γ → δ → Prop} {T : δ → β → Prop} {U : γ → β → Prop}
    (hU : ∀ c d b, S c d → T d b → U c b) {cs : List γ} {ds : List δ} {bs : List β}
    (hS : List.Forall₂ S cs ds) (hT : List.Forall₂ T ds bs) : List.Forall₂ U cs bs := by
  induction hS generalizing bs with
  | nil =>
    cases hT
    exact .nil
  | cons hs _ ih =>
    obtain ⟨b, bs', hb, hbs, rfl⟩ := List.forall₂_cons_left_iff.mp hT
    exact .cons (hU _ _ _ hs hb) (ih hbs)

theorem forall_of_forall₂ {γ : Type*} {S : γ → β → Prop} {P : γ → Prop}
    (hP : ∀ c b, S c b → P c) {cs : List γ} {bs : List β} (h : List.Forall₂ S cs bs) :
    ∀ c ∈ cs, P c := by
  induction h with
  | nil => simp
  | cons hs _ ih => exact List.forall_mem_cons.mpr ⟨hP _ _ hs, ih⟩

/-- The first part of joined pieces is made of pieces too, where a part of a
piece is one. -/
theorem forall₂_prefix (hR : ∀ p q b, R p b → q ≠ [] → q <+: p → R q b) {ps : List (List α)}
    {bs : List β} (h : List.Forall₂ R ps bs) {as : List α} (has : as <+: ps.flatten) :
    ∃ qs cs, as = qs.flatten ∧ List.Forall₂ R qs cs ∧ cs <+: bs := by
  induction h generalizing as with
  | nil =>
    rw [List.flatten_nil, List.prefix_nil] at has
    exact ⟨[], [], by simp [has], .nil, List.prefix_refl _⟩
  | @cons p b ps bs hp _ ih =>
    obtain ⟨more, hmore⟩ := has
    rw [List.flatten_cons, List.append_eq_append_iff] at hmore
    rcases hmore with ⟨u, rfl, -⟩ | ⟨u, rfl, hrest⟩
    · rcases eq_or_ne as [] with rfl | hne
      · exact ⟨[], [], rfl, .nil, List.nil_prefix⟩
      · exact ⟨[as], [b], by simp, .cons (hR _ as b hp hne (List.prefix_append _ _)) .nil,
          List.prefix_append [b] bs⟩
    · obtain ⟨qs, cs, rfl, hqs, hcs⟩ := ih ⟨more, hrest.symm⟩
      exact ⟨p :: qs, b :: cs, rfl, .cons hp hqs, List.cons_prefix_cons.mpr ⟨rfl, hcs⟩⟩

end Pieces

variable [DecidableEq α]

section Sending

/-- The first `n` end with a line, if with anything. -/
def Whole (sep : α) (buf : List α) (n : ℕ) : Prop :=
  buf.length ≤ n ∨ n = 0 ∨ buf[n - 1]? = some sep

/-- Where to go on after `n` are gone: at the end of the line they end in. -/
def resumeAt (sep : α) (buf : List α) (n : ℕ) : ℕ :=
  if buf.length ≤ n then buf.length
  else if n = 0 ∨ buf[n - 1]? = some sep then n
  else match (buf.drop n).findIdx? (· = sep) with
    | none => buf.length
    | some k => n + k + 1

theorem findIdx_line {l : List α} (h : sep ∉ l) (rest : List α) :
    (l ++ [sep] ++ rest).findIdx? (· = sep) = some l.length := by
  induction l with
  | nil => simp [List.findIdx?_cons]
  | cons a l ih =>
    have ha : ¬a = sep := fun ha => h (by simp [ha])
    rw [List.cons_append, List.cons_append, List.findIdx?_cons, if_neg (by simpa using ha),
      ih fun hmem => h (List.mem_cons_of_mem a hmem)]
    rfl

theorem resumeAt_first {l : List α} (h : sep ∉ l) (rest : List α) {n : ℕ} (hn : n ≠ 0)
    (hlt : n ≤ l.length) : resumeAt sep (l ++ [sep] ++ rest) n = (l ++ [sep]).length ∧
      ¬Whole sep (l ++ [sep] ++ rest) n := by
  have hlen : ¬(l ++ [sep] ++ rest).length ≤ n := by
    rw [List.length_append, List.length_append, List.length_singleton]
    omega
  have hget : (l ++ [sep] ++ rest)[n - 1]? = l[n - 1]? := by
    rw [List.append_assoc]
    exact List.getElem?_append_left (by omega)
  have hother : ¬(n = 0 ∨ (l ++ [sep] ++ rest)[n - 1]? = some sep) := by
    rintro (h0 | hsep)
    · exact hn h0
    · rw [hget] at hsep
      exact h (List.mem_of_getElem? hsep)
  have hdrop : (l ++ [sep] ++ rest).drop n = l.drop n ++ [sep] ++ rest := by
    rw [List.append_assoc, List.drop_append_of_le_length hlt, List.append_assoc]
  refine ⟨?_, fun hw => hw.elim hlen hother⟩
  rw [resumeAt, if_neg hlen, if_neg hother, hdrop,
    findIdx_line fun hmem => h (List.mem_of_mem_drop hmem), List.length_drop]
  dsimp only
  rw [List.length_append, List.length_singleton]
  omega

theorem resumeAt_later (l rest : List α) (n : ℕ) :
    resumeAt sep (l ++ [sep] ++ rest) ((l ++ [sep]).length + n) =
        (l ++ [sep]).length + resumeAt sep rest n ∧
      (Whole sep (l ++ [sep] ++ rest) ((l ++ [sep]).length + n) → Whole sep rest n) := by
  have hle : (l ++ [sep] ++ rest).length ≤ (l ++ [sep]).length + n ↔ rest.length ≤ n := by
    rw [List.length_append]
    omega
  have hget : (l ++ [sep] ++ rest)[(l ++ [sep]).length + n - 1]? = some sep ↔
      n = 0 ∨ rest[n - 1]? = some sep := by
    cases n with
    | zero => simp
    | succ n =>
      rw [List.getElem?_append_right (by omega),
        show (l ++ [sep]).length + (n + 1) - 1 - (l ++ [sep]).length = n by omega]
      simp
  have hboundary : ((l ++ [sep]).length + n = 0 ∨
      (l ++ [sep] ++ rest)[(l ++ [sep]).length + n - 1]? = some sep) ↔
        n = 0 ∨ rest[n - 1]? = some sep := by
    rw [hget, List.length_append, List.length_singleton]
    exact or_iff_right (by omega)
  refine ⟨?_, fun hw => ?_⟩
  · unfold resumeAt
    rw [List.drop_length_add_append]
    simp only [hle, hboundary]
    split_ifs
    · exact List.length_append
    · rfl
    · cases (rest.drop n).findIdx? (· = sep) with
      | none => exact List.length_append
      | some k => dsimp only; omega
  · rcases hw with hw | hw
    · exact .inl (hle.mp hw)
    · exact .inr (hboundary.mp hw)

/-- What is gone and what is kept of lines: each of the first ones is gone whole
or in part, and the others are kept. -/
theorem resumeAt_ended (ls : List (List α)) (h : ∀ l ∈ ls, sep ∉ l) (n : ℕ) :
    ∃ front rest pieces, ls = front ++ rest ∧
      (ended sep ls).drop (resumeAt sep (ended sep ls) n) = ended sep rest ∧
      (ended sep ls).take n = pieces.flatten ∧
      List.Forall₂ (fun p l => p ≠ [] ∧ p <+: l ++ [sep]) pieces front ∧
      (Whole sep (ended sep ls) n → pieces = front.map (· ++ [sep])) := by
  induction ls generalizing n with
  | nil => exact ⟨[], [], [], rfl, by simp, by simp, .nil, fun _ => rfl⟩
  | cons l ls ih =>
    have hl := h l (List.mem_cons_self ..)
    rw [ended_cons]
    by_cases hn : n ≤ l.length
    · rcases eq_or_ne n 0 with rfl | hpos
      · exact ⟨[], l :: ls, [], rfl, by simp [resumeAt, ended_cons], rfl, .nil, fun _ => rfl⟩
      · obtain ⟨hresume, hnot⟩ := resumeAt_first hl (ended sep ls) hpos hn
        refine ⟨[l], ls, [l.take n], rfl, ?_, ?_, .cons ⟨?_, ?_⟩ .nil, fun hw => absurd hw hnot⟩
        · rw [hresume, List.drop_left]
        · rw [List.append_assoc, List.take_append_of_le_length hn]
          simp
        · have htake : (l.take n).length = n := List.length_take_of_le hn
          exact List.ne_nil_of_length_pos (by omega)
        · exact (List.take_prefix n l).trans (List.prefix_append l [sep])
    · obtain ⟨k, rfl⟩ : ∃ k, n = (l ++ [sep]).length + k :=
        ⟨n - (l ++ [sep]).length, by rw [List.length_append, List.length_singleton]; omega⟩
      obtain ⟨front, rest, pieces, rfl, hdrop, htake, hpieces, hwhole⟩ :=
        ih (fun m hm => h m (List.mem_cons_of_mem l hm)) k
      obtain ⟨hresume, hlater⟩ := resumeAt_later l (ended sep (front ++ rest)) k
      refine ⟨l :: front, rest, (l ++ [sep]) :: pieces, rfl, ?_, ?_,
        .cons ⟨by simp, List.prefix_refl _⟩ hpieces, fun hw => by
          rw [hwhole (hlater hw), List.map_cons]⟩
      · rw [hresume, List.drop_length_add_append, hdrop]
      · rw [List.take_length_add_append, htake, List.flatten_cons]

end Sending

section Reading

variable {cap : ℕ}

/-- A reader gives what it holds at a separator, and when it has no more room,
where it drops what it reads. -/
def feed (sep : α) (cap : ℕ) (s : List α × List (List α)) (a : α) : List α × List (List α) :=
  if a = sep ∨ cap ≤ s.1.length then ([], s.2 ++ [s.1]) else (s.1 ++ [a], s.2)

def feedAll (sep : α) (cap : ℕ) (s : List α × List (List α)) (as : List α) :
    List α × List (List α) :=
  as.foldl (feed sep cap) s

theorem feedAll_append (s : List α × List (List α)) (as bs : List α) :
    feedAll sep cap s (as ++ bs) = feedAll sep cap (feedAll sep cap s as) bs :=
  List.foldl_append

theorem feedAll_grows (sep : α) (cap : ℕ) (s : List α × List (List α)) (as : List α) :
    s.2 <+: (feedAll sep cap s as).2 := by
  induction as generalizing s with
  | nil => exact List.prefix_refl _
  | cons a as ih =>
    refine List.IsPrefix.trans ?_ (ih (feed sep cap s a))
    unfold feed
    split_ifs
    · exact List.prefix_append _ _
    · exact List.prefix_refl _

/-- The stream is what was given, with one dropped after each, and what is held. -/
theorem feedAll_segments (as : List α) :
    ∃ segs : List (List α × α), (feedAll sep cap ([], []) as).2 = segs.map Prod.fst ∧
      as = segs.flatMap (fun seg => seg.1 ++ [seg.2]) ++ (feedAll sep cap ([], []) as).1 ∧
      (∀ seg ∈ segs, sep ∉ seg.1) ∧ sep ∉ (feedAll sep cap ([], []) as).1 ∧
      (feedAll sep cap ([], []) as).1.length ≤ cap := by
  induction as using List.reverseRecOn with
  | nil => exact ⟨[], rfl, rfl, by simp, by simp [feedAll], Nat.zero_le _⟩
  | append_singleton as a ih =>
    obtain ⟨segs, hgiven, hstream, hsep, hheld, hroom⟩ := ih
    rw [feedAll_append]
    set s := feedAll sep cap ([], []) as with hs
    show ∃ segs : List (List α × α), (feed sep cap s a).2 = segs.map Prod.fst ∧
      as ++ [a] = segs.flatMap (fun seg => seg.1 ++ [seg.2]) ++ (feed sep cap s a).1 ∧
      (∀ seg ∈ segs, sep ∉ seg.1) ∧ sep ∉ (feed sep cap s a).1 ∧ (feed sep cap s a).1.length ≤ cap
    unfold feed
    split_ifs with hgive
    · refine ⟨segs ++ [(s.1, a)], by simp [hgiven], ?_, ?_, by simp, Nat.zero_le _⟩
      · rw [List.flatMap_append, List.append_nil]
        conv_lhs => rw [hstream]
        simp
      · refine List.forall_mem_append.mpr ⟨hsep, fun seg hseg => ?_⟩
        rw [List.mem_singleton.mp hseg]
        exact hheld
    · rw [not_or, not_le] at hgive
      refine ⟨segs, hgiven, ?_, hsep, ?_, ?_⟩
      · conv_lhs => rw [hstream]
        simp
      · simpa using ⟨hheld, Ne.symm hgive.1⟩
      · rw [List.length_append, List.length_singleton]
        exact hgive.2

theorem feedAll_line {held l : List α} (done : List (List α)) (h : sep ∉ l)
    (hroom : held.length + l.length ≤ cap) :
    feedAll sep cap (held, done) (l ++ [sep]) = ([], done ++ [held ++ l]) := by
  induction l generalizing held with
  | nil => simp [feedAll, feed]
  | cons a l ih =>
    have ha : ¬a = sep := fun ha => h (by simp [ha])
    rw [List.length_cons] at hroom
    have hgo : ¬(a = sep ∨ cap ≤ held.length) := by
      rintro (heq | hfull)
      · exact ha heq
      · omega
    have hroom' : (held ++ [a]).length + l.length ≤ cap := by
      rw [List.length_append, List.length_singleton]
      omega
    have hrest := ih (fun hmem => h (List.mem_cons_of_mem a hmem)) hroom'
    rw [List.append_assoc, List.singleton_append] at hrest
    rw [← hrest]
    show feedAll sep cap (feed sep cap (held, done) a) (l ++ [sep]) = _
    rw [feed, if_neg hgo]

theorem feedAll_ended (done ls : List (List α)) (h : ∀ l ∈ ls, sep ∉ l ∧ l.length ≤ cap) :
    feedAll sep cap ([], done) (ended sep ls) = ([], done ++ ls) := by
  induction ls generalizing done with
  | nil => simp [feedAll]
  | cons l ls ih =>
    obtain ⟨hl, hlen⟩ := h l (List.mem_cons_self ..)
    rw [ended_cons, feedAll_append, feedAll_line done hl (by simpa using hlen), List.nil_append,
      ih _ fun m hm => h m (List.mem_cons_of_mem l hm), List.append_assoc, List.singleton_append]

theorem feedAll_begun {ls : List (List α)} (h : ∀ l ∈ ls, sep ∉ l ∧ l.length ≤ cap)
    {as : List α} (has : as <+: ended sep ls) : (feedAll sep cap ([], []) as).2 <+: ls := by
  obtain ⟨bs, hbs⟩ := has
  have hall := feedAll_ended [] ls h
  rw [← hbs, feedAll_append] at hall
  have hgrows := feedAll_grows sep cap (feedAll sep cap ([], []) as) bs
  rw [hall] at hgrows
  exact hgrows

end Reading

end Lib.Lines
