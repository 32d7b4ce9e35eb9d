import RelayBoard.Lib.Ranking
import Mathlib.Algebra.GroupWithZero.Nat
import Mathlib.Data.Prod.Lex
import Mathlib.Order.Lex
import Mathlib.Data.List.Lex
import Mathlib.Data.String.Basic
import Mathlib.Data.List.Dedup
import Mathlib.Data.List.Induction

/-!
# The OTA manifest

`scripts/update_ota_manifest.py`: how a release is added to the manifest that
boards check, and what a history of releases leaves in it.
-/

set_option autoImplicit false

namespace RelayBoard
open List Lib.Ranking

def otaApp : String := "signalk-espos-8relay"

def otaTarget : String := "esp32s3"

def otaUrlMax : ℕ := 255

def otaNotesMax : ℕ := 127

def otaVersionMax : ℕ := 31

/-- What Python knows of characters: the value of a decimal digit (`\d`, `int`), and what
`rstrip` takes off. -/
structure Unicode where
  decimal : Char → Option ℕ
  space : Char → Bool

/-- The arguments of `add_build` that come with a release. -/
structure Release where
  version : String
  url : String
  size : ℕ
  sha256 : String
  notes : String
  prerelease : Bool

structure Build where
  target : String
  channel : Option String
  version : Option String
  url : String
  size : ℕ
  sha256 : String
  notes : String
  deriving DecidableEq

structure Manifest where
  schema : Option ℕ := none
  app : Option String := none
  builds : Option (List Build) := none
  deriving DecidableEq

/-- `manifest.get("builds", [])` -/
def Manifest.list (m : Manifest) : List Build := m.builds.getD []

inductive AddError where
  | valueError (text : String)
  | keyError (key : String)
  deriving DecidableEq

/-! ## The order of versions -/

/-- `(core, flag, rest)`, ordered as Python orders tuples. -/
abbrev VersionKey : Type := List ℕ ×ₗ ℕ ×ₗ List Char

section VersionKey

variable (u : Unicode)

def isDecimal (c : Char) : Bool := (u.decimal c).isSome

def intOfDigits (ds : List Char) : ℕ := ds.foldl (fun n c => 10 * n + (u.decimal c).getD 0) 0

/-- `(?:\.\d+){0,n}`: the numbers, and what comes after them. -/
def moreParts : ℕ → List Char → List ℕ × List Char
  | n + 1, '.' :: cs =>
    if cs.takeWhile (isDecimal u) = [] then ([], '.' :: cs)
    else
      let (parts, rest) := moreParts n (cs.dropWhile (isDecimal u))
      (intOfDigits u (cs.takeWhile (isDecimal u)) :: parts, rest)
  | _, cs => ([], cs)

/-- `(.*)$`, which leaves out a newline at the very end and passes over no other. -/
def restOfVersion (cs : List Char) : Option (List Char) :=
  if '\n' ∉ cs then some cs else if '\n' ∉ cs.dropLast then some cs.dropLast else none

/-- `[vV]?` -/
def skipV : List Char → List Char
  | 'v' :: cs => cs
  | 'V' :: cs => cs
  | cs => cs

def versionKey (version : String) : VersionKey :=
  let v := version.toList
  let cs := skipV v
  let first := cs.takeWhile (isDecimal u)
  let (parts, after) := moreParts u 3 (cs.dropWhile (isDecimal u))
  if first = [] then toLex ([], toLex (0, v))
  else
    match restOfVersion after with
    | none => toLex ([], toLex (0, v))
    | some rest =>
      let core := intOfDigits u first :: parts
      toLex (core ++ replicate (4 - core.length) 0, toLex (if rest = [] then 1 else 0, rest))

end VersionKey

/-! ## Adding a release -/

def utf8Length (cs : List Char) : ℕ := (cs.map Char.utf8Size).sum

/-- The loop that takes characters off the notes, which are read from their end. -/
def cutNotes : List Char → List Char
  | [] => []
  | c :: cs => if otaNotesMax - 3 < utf8Length (c :: cs) then cutNotes cs else c :: cs

variable (u : Unicode)

/-- The notes as the board's buffer takes them. -/
def shortNotes (notes : String) : String :=
  if otaNotesMax < utf8Length notes.toList then
    String.ofList (((cutNotes notes.toList.reverse).dropWhile u.space).reverse ++ ['.', '.', '.'])
  else notes

def otaEntry (r : Release) (channel : String) : Build where
  target := otaTarget
  channel := some channel
  version := some r.version
  url := r.url
  size := r.size
  sha256 := r.sha256
  notes := shortNotes u r.notes

/-- `b.get("channel", "stable")` -/
def Build.onChannel (b : Build) : String := b.channel.getD "stable"

/-- `version_key(b["version"])` -/
def Build.key (b : Build) : Except AddError VersionKey :=
  match b.version with
  | some version => .ok (versionKey u version)
  | none => .error (.keyError "version")

/-- `mine[:keep]` -/
def sliceTo (keep : ℤ) (mine : List Build) : List Build :=
  if 0 ≤ keep then mine.take keep.toNat else mine.take (mine.length - keep.natAbs)

def sortedChannels (builds : List Build) : List String :=
  (builds.map Build.onChannel).dedup.mergeSort fun a b => decide (a ≤ b)

/-- What is kept of each channel, one channel after another. -/
def keptBuilds (keep : ℤ) (builds : List Build) : Except AddError (List Build) :=
  (sortedChannels builds).foldlM (fun kept ch => do
    let mine ← sortDescending (Build.key u) (builds.filter (·.onChannel = ch))
    return kept ++ sliceTo keep mine) []

def Build.rank (b : Build) : Except AddError (String ×ₗ VersionKey) := do
  let key ← b.key u
  return toLex (b.onChannel, key)

def releaseChannels (r : Release) : List String :=
  if r.prerelease then ["beta"] else ["stable", "beta"]

def addBuild (keep : ℤ) (manifest : Manifest) (r : Release) : Except AddError Manifest :=
  if otaVersionMax < r.version.length then
    .error (.valueError ("version longer than " ++ toString otaVersionMax ++ " characters: " ++
      r.version))
  else if otaUrlMax < r.url.length then
    .error (.valueError ("URL longer than " ++ toString otaUrlMax ++ " characters: " ++ r.url))
  else do
    let builds := manifest.list.filter (·.version ≠ some r.version) ++
      (releaseChannels r).map (otaEntry u r)
    let kept ← keptBuilds u keep builds
    let ranked ← sortDescending (Build.rank u) kept
    return { schema := some 1, app := some otaApp, builds := some ranked }

def manifestOf (keep : ℤ) (rs : List Release) : Except AddError Manifest :=
  rs.foldlM (addBuild u keep) {}

theorem cutNotes_fits : ∀ cs : List Char, utf8Length (cutNotes cs) ≤ otaNotesMax - 3
  | [] => Nat.zero_le _
  | c :: cs => by
    rw [cutNotes]
    split_ifs with h
    · exact cutNotes_fits cs
    · exact Nat.le_of_not_lt h

theorem utf8Length_append (cs ds : List Char) :
    utf8Length (cs ++ ds) = utf8Length cs + utf8Length ds := by
  rw [utf8Length, map_append, sum_append, utf8Length, utf8Length]

theorem utf8Length_reverse (cs : List Char) : utf8Length cs.reverse = utf8Length cs := by
  rw [utf8Length, map_reverse, sum_reverse, utf8Length]

theorem shortNotes_fits (notes : String) :
    utf8Length (shortNotes u notes).toList ≤ otaNotesMax := by
  rw [shortNotes]
  split_ifs with h
  · have hcut := cutNotes_fits notes.toList.reverse
    have hstrip := utf8Length_append ((cutNotes notes.toList.reverse).takeWhile u.space)
      ((cutNotes notes.toList.reverse).dropWhile u.space)
    rw [takeWhile_append_dropWhile] at hstrip
    have hdots : utf8Length ['.', '.', '.'] = 3 := by decide
    rw [String.toList_ofList, utf8Length_append, utf8Length_reverse, hdots]
    have hmax : otaNotesMax = 127 := rfl
    omega
  · exact Nat.le_of_not_lt h

def Release.key (r : Release) : VersionKey := versionKey u r.version

def topReleases (keep : ℤ) (rs : List Release) : List Release :=
  (descending (Release.key u) rs).take keep.toNat

def buildKey (b : Build) : VersionKey := versionKey u (b.version.getD "")

def onChannels (stable beta : List Release) : List Build :=
  stable.map (otaEntry u · "stable") ++ beta.map (otaEntry u · "beta")

variable {u} {keep : ℤ} {manifest : Manifest} {r : Release} {rs stable beta : List Release}
  {builds : List Build}

theorem mem_onChannels {b : Build} (h : b ∈ onChannels u stable beta) :
    ∃ r ch, b = otaEntry u r ch ∧
      (ch = "stable" ∧ r ∈ stable ∨ ch = "beta" ∧ r ∈ beta) := by
  rcases mem_append.mp h with hb | hb
  · obtain ⟨r, hr, rfl⟩ := mem_map.mp hb
    exact ⟨r, "stable", rfl, .inl ⟨rfl, hr⟩⟩
  · obtain ⟨r, hr, rfl⟩ := mem_map.mp hb
    exact ⟨r, "beta", rfl, .inr ⟨rfl, hr⟩⟩

theorem sliceTo_eq (hkeep : 0 ≤ keep) (mine : List Build) :
    sliceTo keep mine = mine.take keep.toNat := if_pos hkeep

theorem foldlM_flatMap {ε α β : Type} {f : α → Except ε (List β)} {g : α → List β} :
    ∀ {xs : List α} (kept : List β), (∀ x ∈ xs, f x = .ok (g x)) →
      xs.foldlM (fun kept x => do
        let mine ← f x
        return kept ++ mine) kept = .ok (kept ++ xs.flatMap g)
  | [], kept, _ => congrArg Except.ok (append_nil kept).symm
  | x :: xs, kept, h => by
    rw [foldlM_cons, h x mem_cons_self, flatMap_cons, ← append_assoc]
    exact foldlM_flatMap (kept ++ g x) fun y hy => h y (mem_cons_of_mem x hy)

theorem flatMap_perm {α β : Type} [DecidableEq α] {g : α → List β} {xs ys : List α}
    (hxs : xs.Nodup) (hys : ys.Nodup) (hsub : xs ⊆ ys) (hg : ∀ y ∈ ys, y ∉ xs → g y = []) :
    xs.flatMap g ~ ys.flatMap g := by
  have hmem : xs ~ ys.filter (· ∈ xs) :=
    (perm_ext_iff_of_nodup hxs (hys.filter _)).mpr fun a => by
      rw [mem_filter, decide_eq_true_iff]
      exact ⟨fun ha => ⟨hsub ha, ha⟩, And.right⟩
  refine (hmem.flatMap_right g).trans (Perm.of_eq ?_)
  clear hmem hys hsub
  induction ys with
  | nil => rfl
  | cons y ys ih =>
    have htail := ih fun z hz => hg z (mem_cons_of_mem y hz)
    by_cases hy : y ∈ xs
    · rw [filter_cons_of_pos (by simpa using hy), flatMap_cons, flatMap_cons, htail]
    · rw [filter_cons_of_neg (by simpa using hy), flatMap_cons, hg y mem_cons_self hy, htail,
        nil_append]

theorem keptBuilds_eq (h : ∀ b ∈ builds, b.key u = .ok (buildKey u b)) (keep : ℤ) :
    keptBuilds u keep builds = .ok ((sortedChannels builds).flatMap fun ch =>
      sliceTo keep (descending (buildKey u) (builds.filter (·.onChannel = ch)))) := by
  have hsort : ∀ ch, sortDescending (Build.key u) (builds.filter (·.onChannel = ch)) =
      .ok (descending (buildKey u) (builds.filter (·.onChannel = ch))) := fun ch =>
    sortDescending_eq fun b hb => h b (mem_of_mem_filter hb)
  rw [keptBuilds]
  simp only [hsort]
  exact foldlM_flatMap [] fun ch _ => rfl

theorem channel_ranked (hperm : builds ~ onChannels u stable beta) {ch : String}
    (hch : (onChannels u stable beta).filter (·.onChannel = ch) = rs.map (otaEntry u · ch))
    (hrs : Distinct (Release.key u) rs) :
    descending (buildKey u) (builds.filter (·.onChannel = ch)) =
      (descending (Release.key u) rs).map (otaEntry u · ch) := by
  refine descending_eq ((hperm.filter _).trans ?_) (pairwise_map.mpr (descending_strict hrs))
  rw [hch]
  exact ((descending_perm _ rs).map _).symm

theorem onChannels_stable :
    (onChannels u stable beta).filter (·.onChannel = "stable") =
      stable.map (otaEntry u · "stable") := by
  simp [onChannels, filter_map, Function.comp_def, Build.onChannel, otaEntry]

theorem onChannels_beta :
    (onChannels u stable beta).filter (·.onChannel = "beta") =
      beta.map (otaEntry u · "beta") := by
  simp [onChannels, filter_map, Function.comp_def, Build.onChannel, otaEntry]

theorem onChannels_pairwise
    (hstable : stable.Pairwise fun a b => Release.key u b < Release.key u a)
    (hbeta : beta.Pairwise fun a b => Release.key u b < Release.key u a) :
    (onChannels u stable beta).Pairwise fun a b =>
      toLex (b.onChannel, buildKey u b) < toLex (a.onChannel, buildKey u a) := by
  have hsame : ∀ ch : String, ∀ {k k' : VersionKey}, k < k' → toLex (ch, k) < toLex (ch, k') :=
    fun ch _ _ h => Prod.Lex.toLex_lt_toLex.mpr (.inr ⟨rfl, h⟩)
  refine pairwise_append.mpr ⟨pairwise_map.mpr (hstable.imp (hsame "stable")),
    pairwise_map.mpr (hbeta.imp (hsame "beta")), fun a ha b hb => ?_⟩
  obtain ⟨r, -, rfl⟩ := mem_map.mp ha
  obtain ⟨r', -, rfl⟩ := mem_map.mp hb
  exact Prod.Lex.toLex_lt_toLex.mpr (.inl (show "beta" < "stable" by decide))

theorem kept_perm (hkeep : 0 ≤ keep) (hperm : builds ~ onChannels u stable beta)
    (hstable : Distinct (Release.key u) stable) (hbeta : Distinct (Release.key u) beta) :
    ((sortedChannels builds).flatMap fun ch =>
      sliceTo keep (descending (buildKey u) (builds.filter (·.onChannel = ch)))) ~
      onChannels u (topReleases u keep stable) (topReleases u keep beta) := by
  have hmem : ∀ ch, ch ∈ sortedChannels builds ↔ ∃ b ∈ builds, b.onChannel = ch := fun ch => by
    rw [sortedChannels, mem_mergeSort, mem_dedup, mem_map]
  have hnodup : (sortedChannels builds).Nodup :=
    (mergeSort_perm _ _).nodup_iff.mpr (nodup_dedup _)
  have hsub : sortedChannels builds ⊆ ["stable", "beta"] := by
    intro ch hch
    obtain ⟨b, hb, rfl⟩ := (hmem ch).mp hch
    obtain ⟨r, ch, rfl, ⟨rfl, -⟩ | ⟨rfl, -⟩⟩ := mem_onChannels (hperm.mem_iff.mp hb)
    · exact mem_cons_self
    · exact mem_cons_of_mem _ mem_cons_self
  refine (flatMap_perm hnodup (by decide) hsub ?_).trans ?_
  · intro ch _ hch
    have hnone : builds.filter (·.onChannel = ch) = [] := filter_eq_nil_iff.mpr fun b hb h =>
      hch ((hmem ch).mpr ⟨b, hb, of_decide_eq_true h⟩)
    rw [hnone, sliceTo_eq hkeep]
    exact take_eq_nil_iff.mpr (.inr mergeSort_nil)
  · rw [flatMap_cons, flatMap_cons, flatMap_nil, append_nil, sliceTo_eq hkeep, sliceTo_eq hkeep,
      channel_ranked hperm onChannels_stable hstable, channel_ranked hperm onChannels_beta hbeta,
      ← map_take, ← map_take]
    exact Perm.refl _

theorem key_of_mem {b : Build} (h : b ∈ onChannels u stable beta) :
    b.key u = .ok (buildKey u b) := by
  obtain ⟨r, ch, rfl, -⟩ := mem_onChannels h
  rfl

theorem rank_of_mem {b : Build} (h : b ∈ onChannels u stable beta) :
    b.rank u = .ok (toLex (b.onChannel, buildKey u b)) := by
  rw [Build.rank, key_of_mem h]
  rfl

theorem kept_ranked (hkeep : 0 ≤ keep) (hperm : builds ~ onChannels u stable beta)
    (hstable : Distinct (Release.key u) stable) (hbeta : Distinct (Release.key u) beta) :
    ∃ kept, keptBuilds u keep builds = .ok kept ∧
      sortDescending (Build.rank u) kept =
        .ok (onChannels u (topReleases u keep stable) (topReleases u keep beta)) := by
  have hkept := kept_perm hkeep hperm hstable hbeta
  refine ⟨_, keptBuilds_eq (fun b hb => key_of_mem (hperm.mem_iff.mp hb)) keep, ?_⟩
  rw [sortDescending_eq fun b hb => rank_of_mem (hkept.mem_iff.mp hb)]
  exact congrArg Except.ok (descending_eq hkept
    (onChannels_pairwise (highest_take hstable _).desc (highest_take hbeta _).desc))

/-- What a release leaves of the full releases before it, and of all releases. -/
def withFull (stable : List Release) (r : Release) : List Release :=
  stable.filter (·.version ≠ r.version) ++ if r.prerelease then [] else [r]

def withRelease (beta : List Release) (r : Release) : List Release :=
  beta.filter (·.version ≠ r.version) ++ [r]

theorem added_perm (r : Release) :
    (onChannels u stable beta).filter (·.version ≠ some r.version) ++
      (releaseChannels r).map (otaEntry u r) ~
      onChannels u (withFull stable r) (withRelease beta r) := by
  have hfilter : ∀ rs : List Release, ∀ ch,
      (rs.map (otaEntry u · ch)).filter (·.version ≠ some r.version) =
        (rs.filter (·.version ≠ r.version)).map (otaEntry u · ch) := fun rs ch => by
    simp [filter_map, Function.comp_def, otaEntry]
  rw [onChannels, onChannels, withFull, withRelease, releaseChannels, filter_append, hfilter,
    hfilter, map_append, map_append]
  split_ifs
  · rw [map_nil, append_nil, append_assoc]
    exact Perm.refl _
  · rw [append_assoc, append_assoc]
    refine Perm.append_left _ ?_
    exact perm_middle

/-- The one that is added, and what is kept. -/
theorem addBuild_eq (hkeep : 0 ≤ keep)
    (hlimits : r.version.length ≤ otaVersionMax ∧ r.url.length ≤ otaUrlMax)
    (hm : manifest.list = onChannels u stable beta)
    (hstable : Distinct (Release.key u) (withFull stable r))
    (hbeta : Distinct (Release.key u) (withRelease beta r)) :
    addBuild u keep manifest r = .ok
      { schema := some 1
        app := some otaApp
        builds := some (onChannels u (topReleases u keep (withFull stable r))
          (topReleases u keep (withRelease beta r))) } := by
  obtain ⟨kept, hkept, hranked⟩ := kept_ranked hkeep (added_perm r) hstable hbeta
  rw [addBuild, if_neg (Nat.not_lt.mpr hlimits.1), if_neg (Nat.not_lt.mpr hlimits.2), hm]
  simp only [hkept, bind, Except.bind, hranked]
  rfl

/-! ## A history of releases -/

def fullReleases (rs : List Release) : List Release := rs.filter fun r => !r.prerelease

/-- A release brought again, in the place of its version. -/
def replaceRelease (again r : Release) : Release :=
  if r.version = again.version then again else r

def replaceBuild (u : Unicode) (again : Release) (b : Build) : Build :=
  if b.version = some again.version then otaEntry u again b.onChannel else b

theorem key_of_version {r r' : Release} (h : r.version = r'.version) : r.key u = r'.key u :=
  congrArg (versionKey u) h

theorem key_replaceRelease (again r : Release) : (replaceRelease again r).key u = r.key u := by
  rw [replaceRelease]
  split_ifs with h
  · exact (key_of_version h).symm
  · rfl

theorem fullReleases_snoc (rs : List Release) (r : Release) :
    fullReleases (rs ++ [r]) = fullReleases rs ++ if r.prerelease then [] else [r] := by
  rw [fullReleases, filter_append, fullReleases]
  cases h : r.prerelease <;> simp [h]

/-- Keys that still differ when `r` has taken the place of its version. -/
theorem distinct_withRelease (h : Distinct (Release.key u) rs)
    (hne : ∀ s ∈ rs, s.version ≠ r.version → s.key u ≠ r.key u) :
    Distinct (Release.key u) (withRelease rs r) := by
  rw [Distinct, withRelease, map_append]
  refine nodup_append.mpr ⟨h.sublist (filter_sublist.map _), nodup_singleton _,
    fun k hk k' hk' => ?_⟩
  obtain ⟨s, hs, rfl⟩ := mem_map.mp hk
  obtain ⟨hs, hversion⟩ := mem_filter.mp hs
  rw [mem_singleton.mp hk']
  exact hne s hs (of_decide_eq_true hversion)

theorem distinct_withFull (h : Distinct (Release.key u) rs)
    (hne : ∀ s ∈ rs, s.version ≠ r.version → s.key u ≠ r.key u) :
    Distinct (Release.key u) (withFull rs r) := by
  refine (distinct_withRelease h hne).sublist (Sublist.map _ (Sublist.append_left ?_ _))
  split_ifs
  · exact nil_sublist _
  · exact Sublist.refl _

structure Released (u : Unicode) (keep : ℤ) (rs stable beta : List Release) : Prop where
  stable : Highest (Release.key u) keep.toNat (fullReleases rs) stable
  beta : Highest (Release.key u) keep.toNat rs beta

namespace Released

theorem stable_subset (h : Released u keep rs stable beta) : stable ⊆ rs :=
  fun _ hs => mem_of_mem_filter (h.stable.subset hs)

theorem add (h : Released u keep rs stable beta) (hr : Distinct (Release.key u) (rs ++ [r])) :
    Distinct (Release.key u) (withFull stable r) ∧
    Distinct (Release.key u) (withRelease beta r) ∧
    Released u keep (rs ++ [r]) (topReleases u keep (withFull stable r))
      (topReleases u keep (withRelease beta r)) := by
  have hne : ∀ s ∈ rs, s.key u ≠ r.key u := fun s hs => by
    rw [Distinct, map_append] at hr
    exact (nodup_append.mp hr).2.2 _ (mem_map_of_mem hs) _ mem_cons_self
  have hkeep : ∀ {xs : List Release}, xs ⊆ rs → xs.filter (·.version ≠ r.version) = xs :=
    fun hsub => filter_eq_self.mpr fun s hs =>
      decide_eq_true fun hversion => hne s (hsub hs) (key_of_version hversion)
  have hstable := distinct_withFull h.stable.distinct
    fun s hs _ => hne s (h.stable_subset hs)
  have hbeta := distinct_withRelease h.beta.distinct fun s hs _ => hne s (h.beta.subset hs)
  refine ⟨hstable, hbeta, ?_, ?_⟩
  · have htop := highest_take hstable keep.toNat
    rw [fullReleases_snoc]
    rw [withFull, hkeep h.stable_subset] at htop ⊢
    exact h.stable.extend htop
  · have htop := highest_take hbeta keep.toNat
    rw [withRelease, hkeep h.beta.subset] at htop ⊢
    exact h.beta.extend htop

theorem of_perm {rs' : List Release} (h : Released u keep rs stable beta) (hperm : rs ~ rs') :
    Released u keep rs' stable beta where
  stable := h.stable.of_perm (hperm.filter _)
  beta := h.beta.of_perm hperm

theorem unique {stable' beta' : List Release} (h : Released u keep rs stable beta)
    (h' : Released u keep rs stable' beta') : stable = stable' ∧ beta = beta' :=
  ⟨h.stable.unique h'.stable, h.beta.unique h'.beta⟩

end Released

theorem manifestOf_released (hkeep : 0 ≤ keep)
    (hlimits : ∀ r ∈ rs, r.version.length ≤ otaVersionMax ∧ r.url.length ≤ otaUrlMax)
    (hkeys : Distinct (Release.key u) rs) :
    ∃ m stable beta, manifestOf u keep rs = .ok m ∧
      m.list = onChannels u stable beta ∧ Released u keep rs stable beta := by
  induction rs using List.reverseRecOn with
  | nil =>
    exact ⟨{}, [], [], rfl, rfl, ⟨Pairwise.nil, by simp [fullReleases], nil_subset _, by simp⟩,
      ⟨Pairwise.nil, by simp, nil_subset _, by simp⟩⟩
  | append_singleton rs r ih =>
    obtain ⟨m, stable, beta, hm, hbuilds, hrs⟩ := ih
      (fun s hs => hlimits s (mem_append_left _ hs))
      (hkeys.sublist ((sublist_append_left rs [r]).map _))
    obtain ⟨hstable, hbeta, hnew⟩ := hrs.add hkeys
    have hadd := addBuild_eq hkeep (hlimits r (mem_append_right rs mem_cons_self)) hbuilds
      hstable hbeta
    have hrun : manifestOf u keep (rs ++ [r]) = addBuild u keep m r := by
      rw [manifestOf] at hm
      rw [manifestOf, foldlM_append, hm]
      exact bind_pure (addBuild u keep m r)
    exact ⟨_, _, _, hrun.trans hadd, rfl, hnew⟩

namespace Released

variable {again : Release}

theorem eq_of_key (hkeys : Distinct (Release.key u) rs) {s t : Release} (hs : s ∈ rs) (ht : t ∈ rs)
    (h : s.key u = t.key u) : s = t := inj_on_of_nodup_map hkeys hs ht h

theorem key_iff (hkeys : Distinct (Release.key u) rs) (hr : r ∈ rs)
    (hversion : again.version = r.version) {s : Release} (hs : s ∈ rs) :
    s.key u = again.key u ↔ s.version = again.version := by
  constructor
  · intro h
    rw [eq_of_key hkeys hs hr (h.trans (key_of_version hversion)), hversion]
  · exact key_of_version

theorem top_again (hkeys : Distinct (Release.key u) rs) (hr : r ∈ rs)
    (hversion : again.version = r.version) {xs picked : List Release} (hxs : xs ⊆ rs)
    (hrx : r ∈ xs) (h : Highest (Release.key u) keep.toNat xs picked) :
    topReleases u keep (withRelease picked again) = picked.map (replaceRelease again) := by
  have hiff : ∀ s ∈ picked, (s.key u = again.key u ↔ s.version = again.version) :=
    fun s hs => key_iff hkeys hr hversion (hxs (h.subset hs))
  have hfilter : picked.filter (·.version ≠ again.version) =
      picked.filter (fun s => s.key u ≠ again.key u) :=
    filter_congr fun s hs => decide_eq_decide.mpr (not_congr (hiff s hs).symm)
  have hmap : picked.map (replaceRelease again) =
      picked.map fun s => if s.key u = again.key u then again else s :=
    map_congr_left fun s hs => by
      rw [replaceRelease]
      exact if_congr (hiff s hs).symm rfl rfl
  rw [topReleases, withRelease, hfilter, hmap]
  convert take_replace h ⟨r, hrx, key_of_version hversion.symm⟩

theorem readd (h : Released u keep rs stable beta) (hkeys : Distinct (Release.key u) rs)
    (hr : r ∈ rs) (hversion : again.version = r.version)
    (hflag : again.prerelease = r.prerelease) :
    Distinct (Release.key u) (withFull stable again) ∧
    Distinct (Release.key u) (withRelease beta again) ∧
    topReleases u keep (withFull stable again) = stable.map (replaceRelease again) ∧
    topReleases u keep (withRelease beta again) = beta.map (replaceRelease again) := by
  have hne : ∀ s ∈ rs, s.version ≠ again.version → s.key u ≠ again.key u :=
    fun s hs hne heq => hne ((key_iff hkeys hr hversion hs).mp heq)
  refine ⟨distinct_withFull h.stable.distinct fun s hs => hne s (h.stable_subset hs),
    distinct_withRelease h.beta.distinct fun s hs => hne s (h.beta.subset hs), ?_,
    top_again hkeys hr hversion (Subset.refl rs) hr h.beta⟩
  cases hpre : r.prerelease with
  | false =>
    have hwith : withFull stable again = withRelease stable again := by
      rw [withFull, withRelease, hflag, hpre]
      rfl
    rw [hwith]
    exact top_again hkeys hr hversion filter_sublist.subset
      (mem_filter.mpr ⟨hr, by rw [hpre]; rfl⟩) h.stable
  | true =>
    -- a pre-release is not among the full releases
    have hother : ∀ s ∈ stable, s.version ≠ again.version := fun s hs hsame => by
      have hrs := eq_of_key hkeys (h.stable_subset hs) hr (key_of_version (hsame.trans hversion))
      have hfull := (mem_filter.mp (h.stable.subset hs)).2
      rw [hrs, hpre] at hfull
      cases hfull
    rw [withFull, hflag, hpre, if_pos rfl, append_nil,
      filter_eq_self.mpr fun s hs => decide_eq_true (hother s hs), topReleases,
      take_eq (Perm.refl stable) h.stable.desc (h.stable.length ▸ min_le_left _ _)]
    exact ((map_congr_left fun s hs => if_neg (hother s hs)).trans (map_id stable)).symm

theorem replaced (h : Released u keep rs stable beta) (hkeys : Distinct (Release.key u) rs)
    (hr : r ∈ rs) (hversion : again.version = r.version)
    (hflag : again.prerelease = r.prerelease) :
    Released u keep (rs.map (replaceRelease again)) (stable.map (replaceRelease again))
      (beta.map (replaceRelease again)) where
  stable := by
    have hfull : fullReleases (rs.map (replaceRelease again)) =
        (fullReleases rs).map (replaceRelease again) := by
      rw [fullReleases, fullReleases, filter_map]
      refine congrArg _ (filter_congr fun s hs => ?_)
      rw [Function.comp_apply, replaceRelease]
      split_ifs with hsame
      · rw [hflag, eq_of_key hkeys hs hr (key_of_version (hsame.trans hversion))]
      · rfl
    rw [hfull]
    exact h.stable.map (key_replaceRelease again)
  beta := h.beta.map (key_replaceRelease again)

end Released

theorem distinct_replaced (h : Distinct (Release.key u) rs) (again : Release) :
    Distinct (Release.key u) (rs.map (replaceRelease again)) := by
  rw [Distinct, map_map]
  exact (map_congr_left fun r _ => key_replaceRelease again r) ▸ h

theorem limits_replaced {again : Release}
    (hagain : again.version.length ≤ otaVersionMax ∧ again.url.length ≤ otaUrlMax)
    (h : ∀ r ∈ rs, r.version.length ≤ otaVersionMax ∧ r.url.length ≤ otaUrlMax) {r : Release}
    (hr : r ∈ rs.map (replaceRelease again)) :
    r.version.length ≤ otaVersionMax ∧ r.url.length ≤ otaUrlMax := by
  obtain ⟨s, hs, rfl⟩ := mem_map.mp hr
  rw [replaceRelease]
  split_ifs
  · exact hagain
  · exact h s hs

theorem onChannels_replaced (again : Release) (stable beta : List Release) :
    (onChannels u stable beta).map (replaceBuild u again) =
      onChannels u (stable.map (replaceRelease again)) (beta.map (replaceRelease again)) := by
  have hentry : ∀ r ch, replaceBuild u again (otaEntry u r ch) =
      otaEntry u (replaceRelease again r) ch := fun r ch => by
    rw [replaceRelease]
    split_ifs with h
    · exact if_pos (congrArg some h)
    · exact if_neg fun heq => h (Option.some.inj heq)
  simp only [onChannels, map_append, map_map, Function.comp_def, hentry]

/-- What a manifest holds depends on what was released, and not on when. -/
theorem manifest_of_releases (hkeep : 0 ≤ keep)
    (hlimits : ∀ r ∈ rs, r.version.length ≤ otaVersionMax ∧ r.url.length ≤ otaUrlMax)
    (hkeys : Distinct (Release.key u) rs) :
    ∃ stable beta : List Release,
      Highest (Release.key u) keep.toNat (fullReleases rs) stable ∧
      Highest (Release.key u) keep.toNat rs beta ∧
      ∀ history, history ~ rs → ∃ m, manifestOf u keep history = .ok m ∧
        m.list = onChannels u stable beta ∧
        ∀ r ∈ rs, ∀ again : Release, again.version = r.version →
          again.prerelease = r.prerelease → again.url.length ≤ otaUrlMax →
          ∃ m' m'', addBuild u keep m again = .ok m' ∧
            m'.list = (onChannels u stable beta).map (replaceBuild u again) ∧
            manifestOf u keep (history.map (replaceRelease again)) = .ok m'' ∧
            m''.list = m'.list := by
  obtain ⟨-, stable, beta, -, -, hrs⟩ := manifestOf_released hkeep hlimits hkeys
  refine ⟨stable, beta, hrs.stable, hrs.beta, fun history hperm => ?_⟩
  have hkeys' : Distinct (Release.key u) history := (hperm.map _).nodup_iff.mpr hkeys
  obtain ⟨m, stable', beta', hm, hbuilds, hhistory⟩ := manifestOf_released hkeep
    (fun r hr => hlimits r (hperm.mem_iff.mp hr)) hkeys'
  obtain ⟨hstable, hbeta⟩ := hrs.unique (hhistory.of_perm hperm)
  subst hstable hbeta
  refine ⟨m, hm, hbuilds, fun r hr again hversion hflag hurl => ?_⟩
  have hlimit : again.version.length ≤ otaVersionMax ∧ again.url.length ≤ otaUrlMax :=
    ⟨hversion ▸ (hlimits r hr).1, hurl⟩
  obtain ⟨hdstable, hdbeta, hstable, hbeta⟩ := hrs.readd hkeys hr hversion hflag
  have hadd := addBuild_eq hkeep hlimit hbuilds hdstable hdbeta
  rw [hstable, hbeta, ← onChannels_replaced] at hadd
  obtain ⟨m'', stable', beta', hm'', hlist, hreleased⟩ := manifestOf_released hkeep
    (fun s hs => limits_replaced hlimit (fun s hs => hlimits s (hperm.mem_iff.mp hs)) hs)
    (distinct_replaced hkeys' again)
  obtain ⟨rfl, rfl⟩ := (hrs.replaced hkeys hr hversion hflag).unique
    (hreleased.of_perm (hperm.map _))
  exact ⟨_, m'', hadd, rfl, hm'', hlist.trans (onChannels_replaced again _ _).symm⟩

/-- A back-port after a newer release, and before it. -/
theorem back_port_in_any_order :
    let ascii : Unicode := ⟨fun c => if c.isDigit then some (c.toNat - 48) else none,
      Char.isWhitespace⟩
    let newer : Release := ⟨"v0.1.10", "https://example.invalid/a", 100, "ab", "", false⟩
    let backPort : Release := ⟨"v0.1.9-rc.1", "https://example.invalid/b", 100, "ab", "", true⟩
    ∃ builds, ∀ history, history ~ [newer, backPort] →
      ∃ m, manifestOf ascii 1 history = .ok m ∧ m.list = builds := by
  intro ascii newer backPort
  obtain ⟨stable, beta, -, -, h⟩ := @manifest_of_releases ascii 1 [newer, backPort]
    (by decide) (by decide)
    (show ([newer, backPort].map (Release.key ascii)).Nodup by decide)
  refine ⟨onChannels ascii stable beta, fun history hperm => ?_⟩
  obtain ⟨m, hm, hlist, -⟩ := h history hperm
  exact ⟨m, hm, hlist⟩

end RelayBoard
