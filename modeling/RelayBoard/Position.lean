import RelayBoard.DeviceConfig
import RelayBoard.Lib.Clock
import RelayBoard.Lib.LittleEndian
import RelayBoard.Lib.Runs
import RelayBoard.Text

/-!
# The live position

`position.c` with its two receivers. Each keeps the last fix it accepted and
the clock's reading at that time; nothing withdraws a fix, whose age is judged
by the difference of two readings.
-/

set_option autoImplicit false

namespace RelayBoard
open Lib.Clock Lib.Runs

/-- A latitude and a longitude, both `double`. -/
structure Fix where
  lat : Float
  lon : Float
  deriving DecidableEq

inductive PositionSource where
  | signalk
  | n2k
  deriving DecidableEq

/-- What `position_get` reads of the configuration, the fallback as the
`double`s that its `float`s become. -/
structure PositionCfg where
  positionSource : PositionSource
  fallback : Fix

/-- `POSITION_STALE_MS` -/
def positionStaleMs : ℕ := 10 * 60 * 1000

def readI32Le (p : List Byte) : ℤ := (Lib.LittleEndian.get 32 (p.take 4)).toInt

def readI64Le (p : List Byte) : ℤ := (Lib.LittleEndian.get 64 (p.take 8)).toInt

def positionN2kParse129025 (data : List Byte) : Option Fix :=
  let latRaw := readI32Le data
  let lonRaw := readI32Le (data.drop 4)
  if data.length < 8 then none
  else if latRaw = 0x7FFFFFFF ∨ lonRaw = 0x7FFFFFFF then none
  else some ⟨Float.ofInt latRaw * 1e-7, Float.ofInt lonRaw * 1e-7⟩

def positionN2kParse129029 (data : List Byte) : Option Fix :=
  let latRaw := readI64Le (data.drop 7)
  let lonRaw := readI64Le (data.drop 15)
  if data.length < 23 then none
  else if latRaw = 0x7FFFFFFFFFFFFFFF ∨ lonRaw = 0x7FFFFFFFFFFFFFFF then none
  else some ⟨Float.ofInt latRaw * 1e-16, Float.ofInt lonRaw * 1e-16⟩

/-- What is used of cJSON, which is not part of the repository. -/
structure CJson where
  Item : Type
  parse : List Byte → Option Item
  getObjectItemCaseSensitive : Item → List Byte → Option Item
  isNumber : Item → Bool
  valuedouble : Item → Float

/-- `espos_sk_update_t`, of which only the value is read. -/
structure EsposSkUpdate where
  valueJson : Option (List Byte)

structure PositionReceiver where
  inited : Bool
  hasFix : Bool
  fix : Fix
  receivedMs : Ms

namespace PositionReceiver

def zero : PositionReceiver := ⟨false, false, ⟨0, 0⟩, 0⟩

/-- `position_n2k_init` and `position_sk_init` -/
def init (s : PositionReceiver) : PositionReceiver := { s with inited := true, hasFix := false }

/-- The fix is kept with the reading of `hw.now_ms`. -/
def accept (fix : Fix) (now : Ms) (s : PositionReceiver) : PositionReceiver :=
  { s with fix := fix, hasFix := true, receivedMs := now }

def get (s : PositionReceiver) : Option (Fix × Ms) :=
  if !s.inited || !s.hasFix then none else some (s.fix, s.receivedMs)

def positionN2kOnMsg (pgn : BitVec 32) (data : List Byte) (now : Ms) (s : PositionReceiver) :
    PositionReceiver :=
  if !s.inited then s
  else
    let parsed :=
      if pgn = 129025 then positionN2kParse129025 data
      else if pgn = 129029 then positionN2kParse129029 data
      else none
    match parsed with
    | some fix => s.accept fix now
    | none => s

/-- `cJSON_IsNumber` is false of a null pointer. -/
def positionSkOnUpdate (cjson : CJson) (u : Option EsposSkUpdate) (now : Ms)
    (s : PositionReceiver) : PositionReceiver :=
  match u.bind EsposSkUpdate.valueJson with
  | none => s
  | some json =>
    if !s.inited then s
    else
      match cjson.parse json with
      | none => s
      | some root =>
        match cjson.getObjectItemCaseSensitive root (ascii "latitude"),
            cjson.getObjectItemCaseSensitive root (ascii "longitude") with
        | some latJ, some lonJ =>
          if cjson.isNumber latJ && cjson.isNumber lonJ then
            s.accept ⟨cjson.valuedouble latJ, cjson.valuedouble lonJ⟩ now
          else s
        | _, _ => s

end PositionReceiver

structure Positions where
  n2k : PositionReceiver
  sk : PositionReceiver

/-- `app_main` calls both init functions before it subscribes either receiver. -/
def Positions.boot : Positions := ⟨PositionReceiver.zero.init, PositionReceiver.zero.init⟩

def Positions.receiver (s : Positions) : PositionSource → PositionReceiver
  | .n2k => s.n2k
  | .signalk => s.sk

def Positions.positionGet (s : Positions) (cfg : PositionCfg) (now : Ms) : Fix :=
  match (s.receiver cfg.positionSource).get with
  | some (live, receivedMs) =>
    if (now - receivedMs).toNat ≤ positionStaleMs then live else cfg.fallback
  | none => cfg.fallback

inductive PositionMsg where
  | n2k (pgn : BitVec 32) (data : List Byte)
  | sk (u : Option EsposSkUpdate)

section Runs

variable (cjson : CJson)

def Positions.onMsg (s : Positions) (m : ℕ × PositionMsg) : Positions :=
  match m.2 with
  | .n2k pgn data => { s with n2k := s.n2k.positionN2kOnMsg pgn data (reading 32 m.1) }
  | .sk u => { s with sk := s.sk.positionSkOnUpdate cjson u (reading 32 m.1) }

def PositionMsg.fixFrom (source : PositionSource) : PositionMsg → Option Fix
  | .n2k pgn data =>
    if source ≠ .n2k then none
    else if pgn = 129025 then positionN2kParse129025 data
    else if pgn = 129029 then positionN2kParse129029 data
    else none
  | .sk u =>
    if source ≠ .signalk then none
    else do
      let update ← u
      let json ← update.valueJson
      let root ← cjson.parse json
      let latJ ← cjson.getObjectItemCaseSensitive root (ascii "latitude")
      let lonJ ← cjson.getObjectItemCaseSensitive root (ascii "longitude")
      if cjson.isNumber latJ && cjson.isNumber lonJ then
        some ⟨cjson.valuedouble latJ, cjson.valuedouble lonJ⟩
      else none

def lastFix (source : PositionSource) (msgs : List (ℕ × PositionMsg)) : Option (ℕ × Fix) :=
  (msgs.filterMap fun m => (m.2.fixFrom cjson source).map fun fix => (m.1, fix)).getLast?

/-- The position that is due at a time: the last fix, or the fallback where
there is none so young. -/
def duePosition (cfg : PositionCfg) (msgs : List (ℕ × PositionMsg)) (now : ℕ) : Fix :=
  match lastFix cjson cfg.positionSource msgs with
  | some (received, fix) => if now - received ≤ positionStaleMs then fix else cfg.fallback
  | none => cfg.fallback

/-- The last fix lies elsewhere than the fallback and is stale, but its age has
come round the clock to a small one. -/
def Revived (cfg : PositionCfg) (msgs : List (ℕ × PositionMsg)) (now : ℕ) : Prop :=
  ∃ received fix, lastFix cjson cfg.positionSource msgs = some (received, fix) ∧
    positionStaleMs < now - received ∧ (now - received) % 2 ^ 32 ≤ positionStaleMs ∧
    fix ≠ cfg.fallback

def HoldsFix (last : Option (ℕ × Fix)) (s : PositionReceiver) : Prop :=
  s.inited = true ∧ s.get = last.map fun l => (l.2, reading 32 l.1)

variable {cjson}

theorem holdsFix_boot (source : PositionSource) :
    HoldsFix none (Positions.boot.receiver source) := by
  cases source <;> exact ⟨rfl, rfl⟩

theorem holdsFix_accept {last : Option (ℕ × Fix)} {s : PositionReceiver} (h : HoldsFix last s)
    (fix : Fix) (t : ℕ) : HoldsFix (some (t, fix)) (s.accept fix (reading 32 t)) := by
  refine ⟨h.1, ?_⟩
  rw [PositionReceiver.get, PositionReceiver.accept, h.1]
  rfl

theorem lastFix_snoc (source : PositionSource) (msgs : List (ℕ × PositionMsg))
    (m : ℕ × PositionMsg) :
    lastFix cjson source (msgs ++ [m]) =
      ((m.2.fixFrom cjson source).map fun fix => (m.1, fix)).or (lastFix cjson source msgs) := by
  rw [lastFix, List.filterMap_append, List.getLast?_append]
  cases hfix : m.2.fixFrom cjson source with
  | none => simp [hfix, lastFix]
  | some fix => simp [hfix]

theorem lastFix_snoc_none {source : PositionSource} {m : ℕ × PositionMsg}
    (h : m.2.fixFrom cjson source = none) (msgs : List (ℕ × PositionMsg)) :
    lastFix cjson source (msgs ++ [m]) = lastFix cjson source msgs := by
  rw [lastFix_snoc, h]
  rfl

theorem lastFix_snoc_some {source : PositionSource} {m : ℕ × PositionMsg} {fix : Fix}
    (h : m.2.fixFrom cjson source = some fix) (msgs : List (ℕ × PositionMsg)) :
    lastFix cjson source (msgs ++ [m]) = some (m.1, fix) := by
  rw [lastFix_snoc, h]
  rfl

theorem onMsg_n2k_fix (pgn : BitVec 32) (data : List Byte) (now : Ms) {s : PositionReceiver}
    (hinited : s.inited = true) :
    s.positionN2kOnMsg pgn data now =
      match (PositionMsg.n2k pgn data).fixFrom cjson .n2k with
      | some fix => s.accept fix now
      | none => s := by
  rw [PositionReceiver.positionN2kOnMsg, hinited]
  rfl

theorem onUpdate_sk_fix (u : Option EsposSkUpdate) (now : Ms) {s : PositionReceiver}
    (hinited : s.inited = true) :
    s.positionSkOnUpdate cjson u now =
      match (PositionMsg.sk u).fixFrom cjson .signalk with
      | some fix => s.accept fix now
      | none => s := by
  unfold PositionReceiver.positionSkOnUpdate PositionMsg.fixFrom
  dsimp only
  rw [hinited, if_neg (not_not.mpr rfl)]
  cases u with
  | none => rfl
  | some update =>
  cases hjson : update.valueJson with
  | none => simp [hjson]
  | some json =>
  cases hroot : cjson.parse json with
  | none => simp [hjson, hroot]
  | some root =>
  cases hlat : cjson.getObjectItemCaseSensitive root (ascii "latitude") with
  | none => simp [hjson, hroot, hlat]
  | some latJ =>
  cases hlon : cjson.getObjectItemCaseSensitive root (ascii "longitude") with
  | none => simp [hjson, hroot, hlat, hlon]
  | some lonJ =>
    by_cases hnumber : cjson.isNumber latJ = true ∧ cjson.isNumber lonJ = true
    · simp [hjson, hroot, hlat, hlon, hnumber]
    · simp [hjson, hroot, hlat, hlon, hnumber]

theorem holdsFix_onMsg {source : PositionSource} {msgs : List (ℕ × PositionMsg)} {s : Positions}
    (h : HoldsFix (lastFix cjson source msgs) (s.receiver source)) (m : ℕ × PositionMsg) :
    HoldsFix (lastFix cjson source (msgs ++ [m])) ((s.onMsg cjson m).receiver source) := by
  have hnext : (s.onMsg cjson m).receiver source =
      match m.2.fixFrom cjson source with
      | some fix => (s.receiver source).accept fix (reading 32 m.1)
      | none => s.receiver source := by
    obtain ⟨t, msg⟩ := m
    cases msg with
    | n2k pgn data =>
      cases source with
      | signalk => rfl
      | n2k => exact onMsg_n2k_fix pgn data _ h.1
    | sk u =>
      cases source with
      | signalk => exact onUpdate_sk_fix u _ h.1
      | n2k => rfl
  rw [hnext]
  cases hfix : m.2.fixFrom cjson source with
  | none => rwa [lastFix_snoc_none hfix]
  | some fix =>
    rw [lastFix_snoc_some hfix]
    exact holdsFix_accept h fix m.1

/-- After any messages a receiver holds the last fix it was sent. -/
theorem holdsFix_run (source : PositionSource) (msgs : List (ℕ × PositionMsg)) :
    HoldsFix (lastFix cjson source msgs)
      ((run (Positions.onMsg cjson) Positions.boot msgs).receiver source) := by
  induction msgs using List.reverseRecOn with
  | nil => exact holdsFix_boot source
  | append_singleton msgs m ih =>
    rw [run_snoc]
    exact holdsFix_onMsg ih m

theorem lastFix_mem {source : PositionSource} {msgs : List (ℕ × PositionMsg)} {received : ℕ}
    {fix : Fix} (h : lastFix cjson source msgs = some (received, fix)) :
    ∃ m ∈ msgs, m.1 = received := by
  obtain ⟨m, hm, heq⟩ := List.mem_filterMap.mp (List.mem_of_getLast? h)
  obtain ⟨f, -, hf⟩ := Option.map_eq_some_iff.mp heq
  exact ⟨m, hm, congrArg Prod.fst hf⟩

theorem revived_iff {cfg : PositionCfg} {msgs : List (ℕ × PositionMsg)} {received : ℕ} {fix : Fix}
    (hlast : lastFix cjson cfg.positionSource msgs = some (received, fix)) (now : ℕ) :
    Revived cjson cfg msgs now ↔ positionStaleMs < now - received ∧
      (now - received) % 2 ^ 32 ≤ positionStaleMs ∧ fix ≠ cfg.fallback := by
  rw [Revived, hlast]
  constructor
  · rintro ⟨_, _, hsome, hrevived⟩
    obtain ⟨rfl, rfl⟩ := Prod.mk.inj (Option.some.inj hsome)
    exact hrevived
  · exact fun h => ⟨received, fix, rfl, h⟩

theorem not_revived {cfg : PositionCfg} {msgs : List (ℕ × PositionMsg)}
    (hlast : lastFix cjson cfg.positionSource msgs = none) (now : ℕ) :
    ¬Revived cjson cfg msgs now := by
  rintro ⟨_, _, hsome, -⟩
  rw [hlast] at hsome
  cases hsome

/-- The position got is the one that is due exactly if no stale fix has come
round to a small age. -/
theorem position_get_due_iff (cjson : CJson) (cfg : PositionCfg)
    (msgs : List (ℕ × PositionMsg)) (now : ℕ) (hpast : ∀ m ∈ msgs, m.1 ≤ now) :
    (run (Positions.onMsg cjson) Positions.boot msgs).positionGet cfg (reading 32 now) =
      duePosition cjson cfg msgs now ↔ ¬Revived cjson cfg msgs now := by
  obtain ⟨-, hget⟩ := @holdsFix_run cjson cfg.positionSource msgs
  rw [Positions.positionGet, hget]
  cases hlast : lastFix cjson cfg.positionSource msgs with
  | none =>
    rw [duePosition, hlast]
    exact iff_of_true rfl (not_revived hlast now)
  | some last =>
    obtain ⟨received, fix⟩ := last
    obtain ⟨m, hm, rfl⟩ := lastFix_mem hlast
    rw [duePosition, hlast, revived_iff hlast]
    dsimp only [Option.map_some]
    rw [reading_sub_toNat 32 now m.1 (hpast m hm)]
    have hshort : (now - m.1) % 2 ^ 32 ≤ now - m.1 := Nat.mod_le _ _
    by_cases hfresh : now - m.1 ≤ positionStaleMs
    · rw [if_pos hfresh, if_pos (hshort.trans hfresh)]
      exact iff_of_true rfl fun h => absurd hfresh (Nat.not_le.mpr h.1)
    · rw [if_neg hfresh]
      by_cases hround : (now - m.1) % 2 ^ 32 ≤ positionStaleMs
      · rw [if_pos hround]
        exact ⟨fun heq h => h.2.2 heq,
          fun h => by_contra fun hne => h ⟨Nat.not_le.mp hfresh, hround, hne⟩⟩
      · rw [if_neg hround]
        exact iff_of_true rfl fun h => hround h.2.1

def CJson.unused : CJson where
  Item := Unit
  parse := fun _ => none
  getObjectItemCaseSensitive := fun _ _ => none
  isNumber := fun _ => false
  valuedouble := fun _ => 0

/-- 54 degrees north and 10 degrees east, received once and asked for nine
minutes later. -/
theorem young_fix_due :
    (run (Positions.onMsg .unused) Positions.boot [(1000, .n2k 129025
        [0x00, 0xbf, 0x2f, 0x20, 0x00, 0xe1, 0xf5, 0x05])]).positionGet
        ⟨.n2k, ⟨1, 2⟩⟩ (reading 32 541000) =
      ⟨Float.ofInt 540000000 * 1e-7, Float.ofInt 100000000 * 1e-7⟩ := by
  refine ((position_get_due_iff .unused ⟨.n2k, ⟨1, 2⟩⟩ _ 541000 (by simp)).mpr ?_).trans rfl
  rintro ⟨received, fix, hlast, hold, -⟩
  obtain ⟨m, hm, rfl⟩ := lastFix_mem hlast
  obtain rfl := List.mem_singleton.mp hm
  exact absurd hold (by decide)

/-- A fix received once, asked for 2^32 ms later. -/
theorem old_fix_revived :
    (run (Positions.onMsg .unused) Positions.boot
        [(0, .n2k 129025 (List.replicate 8 0))]).positionGet ⟨.n2k, ⟨1, 2⟩⟩
        (reading 32 (2 ^ 32)) ≠
      duePosition .unused ⟨.n2k, ⟨1, 2⟩⟩ [(0, .n2k 129025 (List.replicate 8 0))] (2 ^ 32) := by
  decide +kernel

end Runs

end RelayBoard
