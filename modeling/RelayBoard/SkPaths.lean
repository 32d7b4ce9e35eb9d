import Mathlib.Data.Fintype.Defs
import RelayBoard.BoardConfig

/-!
# SignalK paths

What `make_path` and `make_notif_path` put together, as a record of its parts
and as text. The switches tree tells inputs from relays by the bank number
alone, so the texts of two paths differ as long as the two banks do.
-/

set_option autoImplicit false

namespace RelayBoard

inductive Tree where
  | switches
  | controls
  deriving DecidableEq, Repr

theorem mem_trees (t : Tree) : t ∈ ({.switches, .controls} : Finset Tree) := by
  cases t <;> simp

instance : Fintype Tree := ⟨{.switches, .controls}, mem_trees⟩

inductive Leaf where
  | state
  | name
  | runTime
  | cycles
  | order
  | type
  | manufacturerName
  | manufacturerModel
  deriving DecidableEq, Repr

def Leaf.text : Leaf → List Byte
  | .state => ascii "state"
  | .name => ascii "name"
  | .runTime => ascii "runTime"
  | .cycles => ascii "cycles"
  | .order => ascii "order"
  | .type => ascii "type"
  | .manufacturerName => ascii "manufacturer.name"
  | .manufacturerModel => ascii "manufacturer.model"

structure SkPath where
  notification : Bool
  tree : Tree
  input : Bool
  bank : Byte
  channel : Channel
  leaf : Leaf
  deriving DecidableEq, Repr

/-- `PATH_MAX_LEN` and `NOTIF_PATH_MAX_LEN`. -/
abbrev pathMaxLen : ℕ := 96
abbrev notifPathMaxLen : ℕ := pathMaxLen + 16

def SkPath.base (p : SkPath) : List Byte :=
  match p.tree with
  | .switches =>
    ascii "electrical.switches.bank." ++ decimal p.bank.toNat ++ ascii "." ++
      decimal (p.channel.val + 1) ++ ascii "." ++ p.leaf.text
  | .controls =>
    ascii "electrical.controls.espOS-instance" ++ decimal p.bank.toNat ++ ascii "-" ++
      ascii (if p.input then "input" else "relay") ++ decimal (p.channel.val + 1) ++
      ascii "." ++ p.leaf.text

def SkPath.text (p : SkPath) : List Byte :=
  let base := snprintf pathMaxLen p.base
  if p.notification then snprintf notifPathMaxLen (ascii "notifications." ++ base) else base

end RelayBoard
