import RelayBoard.Lib.Runs
import RelayBoard.RelayCtrl

/-!
# Relay control as a machine

One call of a public function at one reading of the clock, together with what
the devices do during it, is one input. A run starts from static storage and
an expander in any state; `relay_ctrl_init` is a call like the others.
-/

set_option autoImplicit false

namespace RelayBoard
open Lib.Runs

inductive Op where
  | init (cfg : DeviceConfig)
  | set (channel : ℕ) (on : Bool) (src : RelaySource)
  | toggle (channel : ℕ) (src : RelaySource)
  | tick
  | skLost
  | updateConfig (cfg : DeviceConfig)

structure Call where
  op : Op
  time : ℕ
  faults : List Access
  saveErr : Option EspErr

/-- The devices as a call finds them: its own clock reading, its own faults and
empty records of what it writes and saves. -/
def Env.begin (env : Env) (c : Call) : Env :=
  { env with time := c.time, faults := c.faults, saveErr := c.saveErr, writes := [], saves := [] }

def World.begin (w : World) (c : Call) : World := { w with env := w.env.begin c }

structure Result where
  err : EspResult Unit
  notices : List Notice
  world : World

def perform (op : Op) (w : World) : Result :=
  match op with
  | .init cfg => let r := relayCtrlInit cfg w; ⟨r.1, [], r.2⟩
  | .set channel on src => let r := relayCtrlSet channel on src w; ⟨r.1, r.2.2, r.2.1⟩
  | .toggle channel src => let r := relayCtrlToggle channel src w; ⟨r.1, r.2.2, r.2.1⟩
  | .tick => let r := relayCtrlTick w; ⟨.ok (), r.2, r.1⟩
  | .skLost => let r := relayCtrlSkLost w; ⟨.ok (), r.2, r.1⟩
  | .updateConfig cfg => let r := relayCtrlUpdateConfig cfg w; ⟨.ok (), r.2, r.1⟩

def result (w : World) (c : Call) : Result := perform c.op (w.begin c)

def step (w : World) (c : Call) : World := (result w c).world

/-- Power-on: static storage is zero, the expander, the store and the health
board are as they are. -/
def boot (chip : Chip) (stored : Option Mask) (health : HealthKey → Health) : World :=
  ⟨.zero, ⟨0, chip, [], stored, none, health, [], []⟩⟩

abbrev Entry := World × Call

/-- Every operation but `relay_ctrl_init`. -/
def Op.running : Op → Bool
  | .init _ => false
  | _ => true

def Op.isTick : Op → Bool
  | .tick => true
  | _ => false

theorem eq_tick_of_isTick {op : Op} (h : op.isTick = true) : op = .tick := by
  cases op with
  | tick => rfl
  | _ => cases h

def Op.isSkLost : Op → Bool
  | .skLost => true
  | _ => false

theorem eq_skLost_of_isSkLost {op : Op} (h : op.isSkLost = true) : op = .skLost := by
  cases op with
  | skLost => rfl
  | _ => cases h

/-- Every configuration handed over in the operation satisfies `P`. -/
def Op.Configures (P : DeviceConfig → Prop) : Op → Prop
  | .init cfg => P cfg
  | .updateConfig cfg => P cfg
  | _ => True

instance (P : DeviceConfig → Prop) [DecidablePred P] (op : Op) : Decidable (op.Configures P) :=
  match op with
  | .init cfg => inferInstanceAs (Decidable (P cfg))
  | .updateConfig cfg => inferInstanceAs (Decidable (P cfg))
  | .set _ _ _ => inferInstanceAs (Decidable True)
  | .toggle _ _ => inferInstanceAs (Decidable True)
  | .tick => inferInstanceAs (Decidable True)
  | .skLost => inferInstanceAs (Decidable True)

def Call.Reliable (c : Call) : Prop := ∀ a ∈ c.faults, a = .done

instance (c : Call) : Decidable c.Reliable := inferInstanceAs (Decidable (∀ a ∈ c.faults, _))

def Call.plain (op : Op) (time : ℕ) : Call := ⟨op, time, [], none⟩

/-- Power-on with an expander that lost its set-up and an empty store. -/
def coldBoot : World := boot ⟨0x00#8, 0xff#8⟩ none (fun _ => .normal)

@[simp] theorem begin_s (w : World) (c : Call) : (w.begin c).s = w.s := rfl

end RelayBoard
