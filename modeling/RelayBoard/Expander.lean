import RelayBoard.DeviceConfig

/-!
# The relay expander and the other devices behind relay control

The TCA9554's two registers sit behind a bus on which any access may fail. A
failed write may or may not have reached the chip; a read gives the
register's value or an error. The environment also keeps the stored hold
mask, the health board and the millisecond clock, and it records every
register write and every save which relay control attempts in one call.
-/

set_option autoImplicit false

namespace RelayBoard

inductive EspErr where
  | fail
  | invalidArg
  | notFound
  | timeout
  | invalidResponse
  deriving DecidableEq, Repr

abbrev EspResult (α : Type) := Except EspErr α

def EspErr.name : EspErr → String
  | .fail => "ESP_FAIL"
  | .invalidArg => "ESP_ERR_INVALID_ARG"
  | .notFound => "ESP_ERR_NOT_FOUND"
  | .timeout => "ESP_ERR_TIMEOUT"
  | .invalidResponse => "ESP_ERR_INVALID_RESPONSE"

inductive Reg where
  | output
  | config
  deriving DecidableEq, Repr

structure Chip where
  output : Mask
  config : Mask
  deriving DecidableEq, Repr

def Chip.get (c : Chip) : Reg → Mask
  | .output => c.output
  | .config => c.config

def Chip.set (c : Chip) (reg : Reg) (v : Mask) : Chip :=
  match reg with
  | .output => { c with output := v }
  | .config => { c with config := v }

/-- How the bus treats one access: it succeeds, it fails without effect, or it
reports a failure although a write reached the chip. -/
inductive Access where
  | done
  | lost (err : EspErr)
  | taken (err : EspErr)
  deriving DecidableEq, Repr

inductive HealthKey where
  | relayExpander
  | interlockBothOn
  deriving DecidableEq, Repr

inductive Health where
  | normal
  | warn (msg : String)
  | alarm (msg : String)
  deriving DecidableEq, Repr

structure Env where
  /-- True time; the code only sees `nowMs`. -/
  time : ℕ
  chip : Chip
  /-- How the coming accesses go; none left means they succeed. -/
  faults : List Access
  stored : Option Mask
  /-- How a save ends in this call. -/
  saveErr : Option EspErr
  health : HealthKey → Health
  writes : List (Reg × Mask)
  saves : List Mask

/-- `(uint32_t)(esp_timer_get_time() / 1000)`. -/
def nowMs (env : Env) : Ms := BitVec.ofNat 32 env.time

def healthReport (key : HealthKey) (h : Health) (env : Env) : Env :=
  { env with health := Function.update env.health key h }

def nextAccess (env : Env) : Access × Env :=
  match env.faults with
  | [] => (.done, env)
  | a :: rest => (a, { env with faults := rest })

def readReg (reg : Reg) (env : Env) : EspResult Mask × Env :=
  match nextAccess env with
  | (.done, env) => (.ok (env.chip.get reg), env)
  | (.lost e, env) => (.error e, env)
  | (.taken e, env) => (.error e, env)

def writeReg (reg : Reg) (val : Mask) (env : Env) : EspResult Unit × Env :=
  match nextAccess { env with writes := env.writes ++ [(reg, val)] } with
  | (.done, env) => (.ok (), { env with chip := env.chip.set reg val })
  | (.lost e, env) => (.error e, env)
  | (.taken e, env) => (.error e, { env with chip := env.chip.set reg val })

def storeLoad (env : Env) : EspResult Mask :=
  match env.stored with
  | some m => .ok m
  | none => .error .notFound

def storeSave (mask : Mask) (env : Env) : EspResult Unit × Env :=
  match env.saveErr with
  | some e => (.error e, { env with saves := env.saves ++ [mask] })
  | none => (.ok (), { env with saves := env.saves ++ [mask], stored := some mask })

def tca9554AllOutputs (env : Env) : EspResult Bool × Env :=
  match readReg .config env with
  | (.ok cfg, env) => (.ok (cfg = 0x00#8), env)
  | (.error e, env) => (.error e, env)

def tca9554ReadOutputs (env : Env) : EspResult Mask × Env := readReg .output env

def tca9554WriteOutputs (value : Mask) (env : Env) : EspResult Unit × Env :=
  match writeReg .output value env with
  | (.error e, env) => (.error e, env)
  | (.ok _, env) =>
    match readReg .output env with
    | (.error e, env) => (.error e, env)
    | (.ok back, env) => (if back = value then .ok () else .error .invalidResponse, env)

def tca9554InitOutputs (value : Mask) (env : Env) : EspResult Unit × Env :=
  match tca9554WriteOutputs value env with
  | (.error e, env) => (.error e, env)
  | (.ok _, env) => writeReg .config 0x00#8 env

end RelayBoard
