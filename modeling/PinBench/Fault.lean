import PinBench.Text.Numeral

/-!
# Faults

Why an operation on the bench does not do what it was asked.

* `RegisterWrite`: a byte for a register of a device on the bus.
* `BusFailure`: a register write that did not get through.
* `Fault`: every reason there is.
* `Fault.tag`, `Fault.status`, `Fault.message`: how a fault is told to a caller.
-/

namespace PinBench

/-! ## The bus -/

structure RegisterWrite where
  /-- The address of the device. -/
  address : UInt8
  register : UInt8
  value : UInt8
  deriving DecidableEq, Repr

/-- A write that the bus refused, with the reason it gave. -/
structure BusFailure where
  address : UInt8
  register : UInt8
  reason : String
  deriving DecidableEq, Repr

def RegisterWrite.failure (w : RegisterWrite) (reason : String) : BusFailure :=
  ⟨w.address, w.register, reason⟩

def BusFailure.message (f : BusFailure) : String :=
  s!"write to {Text.hexText f.address} register {Text.hexText f.register} failed: {f.reason}"

/-! ## Faults -/

/-- Who named the pin or the expander that is missing: a caller, or the configuration itself. -/
inductive Origin where
  | caller
  | configuration
  deriving DecidableEq, Repr

inductive Fault where
  | unknownCard (card : String)
  | unknownPin (card label : String)
  /-- A pin number that no group holds, or not within the eight bits of its register. -/
  | unmappedPin (pin : UInt8) (origin : Origin)
  | unknownExpander (number : UInt8) (origin : Origin)
  /-- The register has its new value here, but perhaps not on the device. -/
  | bus (f : BusFailure)
  | unknownCommand (name : String)
  | forbiddenCommand (name : String)
  | unknownCategory (name : String)
  | unknownBench (name : String)
  /-- An argument of a request that cannot be read. -/
  | badArgument (what : String)
  deriving DecidableEq, Repr

namespace Fault

/-- The kind of a fault, for programs. -/
def tag : Fault → String
  | unknownCard _ => "CARD_NOT_FOUND"
  | unknownPin .. => "PIN_NOT_FOUND"
  | unmappedPin .. => "PIN_NOT_FOUND"
  | unknownExpander .. => "MODULE_GPIO_NOT_FOUND"
  | bus _ => "I2C_BUS_ERROR"
  | unknownCommand _ => "COMMAND_NOT_FOUND"
  | forbiddenCommand _ => "COMMAND_FORBIDDEN"
  | unknownCategory _ => "ETAT_NOT_FOUND"
  | unknownBench _ => "CONFIGURATION_NOT_FOUND"
  | badArgument _ => "INVALID_REQUEST"

/-- The status code: from 500 on, the bench and not the caller is at fault. -/
def status : Fault → UInt16
  | unmappedPin _ .configuration => 500
  | unknownExpander _ .configuration => 500
  | bus _ => 500
  | forbiddenCommand _ => 406
  | badArgument _ => 400
  | _ => 404

/-- The fault in words. -/
def message : Fault → String
  | unknownCard card => s!"card `{card}` not found"
  | unknownPin card label => s!"pin `{label}` not found on card `{card}`"
  | unmappedPin pin _ => s!"pin {pin} is not mapped in the pinout"
  | unknownExpander number _ => s!"GPIO module {number} not found"
  | bus f => s!"I2C bus error: {f.message}"
  | unknownCommand name => s!"command `{name}` not found"
  | forbiddenCommand name => s!"command `{name}` is forbidden in the current state"
  | unknownCategory name => s!"etat `{name}` not found"
  | unknownBench name => s!"configuration `{name}` not found"
  | badArgument what => s!"invalid request: {what}"

/-- Whether the register has its new value here all the same. -/
def isBus : Fault → Bool
  | bus _ => true
  | _ => false

end Fault

end PinBench
