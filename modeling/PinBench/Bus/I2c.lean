import PinBench.Bus.Basic

/-!
# The I2C bus

A register write as one I2C transfer: the number of the register, then its byte.

* `I2cFault`: how a transfer goes wrong, with its name.
* `Peripheral`: what drives the lines.
* `I2cBus`: a peripheral as a bus.
* `FaultyPeripheral`: a peripheral that keeps what arrives and fails on chosen addresses.
-/

namespace PinBench

/-! ## Transfers -/

/-- Which part of a transfer was not acknowledged. -/
inductive Unacknowledged where
  | address
  | data
  | unknown
  deriving DecidableEq, Repr

inductive I2cFault where
  | bus
  | arbitrationLoss
  | noAcknowledge (part : Unacknowledged)
  | overrun
  | other
  deriving DecidableEq, Repr

def Unacknowledged.name : Unacknowledged → String
  | address => "Address"
  | data => "Data"
  | unknown => "Unknown"

def I2cFault.name : I2cFault → String
  | bus => "Bus"
  | arbitrationLoss => "ArbitrationLoss"
  | noAcknowledge part => s!"NoAcknowledge({part.name})"
  | overrun => "Overrun"
  | other => "Other"

/-- What drives the lines of an I2C bus. -/
class Peripheral (π : Type) where
  transfer : π → UInt8 → List UInt8 → Option I2cFault × π

/-! ## The bus -/

structure I2cBus (π : Type) where
  peripheral : π

instance {π : Type} [Peripheral π] : Bus (I2cBus π) where
  write b w :=
    let (fault?, p) := Peripheral.transfer b.peripheral w.address [w.register, w.value]
    ⟨fault?.map I2cFault.name, [], ⟨p⟩⟩

/-! ## A peripheral without hardware -/

structure FaultyPeripheral where
  /-- The addresses that fail, each with its fault. -/
  faults : List (UInt8 × I2cFault)
  /-- The transfers that arrived, the oldest first. -/
  arrived : List (UInt8 × List UInt8)
  deriving DecidableEq

namespace FaultyPeripheral

def fault? (p : FaultyPeripheral) (address : UInt8) : Option I2cFault :=
  p.faults.lookup address

/-- Gives an address a fault, or takes it away. -/
def setFault (p : FaultyPeripheral) (address : UInt8) (f : Option I2cFault) : FaultyPeripheral :=
  let others := p.faults.filter (·.1 != address)
  { p with faults := f.elim others fun f => (address, f) :: others }

instance : Peripheral FaultyPeripheral where
  transfer p address bytes :=
    match p.fault? address with
    | some f => (some f, p)
    | none => (none, { p with arrived := p.arrived ++ [(address, bytes)] })

end FaultyPeripheral

end PinBench
