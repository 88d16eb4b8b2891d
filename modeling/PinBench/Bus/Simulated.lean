import PinBench.Bus.Basic

/-!
# The simulated bus

A bus with no hardware behind it: it keeps the last byte of every register, the writes so far, and
which devices are offline.

* `SimulatedBus.register?`: the last byte of a register.
* `SimulatedBus.setOffline`: takes a device off the bus or puts it back.
-/

namespace PinBench

structure SimulatedBus where
  /-- The writes that got through, the last one first. -/
  log : List RegisterWrite
  /-- The addresses that do not answer. -/
  offline : List UInt8
  deriving DecidableEq

namespace SimulatedBus

def empty : SimulatedBus := ⟨[], []⟩

/-- The writes that got through, the oldest first. -/
def writes (b : SimulatedBus) : List RegisterWrite := b.log.reverse

/-- The byte last written to a register, none if it has not been written. -/
def register? (b : SimulatedBus) (address register : UInt8) : Option UInt8 :=
  (b.log.find? fun w => w.address == address && w.register == register).map (·.value)

def setOffline (b : SimulatedBus) (address : UInt8) (off : Bool) : SimulatedBus :=
  { b with
    offline := if off then address :: b.offline else b.offline.filter (· != address) }

instance : Bus SimulatedBus where
  write b w :=
    if b.offline.contains w.address then ⟨some "device offline (simulated)", [], b⟩
    else
      ⟨none,
        [⟨.debug, s!"sim-bus: {Text.hexText w.address}[{Text.hexText w.register}] <- " ++
          Text.bitText w.value⟩],
        { b with log := w :: b.log }⟩

end SimulatedBus

end PinBench
