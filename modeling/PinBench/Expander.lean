import PinBench.Bit
import PinBench.Json.Record

/-!
# Expanders

The expanders on the bus and the pinout they share.

* `RegisterBank`: at most eight register bytes.
* `RegisterBank.get?_set_self`, `RegisterBank.get?_set_of_ne`: **a change is found in its register,
  and in no other**.
* `Expander`: a module of the bench with its registers.
* `PinGroup`: the pins of one register, by bit.
* `PinGroup.bitOf?`: the bit of a pin.
* `Expander.codec`, `PinGroup.codec`: how they stand in a configuration.
-/

namespace PinBench

open Json (Codec Field Fields)

/-! ## Registers -/

/-- The register bytes of an expander, by register number. -/
structure RegisterBank where
  bytes : List UInt8
  size_le : bytes.length ≤ 8
  deriving DecidableEq

namespace RegisterBank

def get? (r : RegisterBank) (i : Nat) : Option UInt8 := r.bytes[i]?

/-- The bank with another byte in register `i`, if it has that register. -/
def set (r : RegisterBank) (i : Nat) (b : UInt8) : RegisterBank :=
  ⟨r.bytes.set i b, by rw [List.length_set]; exact r.size_le⟩

theorem get?_set_self {r : RegisterBank} {i : Nat} {a : UInt8} (h : r.get? i = some a) (b : UInt8) :
    (r.set i b).get? i = some b := by
  obtain ⟨hi, -⟩ := List.getElem?_eq_some_iff.1 h
  exact List.getElem?_set_self hi

theorem get?_set_of_ne (r : RegisterBank) {i j : Nat} (h : i ≠ j) (b : UInt8) :
    (r.set i b).get? j = r.get? j :=
  List.getElem?_set_ne h

def codec : Codec RegisterBank where
  read
    | .arr items cut =>
      match h : Codec.byte.readUpTo 8 items with
      | .ok bytes => do
        Json.closing cut
        .ok ⟨bytes, Codec.readUpTo_length h⟩
      | .error e => .error e
    | o => .error o.refuse
  write r := .arr (r.bytes.map Codec.byte.write)

end RegisterBank

/-! ## Expanders -/

structure Expander where
  /-- The number by which cards and callers name the expander. -/
  number : UInt8
  /-- Its address on the bus. -/
  address : UInt8
  /-- The last byte written to each register. -/
  registers : RegisterBank
  deriving DecidableEq

def Expander.codec : Codec Expander :=
  (Fields.cons (.required "API_Address" .byte) <|
    .cons (.required "address" .hexByte) <|
    .cons (.required "registers" RegisterBank.codec) .nil).record
  (fun (number, address, registers, ()) => ⟨number, address, registers⟩)
  (fun e => (e.number, e.address, e.registers, ()))

/-! ## Pinout -/

/-- The pins that one register drives on every expander. -/
structure PinGroup where
  /-- The pin of each bit, the lowest first. -/
  pins : List UInt8
  /-- The number of the register in the bank. -/
  register : UInt64
  /-- The bus address of the register. -/
  dataAddress : UInt8
  /-- The bus address of the register that sets the directions. -/
  directionAddress : UInt8
  /-- What is written there; a zero bit is an output. -/
  direction : UInt8
  deriving DecidableEq

namespace PinGroup

def codec : Codec PinGroup :=
  (Fields.cons (.required "pins" (.list .byte)) <|
    .cons (.required "register_number" .word64) <|
    .cons (.required "gpio_register" .hexByte) <|
    .cons (.required "iodir_register" .hexByte) <|
    .cons (.withDefault "direction" .byte 0) .nil).record
  (fun (pins, register, data, dir, direction, ()) => ⟨pins, register, data, dir, direction⟩)
  (fun g => (g.pins, g.register, g.dataAddress, g.directionAddress, g.direction, ()))

/-- The place of a pin in its group, as a byte: a place from 256 on starts over at zero. -/
def bitOf? (g : PinGroup) (pin : UInt8) : Option UInt8 :=
  (g.pins.findIdx? (· == pin)).map Nat.toUInt8

end PinGroup

/-- Where a pin is found in an expander. -/
structure BitPlace where
  /-- The number of the register in the bank. -/
  register : Nat
  dataAddress : UInt8
  bit : Bit
  deriving DecidableEq

end PinBench
